import Templates.Ty.Basic

/-!
# Questions about types

Whether a type holds an error or a pointer, and which parameters a pattern mentions.
-/

namespace Templates

mutual

/-- An error type appears somewhere inside. -/
def Ty.containsError : Ty → Bool
  | .error => true
  | .const t | .ptr t | .array t | .staticArray t _ => t.containsError
  | .inst _ args => Arg.anyContainsError args
  | .basic _ | .named _ | .param _ | .standIn _ => false

def Arg.containsError : Arg → Bool
  | .type t => t.containsError
  | .value t _ => t.containsError
  | .symbol _ => false
  | .tuple elems => Arg.anyContainsError elems

def Arg.anyContainsError : List Arg → Bool
  | [] => false
  | a :: as => a.containsError || Arg.anyContainsError as

end

theorem Arg.anyContainsError_eq_any (as : List Arg) :
    Arg.anyContainsError as = as.any Arg.containsError := by
  induction as with
  | nil => rfl
  | cons a as ih => simp [Arg.anyContainsError, ih]

namespace Ty

/-- A value of the type holds a pointer that a collector must scan. -/
def hasPointers : Ty → Bool
  | .ptr _ | .array _ | .named _ | .inst _ _ => true
  | .const t | .staticArray t _ => t.hasPointers
  | .basic _ | .param _ | .standIn _ | .error => false

end Ty

/-- The parameter that gives the length, if one does. -/
def Dim.mentions : Dim → List ParamIdx
  | .param i => [i]
  | .known _ | .standIn _ => []

/-- The parameter that gives the template, if one does. -/
def TemplateRef.mentions : TemplateRef → List ParamIdx
  | .param i => [i]
  | .symbol _ => []

mutual

/-- The parameters of a pattern, one for each place. The length of an array and the template of an
instance come first. Of the arguments of an instance only the types are looked at. -/
def Ty.mentions : Ty → List ParamIdx
  | .param i => [i]
  | .const t | .ptr t | .array t => t.mentions
  | .staticArray t d => d.mentions ++ t.mentions
  | .inst r args => r.mentions ++ Arg.mentionsList args
  | .basic _ | .named _ | .standIn _ | .error => []

def Arg.mentions : Arg → List ParamIdx
  | .type t => t.mentions
  | .value _ _ | .symbol _ | .tuple _ => []

def Arg.mentionsList : List Arg → List ParamIdx
  | [] => []
  | a :: as => a.mentions ++ Arg.mentionsList as

end

theorem Arg.mentionsList_eq_flatMap (as : List Arg) :
    Arg.mentionsList as = as.flatMap Arg.mentions := by
  induction as with
  | nil => rfl
  | cons a as ih => simp [Arg.mentionsList, ih]

namespace Ty

/-- The parameters of a pattern, each once, in the order found. -/
def paramRefs (t : Ty) : List ParamIdx := t.mentions.eraseDups

def hasParams (t : Ty) : Bool := !t.mentions.isEmpty

end Ty
end Templates
