import Templates.Width
import Templates.Ty.Basic

/-!
# Substitution

`Ty.subst` puts bindings in the place of parameters, `Ty.withStandIns` puts stand-ins there.
A parameter without a fitting binding stays in place.
-/

namespace Templates

/-- What each parameter of a declaration is bound to so far. -/
abbrev Bindings := List (Option Arg)

namespace Bindings

def get? (b : Bindings) (i : ParamIdx) : Option Arg := (b[i.index]?).join

/-- Every parameter is free. -/
def free (n : Nat) : Bindings := List.replicate n none

/-- Every parameter is bound. -/
def ofArgs (args : List Arg) : Bindings := args.map some

@[simp] theorem get?_ofArgs (args : List Arg) (i : ParamIdx) :
    (ofArgs args).get? i = args[i.index]? := by
  cases h : args[i.index]? <;> simp [get?, ofArgs, h]

@[simp] theorem get?_free (n : Nat) (i : ParamIdx) : (free n).get? i = none := by
  rw [get?, free, List.getElem?_replicate]
  split <;> rfl

end Bindings

/-- An integer binding that is a 64-bit word becomes the length. -/
def Dim.subst (b : Bindings) : Dim → Dim
  | .param i =>
    match b.get? i with
    | some (.value _ (.int n)) =>
      if 0 ≤ n ∧ n.toNat ≤ maxWord64 then .known (UInt64.ofNat n.toNat) else .param i
    | some (.value _ (.standIn p)) => .standIn p
    | _ => .param i
  | d => d

def TemplateRef.subst (b : Bindings) : TemplateRef → TemplateRef
  | .param i =>
    match b.get? i with
    | some (.symbol s) => .symbol s
    | _ => .param i
  | r => r

/-- A bare parameter in the place of an argument takes its binding whatever its kind is, and a
sequence takes as many places as it has elements. -/
def Bindings.splice (b : Bindings) (i : ParamIdx) : List Arg :=
  match b.get? i with
  | some (.tuple elems) => elems
  | some a => [a]
  | none => [.type (.param i)]

mutual

def Ty.subst (b : Bindings) : Ty → Ty
  | .param i =>
    match b.get? i with
    | some (.type t) => t
    | _ => .param i
  | .const t => (t.subst b).constant
  | .ptr t => .ptr (t.subst b)
  | .array t => .array (t.subst b)
  | .staticArray t d => .staticArray (t.subst b) (d.subst b)
  | .inst r args => .inst (r.subst b) (Arg.substList b args)
  | .basic x => .basic x
  | .named s => .named s
  | .standIn p => .standIn p
  | .error => .error

/-- What an argument of an instance pattern becomes. -/
def Arg.subst (b : Bindings) : Arg → List Arg
  | .type (.param i) => b.splice i
  | .type t => [.type (t.subst b)]
  | .value t c => [.value t c]
  | .symbol s => [.symbol s]
  | .tuple elems => [.tuple elems]

def Arg.substList (b : Bindings) : List Arg → List Arg
  | [] => []
  | a :: as => a.subst b ++ Arg.substList b as

end

/-! ## Stand-ins -/

def Dim.withStandIn (d : DeclId) : Dim → Dim
  | .param i => .standIn ⟨d, i⟩
  | n => n

def TemplateRef.withStandIn (d : DeclId) : TemplateRef → TemplateRef
  | .param i => .symbol (.placeholder ⟨d, i⟩)
  | r => r

mutual

/-- The pattern with each parameter replaced by its stand-in in declaration `d`. -/
def Ty.withStandIns (d : DeclId) : Ty → Ty
  | .param i => .standIn ⟨d, i⟩
  | .const t => (t.withStandIns d).constant
  | .ptr t => .ptr (t.withStandIns d)
  | .array t => .array (t.withStandIns d)
  | .staticArray t n => .staticArray (t.withStandIns d) (n.withStandIn d)
  | .inst r args => .inst (r.withStandIn d) (Arg.withStandInsList d args)
  | .basic x => .basic x
  | .named s => .named s
  | .standIn p => .standIn p
  | .error => .error

def Arg.withStandIns (d : DeclId) : Arg → Arg
  | .type t => .type (t.withStandIns d)
  | .value t c => .value t c
  | .symbol s => .symbol s
  | .tuple elems => .tuple elems

def Arg.withStandInsList (d : DeclId) : List Arg → List Arg
  | [] => []
  | a :: as => a.withStandIns d :: Arg.withStandInsList d as

end

end Templates
