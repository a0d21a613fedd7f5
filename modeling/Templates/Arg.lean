import Templates.Ty.Queries

/-!
# Arguments

`Arg` is a resolved argument. `SiteArg` is what is written where a template is used: it may hold an
expression that nobody has evaluated and a symbol that is an alias.
-/

namespace Templates

/-- The kind of an argument, for messages. -/
inductive ArgKind
  | type
  | value
  | symbol
  | tuple
  deriving DecidableEq, Inhabited, Repr

def ArgKind.text : ArgKind → String
  | .type => "type"
  | .value => "value"
  | .symbol => "symbol"
  | .tuple => "sequence"

namespace Value

def int (n : Int) : Value := ⟨.int, .int n⟩

def bool (b : Bool) : Value := ⟨.bool, .bool b⟩

def toBool? (v : Value) : Option Bool :=
  match v.const with
  | .bool b => some b
  | _ => none

end Value

namespace Arg

def ofValue (v : Value) : Arg := .value v.ty v.const

def kind : Arg → ArgKind
  | .type _ => .type
  | .value _ _ => .value
  | .symbol _ => .symbol
  | .tuple _ => .tuple

def toType? : Arg → Option Ty
  | .type t => some t
  | _ => none

/-- The arguments that stand in the place of this one once sequences are spliced. -/
def leaves : Arg → List Arg
  | .tuple elems => elems
  | a => [a]

/-- Splices the sequences of a list. -/
def flatten (as : List Arg) : List Arg := as.flatMap leaves

/-- The sequence of the arguments; sequences among them are spliced. -/
def ofList (as : List Arg) : Arg := .tuple (flatten as)

/-- Not a sequence. -/
def isLeaf : Arg → Bool
  | .tuple _ => false
  | _ => true

theorem flatten_of_leaves {as : List Arg} (h : ∀ a ∈ as, a.isLeaf) : flatten as = as := by
  induction as with
  | nil => rfl
  | cons a as ih =>
    have ha := h a (by simp)
    have has := ih fun x hx => h x (by simp [hx])
    cases a <;> simp_all [flatten, leaves, isLeaf]

end Arg

/-- An argument as it is written. -/
inductive SiteArg
  | type (t : Ty)
  /-- A constant that is already known. -/
  | value (v : Value)
  | expr (e : ExprId)
  /-- A symbol that may be an alias. -/
  | symbol (s : SymbolId)
  /-- A sequence, spliced when it is resolved. -/
  | tuple (elems : List SiteArg)

instance : Inhabited SiteArg := ⟨.type .error⟩

end Templates
