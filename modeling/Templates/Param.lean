import Templates.Span
import Templates.Arg
import Templates.Ty.Subst

/-!
# Template parameters

A parameter is a type, the receiver of a member call, a value, a symbol or a sequence. All but the
sequence may have a specialization, which an argument has to fit, and a default.
-/

namespace Templates

structure TypeParam where
  spec : Option Ty := none
  default : Option Ty := none
  deriving DecidableEq, Inhabited

structure ValueParam where
  /-- The declared type. It may mention other parameters. -/
  ty : Ty
  spec : Option ExprId := none
  default : Option ExprId := none
  deriving DecidableEq, Inhabited

structure SymbolParam where
  /-- A pattern for the type of the symbol. -/
  specType : Option Ty := none
  /-- The only symbol that fits. -/
  specSymbol : Option SymbolId := none
  default : Option SymbolId := none
  deriving DecidableEq, Inhabited

inductive ParamKind
  | type (p : TypeParam)
  /-- Bound from the receiver of a member call. -/
  | this (p : TypeParam)
  | value (p : ValueParam)
  | symbol (p : SymbolParam)
  /-- Takes all arguments that are left. -/
  | tuple
  deriving DecidableEq, Inhabited

structure Param where
  name : String
  span : Span := {}
  /-- An earlier parameter's pattern mentions this one. The engine computes it. -/
  dependent : Bool := false
  kind : ParamKind
  deriving DecidableEq, Inhabited

/-- The specialization that is in force. -/
inductive Specialization
  | type (t : Ty)
  | value (e : ExprId)
  | symbol (s : SymbolId)
  deriving DecidableEq

/-- The kinds of parameters with what each of them must say. -/
inductive ParamForm
  | type
  | this
  | value (ty : Ty)
  | symbol
  | tuple

/-- What may be said about a parameter. -/
structure ParamOptions where
  specType : Option Ty := none
  defaultType : Option Ty := none
  specValue : Option ExprId := none
  defaultValue : Option ExprId := none
  specSymbol : Option SymbolId := none
  defaultSymbol : Option SymbolId := none

/-- A parameter of the given form. Options that do not belong to the form are dropped. -/
def ParamForm.kind (o : ParamOptions) : ParamForm → ParamKind
  | .type => .type ⟨o.specType, o.defaultType⟩
  | .this => .this ⟨o.specType, o.defaultType⟩
  | .value ty => .value ⟨ty, o.specValue, o.defaultValue⟩
  | .symbol => .symbol ⟨o.specType, o.specSymbol, o.defaultSymbol⟩
  | .tuple => .tuple

namespace ParamKind

def isTuple : ParamKind → Bool
  | .tuple => true
  | _ => false

def isThis : ParamKind → Bool
  | .this _ => true
  | _ => false

/-- For a symbol parameter the symbol goes before the pattern of its type. -/
def specialization? : ParamKind → Option Specialization
  | .type p | .this p => p.spec.map .type
  | .value p => p.spec.map .value
  | .symbol p => (p.specSymbol.map .symbol).or (p.specType.map .type)
  | .tuple => none

def hasDefault : ParamKind → Bool
  | .type p | .this p => p.default.isSome
  | .value p => p.default.isSome
  | .symbol p => p.default.isSome
  | .tuple => false

/-- The pattern or declared type that may mention parameters. -/
def pattern? : ParamKind → Option Ty
  | .type p | .this p => p.spec
  | .value p => some p.ty
  | .symbol p => p.specType
  | .tuple => none

/-- The parameters that the pattern mentions. -/
def patternRefs (k : ParamKind) : List ParamIdx := (k.pattern?.map Ty.paramRefs).getD []

/-- The argument that stands for anything the parameter accepts. `spec` is the value of a value
specialization, where there is one. -/
def standIn (k : ParamKind) (p : Placeholder) (spec : Option Value) : Arg :=
  match k with
  | .type q | .this q => .type ((q.spec.map (Ty.withStandIns p.decl)).getD (.standIn p))
  | .value q => .ofValue (spec.getD ⟨q.ty.withStandIns p.decl, .standIn p⟩)
  | .symbol q => .symbol (q.specSymbol.getD (.placeholder p))
  | .tuple => .tuple []

end ParamKind

namespace Param

def isTuple (p : Param) : Bool := p.kind.isTuple

def isThis (p : Param) : Bool := p.kind.isThis

end Param
end Templates
