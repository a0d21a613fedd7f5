import Templates.Param
import Templates.Cache

/-!
# Template declarations

A declaration has parameters and perhaps a constraint. `Decl.finalize?` rejects parameter lists that
cannot be matched and marks the parameters that an earlier pattern mentions. Overloads of a template
form a list: each but the first knows the first, and each but the last knows the next.
-/

namespace Templates

inductive Visibility
  | «private»
  | package
  | «protected»
  | «public»
  | «export»
  deriving DecidableEq, Inhabited, Repr

structure DeclFlags where
  /-- Instances must be mixed into an aggregate. -/
  mixinOnly : Bool := false
  /-- Made from a function or an aggregate with template parameters. -/
  literal : Bool := false
  /-- Instances need no receiver. -/
  static : Bool := false
  deriving DecidableEq, Inhabited, Repr

/-- Why a parameter list is rejected. -/
inductive ParamListError
  | tupleNotLast
  | duplicateName (param : Nat)
  | unknownParam (param target : Nat)
  | thisNotFirst
  deriving DecidableEq, Inhabited, Repr

def ParamListError.message : ParamListError → String
  | .tupleNotLast => "sequence parameter must be the last parameter"
  | .duplicateName i => "parameter #" ++ toString i ++ " is declared more than once"
  | .unknownParam i t =>
    "specialization of parameter #" ++ toString i ++ " mentions unknown parameter #" ++ toString t
  | .thisNotFirst => "`this` parameter must be the first parameter"

structure Decl where
  name : String
  span : Span := {}
  /-- The symbol that reaches the declaration. -/
  symbol : SymbolId := ⟨0⟩
  module : ModuleId := ⟨0⟩
  /-- The scope around every scope of parameters. -/
  scope : ScopeId := ⟨0⟩
  params : List Param := []
  constraint : Option ExprId := none
  /-- The only member of the body, if it declares exactly one. -/
  oneMember : Option String := none
  visibility : Visibility := .public
  flags : DeclFlags := {}
  deriving Inhabited

namespace Decl

def param? (d : Decl) (i : ParamIdx) : Option Param := d.params[i.index]?

/-- The sequence parameter at the end. -/
def variadic? (d : Decl) : Option ParamIdx :=
  match d.params.getLast? with
  | some p => if p.isTuple then some ⟨d.params.length - 1⟩ else none
  | none => none

def isVariadic (d : Decl) : Bool := d.variadic?.isSome

/-- There is a sequence parameter and no other parameter's pattern gives it. -/
def isOpenVariadic (d : Decl) : Bool :=
  ((d.variadic?.bind d.param?).map fun p => !p.dependent).getD false

/-- The only member has the name of the declaration. -/
def isEponymous (d : Decl) : Bool := d.oneMember = some d.name

/-- A private declaration is seen from its own module only. -/
def isVisibleFrom (d : Decl) (m : ModuleId) : Bool :=
  match d.visibility with
  | .private => m = d.module
  | .package | .protected | .public | .export => true

/-! ## Parameter lists -/

/-- What is wrong with parameter `i` of the list, its pattern apart. -/
def shapeError? (ps : List Param) (p : Param) (i : Nat) : Option ParamListError :=
  if p.isTuple ∧ i + 1 ≠ ps.length then some .tupleNotLast
  else if p.isThis ∧ i ≠ 0 then some .thisNotFirst
  else if (ps.take i).any (·.name = p.name) then some (.duplicateName i)
  else none

/-- The first parameter that the pattern of parameter `i` mentions and the list does not have. -/
def refError? (ps : List Param) (p : Param) (i : Nat) : Option ParamListError :=
  (p.kind.patternRefs.find? fun t => ps.length ≤ t.index).map fun t => .unknownParam i t.index

/-- What is wrong with a parameter list. Patterns are looked at last. -/
def paramsError? (ps : List Param) : Option ParamListError :=
  (ps.zipIdx.findSome? fun (p, i) => shapeError? ps p i).or
    (ps.zipIdx.findSome? fun (p, i) => refError? ps p i)

/-- The pattern of an earlier parameter mentions parameter `t`. -/
def isDependent (ps : List Param) (t : Nat) : Bool :=
  (ps.take t).any fun p => p.kind.patternRefs.contains ⟨t⟩

/-- The declaration as the engine keeps it, unless its parameter list is wrong. -/
def finalize? (d : Decl) : Except ParamListError Decl :=
  match paramsError? d.params with
  | some e => .error e
  | none =>
    .ok { d with
      params := d.params.zipIdx.map fun (p, i) => { p with dependent := isDependent d.params i } }

end Decl

/-- A declaration of the engine, with its place among its overloads and its instances. -/
structure DeclEntry extends Decl where
  next : Option DeclId := none
  root : Option DeclId := none
  cache : InstanceCache := {}
  deriving Inhabited

end Templates
