import Templates.World.Expr
import Templates.World.Report

/-!
# A scripted front end

The world of a script has symbols, expressions and scopes, and lists of steps that stand for the
bodies of declarations. It logs what it is asked.
-/

namespace Templates

namespace World

structure SymbolInfo where
  name : String
  type : Option Ty := none
  aliasOf : Option SymbolId := none
  /-- The scope of the function that the symbol is local to. -/
  context : Option ScopeId := none
  /-- What the nominal type of the symbol resolves to. -/
  resolvesTo : Option Ty := none
  resolveFailure : Option Failure := none
  deriving Inhabited

structure Scope where
  parent : Option ScopeId := none
  /-- In the order of declaration. -/
  bindings : List (String × Arg) := []
  deriving Inhabited

/-- An argument that a step computes from the deduced arguments of its instance. -/
inductive StepArg
  | site (a : SiteArg)
  /-- A type with the deduced arguments put in. -/
  | subst (t : Ty)
  | deduced (i : Nat)
  /-- An integer argument plus `k`. -/
  | add (i : Nat) (k : Int)
  /-- The first element of a sequence argument. -/
  | first (i : Nat)
  /-- The other elements of a sequence argument. -/
  | rest (i : Nat)
  /-- Nothing, provided that an integer argument is positive. -/
  | positive (i : Nat)
  deriving Inhabited

/-- A request of a step. Scope and module are those of the instance if they are not given. -/
structure StepRequest where
  request : Request
  args : List StepArg
  scope : Option ScopeId := none
  module : Option ModuleId := none
  /-- The chain is not handed on. -/
  dropChain : Bool := false
  /-- An error does not end the body. -/
  ignore : Bool := false
  deriving Inhabited

mutual

inductive Op
  | declare (d : Decl)
  | overload (existing : DeclId) (d : Decl)
  | body (d : DeclId) (steps : List Step)
  | resumeBody (d : DeclId) (steps : List Step)
  /-- With frames to put on the chain first, outermost first. -/
  | instantiate (r : Request) (frames : List Frame)
  | mixin (r : Request) (target : MixinTarget)
  | select (d : DeclId) (args : List Arg) (receiver : Option Ty) (m : ModuleId)
  | matchDecl (d : DeclId) (args : List Arg) (receiver : Option Ty) (mode : MatchMode)
  | compare (a b : DeclId)
  | selectBest (candidates : List (DeclId × Level))
  | defaultArg (d : DeclId) (i : ParamIdx) (b : Bindings)
  | decl (d : DeclId)
  | inst (i : InstanceId)
  | trace (i : InstanceId)
  | toAlias (i : InstanceId)
  | addRoot (m : ModuleId)
  | isRoot (m : ModuleId)
  | codegen (i : InstanceId)
  | claim (i : InstanceId) (m : ModuleId)
  | recordImport (i : InstanceId) (m : ModuleId)
  | layout (a : AggregateLayout) (ids : List InstanceId)
  | gag
  | ungag (mark : Nat)
  | stats
  | counts
  | diagnostics
  | take

inductive Step
  /-- A member; the layout of a field is given or follows from its type. -/
  | member (name : String) (field : Option Ty) (layout : Option FieldLayout)
  | fail (f : Failure)
  | recordImport (m : ModuleId)
  | act (op : Op)
  | request (r : StepRequest)

end

instance : Inhabited Op := ⟨.gag⟩
instance : Inhabited Step := ⟨.fail default⟩

end World

structure World where
  symbols : Array World.SymbolInfo := #[]
  exprs : Array World.Expr := #[]
  scopes : Array World.Scope := #[{}]
  conversions : List (Ty × Ty × Level) := []
  /-- Integer types convert to each other. -/
  integral : Bool := false
  /-- Scopes and declarations are logged as well. -/
  fullLog : Bool := false
  bodies : List (DeclId × List World.Step) := []
  resumeBodies : List (DeclId × List World.Step) := []
  /-- The marks of the gags that the script opened. -/
  marks : Array GagMark := #[]
  log : Array World.Event := #[]
  deriving Inhabited

namespace World

def symbol? (w : World) (s : SymbolId) : Option SymbolInfo := w.symbols[s.index]?

def write (w : World) (ev : Event) : World := { w with log := w.log.push ev }

def writeIf (w : World) (b : Bool) (ev : Event) : World := if b then w.write ev else w

/-- A symbol without a name has the empty one. -/
def symbolName (w : World) (s : SymbolId) : String := ((w.symbol? s).map (·.name)).getD ""

/-- Follows at most `n` aliases. -/
def follow (w : World) : Nat → SymbolId → SymbolId
  | 0, s => s
  | n + 1, s =>
    match (w.symbol? s).bind (·.aliasOf) with
    | some t => w.follow n t
    | none => s

/-- Looks a name up in at most `n` scopes, from the given one outwards. The first binding of a scope
counts. -/
def findFrom (w : World) (name : String) : Nat → ScopeId → Option Arg
  | 0, _ => none
  | n + 1, scope =>
    match w.scopes[scope.index]? with
    | none => none
    | some s =>
      match s.bindings.lookup name with
      | some a => some a
      | none => s.parent.bind fun p => w.findFrom name n p

def find? (w : World) (scope : ScopeId) (name : String) : Option Arg :=
  w.findFrom name w.scopes.size scope

def evalAt (w : World) (e : ExprId) (scope : ScopeId) : Except Failure Value :=
  match w.exprs[e.index]? with
  | some x => x.eval (w.find? scope)
  | none => .error ⟨"unknown expression", {}⟩

def resolve (w : World) : Ty → Except Failure Ty
  | .named s =>
    match w.symbol? s with
    | some info =>
      match info.resolveFailure with
      | some f => .error f
      | none => .ok (info.resolvesTo.getD (.named s))
    | none => .ok (.named s)
  | t => .ok t

def isInteger : Ty → Bool
  | .basic b => b.isInteger
  | _ => false

/-- The table of conversions goes first, then equality, then conversion among integers. -/
def conversion (w : World) (a b : Ty) : Level :=
  match w.conversions.find? fun (x, y, _) => x = a ∧ y = b with
  | some (_, _, l) => l
  | none =>
    if a = b then .exact
    else if w.integral && isInteger a && isInteger b then .convert
    else .noMatch

def semantics : Semantics World where
  evaluate e scope := fun w =>
    let r := w.evalAt e scope
    (r, w.write (.evaluated e scope r))
  resolveType t _ := fun w => (w.resolve t, w)
  openScope parent := fun w =>
    let scope : ScopeId := ⟨w.scopes.size⟩
    (scope,
      { w with scopes := w.scopes.push { parent := some parent } }.writeIf w.fullLog
        (.opened parent scope))
  declareSymbol scope name a := fun w =>
    ((),
      { w with
        scopes := w.scopes.modify scope.index fun s =>
          { s with bindings := s.bindings ++ [(name, a)] } }.writeIf w.fullLog
        (.declared scope name a))
  canonicalSymbol w s := w.follow 64 s
  symbolType w s := (w.symbol? s).bind (·.type)
  localContext w s := (w.symbol? s).bind (·.context)
  conversion w a b := w.conversion a b
  symbolName w s := w.symbolName s

end World
end Templates
