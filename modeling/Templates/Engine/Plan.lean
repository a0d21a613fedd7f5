import Templates.Engine.Select
import Templates.Chain

/-!
# Requests and what they ask for

A request names an overload set and writes arguments. Its plan says which declaration is meant, with
which arguments and in which scope, so that the instance can be looked up or made. Making the plan
changes nothing in the engine.
-/

namespace Templates

structure Request where
  /-- Any declaration of the overload set. -/
  decl : DeclId
  args : List SiteArg := []
  /-- The scope in which the arguments are written. -/
  scope : ScopeId := ⟨0⟩
  /-- The module that asks. -/
  module : ModuleId := ⟨0⟩
  span : Span := {}
  /-- The receiver of a member call. -/
  receiver : Option Ty := none
  need : Need := .members
  /-- Failures are counted but not reported. -/
  gagged : Bool := false
  mixin : Option MixinTarget := none
  deriving Inhabited

/-- What a request comes down to. -/
structure Plan where
  resolved : List Arg
  decl : DeclId
  deduction : Deduction
  enclosing : Option ScopeId
  deriving DecidableEq, Inhabited

namespace Semantics

variable {σ : Type}

mutual

/-- Resolves an argument where it is written. A sequence gives its elements. -/
def resolveArg (sem : Semantics σ) (scope : ScopeId) :
    SiteArg → StateM σ (Except Failure (List Arg))
  | .type t => do pure ((← sem.resolveType t scope).map fun t => [.type t])
  | .value v => pure (.ok [.ofValue v])
  | .expr e => do pure ((← sem.evaluate e scope).map fun v => [.ofValue v])
  | .symbol x => do pure (.ok [.symbol (sem.canonicalSymbol (← get) x)])
  | .tuple elems => sem.resolveArgs scope elems

/-- Resolves arguments left to right. The first failure ends it. -/
def resolveArgs (sem : Semantics σ) (scope : ScopeId) :
    List SiteArg → StateM σ (Except Failure (List Arg))
  | [] => pure (.ok [])
  | a :: as => do
    match ← sem.resolveArg scope a with
    | .error f => pure (.error f)
    | .ok front =>
      match ← sem.resolveArgs scope as with
      | .error f => pure (.error f)
      | .ok rest => pure (.ok (front ++ rest))

end

/-- Resolves the arguments of a request and looks them over for errors. -/
def resolveRequest (sem : Semantics σ) (r : Request) :
    StateM σ (Except TemplateError (List Arg)) := do
  match ← sem.resolveArgs r.scope r.args with
  | .error f => pure (.error (.semantic f))
  | .ok resolved =>
    if resolved.any Arg.containsError then
      pure (.error (.semantic ⟨"template argument has errors", r.span⟩))
    else pure (.ok resolved)

end Semantics

/-- The scope that every local symbol among the arguments belongs to, `found` included. The first
local of another scope is the error. -/
def enclosingScope (contextOf : SymbolId → Option ScopeId) :
    Option ScopeId → List Arg → Except SymbolId (Option ScopeId)
  | found, [] => .ok found
  | found, .symbol s :: rest =>
    match contextOf s, found with
    | none, found => enclosingScope contextOf found rest
    | some scope, none => enclosingScope contextOf (some scope) rest
    | some scope, some other =>
      if other = scope then enclosingScope contextOf (some other) rest else .error s
  | found, _ :: rest => enclosingScope contextOf found rest

namespace Engine

variable {σ : Type}

/-- The error of a request whose locals belong to different functions. -/
def mixedLocals (e : Engine) (p : Printer) (r : Request) (resolved : List Arg) (s : SymbolId) :
    TemplateError :=
  let d := e.decl r.decl
  .argumentMismatch (p.signature d) (p.inst d.name resolved)
    ("local `" ++ p.names s ++ "` belongs to a different function than the other local arguments")
    r.span

/-- The scope that belongs to the key of the instance: that of the mixin's target, or that of the
local arguments. -/
def scopeOf (e : Engine) (sem : Semantics σ) (s : σ) (r : Request) (resolved deduced : List Arg) :
    Except TemplateError (Option ScopeId) :=
  match r.mixin with
  | some target => .ok (some target.scope)
  | none =>
    match enclosingScope (sem.localContext s) none (Arg.flatten deduced) with
    | .ok scope => .ok scope
    | .error x => .error (e.mixedLocals { names := sem.symbolName s } r resolved x)

/-- The plan of a request with resolved arguments: an overload is chosen, and the enclosing scope is
found. -/
def plan (e : Engine) (sem : Semantics σ) (r : Request) (resolved : List Arg) :
    StateM σ (Except TemplateError Plan) := do
  let selected ← e.select sem r.decl resolved r.receiver r.module
  let s ← get
  match selected with
  | .error why =>
    pure (.error (e.selectionError { names := sem.symbolName s } r.decl resolved r.span why))
  | .ok (id, deduction) =>
    if (e.decl id).flags.mixinOnly && r.mixin.isNone then
      pure (.error (.mixinOnly (e.decl id).name r.span))
    else pure ((e.scopeOf sem s r resolved deduction.args).map (⟨resolved, id, deduction, ·⟩))

end Engine
end Templates
