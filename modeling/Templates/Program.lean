import Templates.Engine.Plan
import Templates.Engine.Ownership

/-!
# Programs over the engine

A program is what the front end does with the engine while it elaborates an instance: it reads both
states, changes its own, gives commands to the engine and makes requests. Every path through a
program is finite, and nothing bounds how many there are. A request carries the chain that the front
end hands on with it.
-/

namespace Templates

/-- Why a run cannot go on. -/
inductive Halt
  | outOfFuel
  /-- A handle that was never given out, with the number of those that were. -/
  | dangling (size index : Nat)
  deriving DecidableEq, Inhabited, Repr

def Halt.message : Halt → String
  | .outOfFuel => "out of fuel"
  | .dangling size index =>
    "index out of bounds: the len is " ++ toString size ++ " but the index is " ++ toString index

/-- What the engine does at once. -/
inductive Command
  | declare (d : Decl)
  | overload (existing : DeclId) (d : Decl)
  | addRoot (m : ModuleId)
  | claim (i : InstanceId) (m : ModuleId)
  | recordImport (i : InstanceId) (m : ModuleId)
  | addDiagnostic (d : Diagnostic)
  | pushGag
  | popGag (m : GagMark)
  | flush

/-- The type of what a command gives back. -/
abbrev Command.Reply : Command → Type
  | .declare _ | .overload _ _ => Except TemplateError DeclId
  | .addRoot _ | .recordImport _ _ => Unit
  | .claim _ _ | .addDiagnostic _ => Bool
  | .pushGag => GagMark
  | .popGag _ => Nat
  | .flush => List Diagnostic

/-- A command for a declaration or an instance that does not exist halts the run. -/
def Command.danglingIn (e : Engine) : Command → Option Halt
  | .overload d _ =>
    if d.index < e.decls.size then none else some (.dangling e.decls.size d.index)
  | .claim i _ | .recordImport i _ =>
    if i.index < e.insts.size then none else some (.dangling e.insts.size i.index)
  | _ => none

/-- Carries out a command. -/
def Command.run (e : Engine) : (c : Command) → c.Reply × Engine
  | .declare d => e.declare d
  | .overload d d' => e.overloadInsert d d'
  | .addRoot m => ((), e.addRoot m)
  | .claim i m => e.claimCodegen i m
  | .recordImport i m => ((), e.recordImport i m)
  | .addDiagnostic d => let (kept, q) := e.queue.add d; (kept, { e with queue := q })
  | .pushGag => let (mark, q) := e.queue.pushGag; (mark, { e with queue := q })
  | .popGag m => let (n, q) := e.queue.popGag m; (n, { e with queue := q })
  | .flush => let (ds, q) := e.queue.flush; (ds, { e with queue := q })

inductive Program (σ α : Type) : Type 1
  | done (a : α)
  | halt (h : Halt)
  | read (k : Engine → σ → Program σ α)
  /-- A step of the front end alone. -/
  | service {β : Type} (m : StateM σ β) (k : β → Program σ α)
  | command (c : Command) (k : c.Reply → Program σ α)
  | request (chain : Chain) (r : Request) (k : Except TemplateError InstanceId → Program σ α)

namespace Program

variable {σ α β : Type}

def bind : Program σ α → (α → Program σ β) → Program σ β
  | .done a, f => f a
  | .halt h, _ => .halt h
  | .read k, f => .read fun e s => (k e s).bind f
  | .service m k, f => .service m fun b => (k b).bind f
  | .command c k, f => .command c fun r => (k r).bind f
  | .request c r k, f => .request c r fun a => (k a).bind f

instance : Monad (Program σ) where
  pure := .done
  bind := .bind

/-- The state of the engine. -/
def engine : Program σ Engine := .read fun e _ => .done e

/-- A step of the front end and its result. -/
def call (m : StateM σ α) : Program σ α := .service m .done

/-- A command and its reply. -/
def perform (c : Command) : Program σ c.Reply := .command c .done

/-- A request and its answer. -/
def ask (c : Chain) (r : Request) : Program σ (Except TemplateError InstanceId) :=
  .request c r .done

/-- The declaration `d`, or a halt. -/
def declared (d : DeclId) : Program σ DeclEntry :=
  .read fun e _ =>
    match e.decl? d with
    | some entry => .done entry
    | none => .halt (.dangling e.decls.size d.index)

/-- The instance `i`, or a halt. -/
def made (i : InstanceId) : Program σ Instance :=
  .read fun e _ =>
    match e.inst? i with
    | some inst => .done inst
    | none => .halt (.dangling e.insts.size i.index)

end Program

/-- The engine and the front end in the course of a run. -/
structure Run (σ : Type) where
  engine : Engine
  service : σ

/-- Steps of a run. -/
abbrev RunM (σ : Type) := StateT (Run σ) (Except Halt)

namespace RunM

variable {σ α : Type}

def halt (h : Halt) : RunM σ α := fun _ => .error h

/-- A step of the engine alone. -/
def engine (f : Engine → α × Engine) : RunM σ α :=
  fun ⟨e, s⟩ => let (a, e) := f e; .ok (a, ⟨e, s⟩)

/-- A step of the front end alone. -/
def service (m : StateM σ α) : RunM σ α :=
  fun ⟨e, s⟩ => let (a, s) := m s; .ok (a, ⟨e, s⟩)

end RunM

/-- Runs a program, given what answers its requests. -/
def Program.run {σ α : Type}
    (answer : Chain → Request → RunM σ (Except TemplateError InstanceId)) :
    Program σ α → RunM σ α
  | .done a => pure a
  | .halt h => RunM.halt h
  | .read k => do
    let r ← get
    (k r.engine r.service).run answer
  | .service m k => do
    let b ← RunM.service m
    (k b).run answer
  | .command c k => do
    match c.danglingIn (← get).engine with
    | some h => RunM.halt h
    | none =>
      let reply ← RunM.engine fun e => c.run e
      (k reply).run answer
  | .request c r k => do
    let a ← answer c r
    (k a).run answer

end Templates
