import Templates.Program
import Templates.Engine.Answer

/-!
# Instantiation

The front end elaborates new instances by programs, which may make requests of their own, and those
may need new instances again. `Service.instantiate` answers a request. It spends fuel on every level
of nesting and on every instance that it releases, and halts when none is left.
-/

namespace Templates

/-- The front end as the engine sees it. -/
structure Service (σ : Type) extends Semantics σ where
  /-- Elaborates the members of a new instance. The chain ends in the instance. -/
  elaborate : Chain → InstanceId → Program σ (Except Failure MemberTable)
  /-- Goes on with an instance when all that it waited for has ended. -/
  resume : InstanceId → Program σ (Except Failure Unit) := fun _ => .done (.ok ())
  /-- Adds a member of a mixin to the aggregate. -/
  inject : SymbolId → Member → StateM σ Unit := fun _ _ => pure ()

namespace Service

variable {σ : Type}

/-- What answers requests. -/
abbrev Handler (σ : Type) := Chain → Request → RunM σ (Except TemplateError InstanceId)

/-- A step of the engine that prints symbols. -/
def named {α : Type} (svc : Service σ) (f : (SymbolId → String) → Engine → α × Engine) : RunM σ α :=
  fun r => RunM.engine (f (svc.symbolName r.service)) r

/-- Releases each instance of the list, the first one first, then those that waited for it. An
instance that waits for nothing more goes on and is complete or errored after that. -/
def releaseAll (svc : Service σ) (answer : Handler σ) : Nat → List InstanceId → RunM σ Unit
  | _, [] => pure ()
  | 0, _ :: _ => RunM.halt .outOfFuel
  | n + 1, i :: rest => do
    if ← RunM.engine (·.release i) then
      let result ← (svc.resume i).run answer
      svc.named fun names e => ((), e.settle names i result)
      let waiting ← RunM.engine (·.takeDeferred i)
      svc.releaseAll answer n (waiting.reverse ++ rest)
    else svc.releaseAll answer n rest

/-- Releases the instances that wait for `i`, the last one first. -/
def releaseDeferred (svc : Service σ) (answer : Handler σ) (fuel : Nat) (i : InstanceId) :
    RunM σ Unit := do
  let waiting ← RunM.engine (·.takeDeferred i)
  svc.releaseAll answer fuel waiting.reverse

/-- Adds the members to the aggregate, in order. -/
def injectAll (svc : Service σ) (target : SymbolId) : List Member → StateM σ Unit
  | [] => pure ()
  | m :: ms => do
    svc.inject target m
    svc.injectAll target ms

/-- The members of a mixin go to its aggregate. -/
def splice (svc : Service σ) (r : Request) (members : MemberTable) : StateM σ Unit :=
  match r.mixin with
  | some target => svc.injectAll target.aggregate members
  | none => pure ()

/-- Opens the scope of the parameters of a new instance. -/
def openParams (svc : Service σ) (i : InstanceId) (p : Plan) : RunM σ Unit := do
  let d := (← get).engine.decl p.decl
  let scope ← RunM.service (svc.paramScope d (.ofArgs p.deduction.args))
  RunM.engine fun e => ((), e.modifyInst i fun inst => { inst with paramScope := some scope })

/-- The members are there: those of a mixin go to its aggregate, and who waits for the instance is
released unless it waits itself. -/
def finish (svc : Service σ) (answer : Handler σ) (fuel : Nat) (r : Request) (i : InstanceId)
    (members : MemberTable) : RunM σ Unit := do
  RunM.service (svc.splice r members)
  RunM.engine fun e => ((), e.complete i members)
  if (← get).engine.isComplete i then svc.releaseDeferred answer fuel i else pure ()

/-- Has the members of a new instance elaborated. -/
def elaborateNew (svc : Service σ) (answer : Handler σ) (fuel : Nat) (c : Chain) (r : Request)
    (p : Plan) (i : InstanceId) : RunM σ (Except TemplateError InstanceId) := do
  svc.openParams i p
  match ← (svc.elaborate (Engine.frameOf r p i :: c) i).run answer with
  | .ok members =>
    svc.finish answer fuel r i members
    pure (.ok i)
  | .error f =>
    let err ← svc.named fun names e => e.fail names i f.message r.span c
    svc.releaseDeferred answer fuel i
    pure (.error err)

/-- Answers a request with a plan: with an instance that is there, or with a new one. -/
def carryOut (svc : Service σ) (answer : Handler σ) (fuel : Nat) (c : Chain) (r : Request)
    (p : Plan) : RunM σ (Except TemplateError InstanceId) := do
  let run ← get
  match run.engine.answer? (svc.symbolName run.service) r c p with
  | some (a, e) => RunM.engine fun _ => (a, e)
  | none =>
    let i ← RunM.engine fun e => e.create r c p
    svc.elaborateNew answer fuel c r p i

/-- Answers a request outside its own gag. Its declaration is looked at once its arguments are
resolved. -/
def handle (svc : Service σ) (answer : Handler σ) (fuel : Nat) : Handler σ := fun c r => do
  RunM.engine fun e => ((), e.countRequest)
  match ← RunM.service (svc.resolveRequest r) with
  | .error err => svc.named fun names e => e.reject names err c
  | .ok resolved =>
    let e := (← get).engine
    if e.decls.size ≤ r.decl.index then RunM.halt (.dangling e.decls.size r.decl.index)
    else
      match ← RunM.service (e.plan svc.toSemantics r resolved) with
      | .error err => svc.named fun names e => e.reject names err c
      | .ok p => svc.carryOut answer fuel c r p

/-- Answers a request. A gagged one has a gag around it. -/
def respond (svc : Service σ) (answer : Handler σ) (fuel : Nat) : Handler σ := fun c r => do
  if r.gagged then
    let mark ← RunM.engine fun e => Command.run e .pushGag
    let a ← svc.handle answer fuel c r
    let _ ← RunM.engine fun e => Command.run e (.popGag mark)
    pure a
  else svc.handle answer fuel c r

/-- Answers a request with at most `fuel` levels of nesting. -/
def instantiate (svc : Service σ) : Nat → Handler σ
  | 0 => fun _ _ => RunM.halt .outOfFuel
  | n + 1 => svc.respond (svc.instantiate n) n

/-- Runs a program of the front end. -/
def run {α : Type} (svc : Service σ) (fuel : Nat) (p : Program σ α) : RunM σ α :=
  p.run (svc.instantiate fuel)

end Service
end Templates
