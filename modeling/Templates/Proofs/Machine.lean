import Mathlib.Logic.Function.Iterate
import Templates.Service

/-!
# Runs, step by step

`Service.run` answers requests inside each other and says only how a run ends. Here the same run is
cut into steps, so that every moment of it can be spoken of, also when the run does not end. A
machine holds the engine and the front end, what goes on at the moment, and the programs that wait
for the answer to a request, innermost first.

No step asks the front end for anything after it has changed the engine, apart from the names in
the text of an error: what the front end sees is what the machine holds before the step.
`Machine.Adequacy` shows that the steps are those of `Service.run`.
-/

namespace Templates

/-- A request that is being answered. -/
structure Call where
  chain : Chain
  request : Request
  /-- The mark of the gag that the request opened. -/
  mark : Option GagMark

/-- What a call has come to once its instance was made: the instance, and the answer that is given
when every instance that waited has been released. -/
structure Outcome where
  inst : InstanceId
  answer : Except TemplateError InstanceId

/-- What a program of the front end runs for. -/
inductive Role
  /-- The program that uses the engine. -/
  | client
  /-- The members of the instance that a call made. -/
  | elaborate (call : Call) (p : Plan) (i : InstanceId)
  /-- The released instance `w`, while `rest` still has to be released. -/
  | resume (call : Call) (o : Outcome) (w : InstanceId) (rest : List InstanceId)

namespace Role

/-- What the program gives. -/
def Result (α : Type) : Role → Type
  | client => α
  | elaborate .. => Except Failure MemberTable
  | resume .. => Except Failure Unit

/-- The chain that the front end was given for the program. -/
def chain : Role → Chain
  | client | resume .. => []
  | elaborate call p i => Engine.frameOf call.request p i :: call.chain

end Role

/-- How far the engine has come with a call. -/
inductive Stage
  /-- The arguments are to be resolved. -/
  | resolve (call : Call)
  /-- An overload is to be chosen. -/
  | plan (call : Call) (resolved : List Arg)
  /-- The instance is made. The scope of its parameters is to be opened. -/
  | openScope (call : Call) (p : Plan) (i : InstanceId)
  /-- The front end is asked for the members. -/
  | elaborate (call : Call) (p : Plan) (i : InstanceId)
  /-- Instances are to be released. -/
  | release (call : Call) (o : Outcome) (pending : List InstanceId)
  /-- The front end is asked to go on with `w`. -/
  | resume (call : Call) (o : Outcome) (w : InstanceId) (rest : List InstanceId)

/-- A program that waits for an answer. -/
structure Waiting (σ α : Type) where
  role : Role
  next : Except TemplateError InstanceId → Program σ (role.Result α)

/-- What goes on at a moment. -/
inductive Control (σ α : Type)
  | program (role : Role) (p : Program σ (role.Result α))
  | stage (s : Stage)
  /-- A call was answered that no program waits for. No run gets there. -/
  | unasked

structure Machine (σ α : Type) where
  run : Run σ
  control : Control σ α
  /-- Innermost first. -/
  waiting : List (Waiting σ α) := []

namespace Machine

variable {σ α : Type}

/-- A client is about to run. -/
def start (p : Program σ α) (r : Run σ) : Machine σ α := ⟨r, .program .client p, []⟩

/-- The client is done. -/
def finish (a : α) (r : Run σ) : Machine σ α := ⟨r, .program .client (.done a), []⟩

abbrev engine (m : Machine σ α) : Engine := m.run.engine

/-- Nothing but the client goes on. -/
def AtTop (m : Machine σ α) : Prop :=
  m.waiting = [] ∧ ∃ p : Program σ α, m.control = .program .client p

end Machine

namespace Service

variable {σ α : Type}

/-- Closes the gag of a call. -/
def closeGag (e : Engine) : Option GagMark → Engine
  | some mark => (Command.run e (.popGag mark)).2
  | none => e

/-- Gives the answer to a call to the program that waits for it. -/
def giveAnswer (r : Run σ) (call : Call) (a : Except TemplateError InstanceId) :
    List (Waiting σ α) → Machine σ α
  | [] => ⟨r, .unasked, []⟩
  | w :: ws => ⟨{ r with engine := closeGag r.engine call.mark }, .program w.role (w.next a), ws⟩

/-- Halts the program that waits for a call. -/
def haltAsker (r : Run σ) (h : Halt) : List (Waiting σ α) → Machine σ α
  | [] => ⟨r, .unasked, []⟩
  | w :: ws => ⟨r, .program w.role (.halt h), ws⟩

/-- A request is made. -/
def openCall (r : Run σ) (c : Chain) (q : Request) (ws : List (Waiting σ α)) : Machine σ α :=
  if q.gagged then
    let (mark, e) := Command.run r.engine .pushGag
    ⟨{ r with engine := e.countRequest }, .stage (.resolve ⟨c, q, some mark⟩), ws⟩
  else ⟨{ r with engine := r.engine.countRequest }, .stage (.resolve ⟨c, q, none⟩), ws⟩

/-- Reports an error that no instance was made for, and answers with it. -/
def refuse (svc : Service σ) (r : Run σ) (call : Call) (err : TemplateError)
    (ws : List (Waiting σ α)) : Machine σ α :=
  let (a, e) := r.engine.reject (svc.symbolName r.service) err call.chain
  giveAnswer { r with engine := e } call a ws

/-- The end of a program that the front end ran for an instance of a call. -/
def programEnded (svc : Service σ) (r : Run σ) (ws : List (Waiting σ α)) :
    (role : Role) → role.Result α → Machine σ α
  | .client, a => ⟨r, .program .client (.done a), ws⟩
  | .elaborate call _ i, .ok members =>
    let s := (svc.splice call.request members r.service).2
    let e := r.engine.complete i members
    let (waiting, e) := if e.isComplete i then e.takeDeferred i else ([], e)
    ⟨⟨e, s⟩, .stage (.release call ⟨i, .ok i⟩ waiting.reverse), ws⟩
  | .elaborate call _ i, .error f =>
    let (err, e) :=
      r.engine.fail (svc.symbolName r.service) i f.message call.request.span call.chain
    let (waiting, e) := e.takeDeferred i
    ⟨{ r with engine := e }, .stage (.release call ⟨i, .error err⟩ waiting.reverse), ws⟩
  | .resume call o w rest, result =>
    let e := r.engine.settle (svc.symbolName r.service) w result
    let (waiting, e) := e.takeDeferred w
    ⟨{ r with engine := e }, .stage (.release call o (waiting.reverse ++ rest)), ws⟩

/-- A step of a program. -/
def stepProgram (svc : Service σ) (r : Run σ) (ws : List (Waiting σ α)) (role : Role) :
    Program σ (role.Result α) → Machine σ α
  | .done b => svc.programEnded r ws role b
  | .halt h => ⟨r, .program role (.halt h), ws⟩
  | .read k => ⟨r, .program role (k r.engine r.service), ws⟩
  | .service f k =>
    let (b, s) := f r.service
    ⟨{ r with service := s }, .program role (k b), ws⟩
  | .command c k =>
    match c.danglingIn r.engine with
    | some h => ⟨r, .program role (.halt h), ws⟩
    | none =>
      let (reply, e) := c.run r.engine
      ⟨{ r with engine := e }, .program role (k reply), ws⟩
  | .request c q k => openCall r c q (⟨role, k⟩ :: ws)

/-- A planned call is answered, or its instance is made. -/
def carryOutStep (svc : Service σ) (r : Run σ) (ws : List (Waiting σ α)) (call : Call)
    (p : Plan) : Machine σ α :=
  match r.engine.answer? (svc.symbolName r.service) call.request call.chain p with
  | some (a, e) => giveAnswer { r with engine := e } call a ws
  | none =>
    let (i, e) := r.engine.create call.request call.chain p
    ⟨{ r with engine := e }, .stage (.openScope call p i), ws⟩

/-- A step of the engine. -/
def stepStage (svc : Service σ) (r : Run σ) (ws : List (Waiting σ α)) : Stage → Machine σ α
  | .resolve call =>
    let (result, s) := svc.resolveRequest call.request r.service
    match result with
    | .error err => svc.refuse { r with service := s } call err ws
    | .ok resolved =>
      let d := call.request.decl.index
      if r.engine.decls.size ≤ d then
        haltAsker { r with service := s } (.dangling r.engine.decls.size d) ws
      else ⟨{ r with service := s }, .stage (.plan call resolved), ws⟩
  | .plan call resolved =>
    let (result, s) := r.engine.plan svc.toSemantics call.request resolved r.service
    match result with
    | .error err => svc.refuse { r with service := s } call err ws
    | .ok p => svc.carryOutStep { r with service := s } ws call p
  | .openScope call p i =>
    let (scope, s) :=
      svc.paramScope (r.engine.decl p.decl) (.ofArgs p.deduction.args) r.service
    ⟨⟨r.engine.modifyInst i fun inst => { inst with paramScope := some scope }, s⟩,
      .stage (.elaborate call p i), ws⟩
  | .elaborate call p i =>
    ⟨r, .program (.elaborate call p i)
      (svc.elaborate (Engine.frameOf call.request p i :: call.chain) i), ws⟩
  | .release call o [] => giveAnswer r call o.answer ws
  | .release call o (w :: rest) =>
    let (goesOn, e) := r.engine.release w
    ⟨{ r with engine := e },
      .stage (if goesOn then .resume call o w rest else .release call o rest), ws⟩
  | .resume call o w rest => ⟨r, .program (.resume call o w rest) (svc.resume w), ws⟩

/-- A step of a run. A client that is done and a program that has halted stay as they are. -/
def step (svc : Service σ) (m : Machine σ α) : Machine σ α :=
  match m.control with
  | .program role p => svc.stepProgram m.run m.waiting role p
  | .stage s => svc.stepStage m.run m.waiting s
  | .unasked => m

/-- The machine after `n` steps. -/
def after (svc : Service σ) (n : Nat) (m : Machine σ α) : Machine σ α := svc.step^[n] m

end Service
end Templates
