import Templates.Proofs.Machine

/-!
# The steps of a machine as a relation

`Service.Steps` lists what a step can make of a machine, one rule for each thing that goes on and each
outcome, with what is known in that case. Facts about steps are shown by cases on it
(`Service.step_steps`).
-/

namespace Templates

/-! ## Calls that begin -/

/-- The call that a request begins. -/
def Call.opened (e : Engine) (c : Chain) (q : Request) : Call :=
  ⟨c, q, if q.gagged then some ⟨e.queue.gaggedCount⟩ else none⟩

/-- The engine when a call begins. -/
def Engine.opened (e : Engine) (q : Request) : Engine :=
  if q.gagged then (Command.run e .pushGag).2.countRequest else e.countRequest

namespace Engine

theorem opened_cases (e : Engine) (q : Request) :
    q.gagged = true ∧ e.opened q = (Command.run e .pushGag).2.countRequest ∨
      q.gagged = false ∧ e.opened q = e.countRequest := by
  unfold opened
  cases q.gagged with
  | true => exact .inl ⟨rfl, rfl⟩
  | false => exact .inr ⟨rfl, rfl⟩

theorem opened_frame (e : Engine) (q : Request) : ∃ queue,
    e.opened q = { e.countRequest with queue := queue } := by
  obtain ⟨-, h⟩ | ⟨-, h⟩ := e.opened_cases q <;> rw [h] <;> exact ⟨_, rfl⟩

@[simp] theorem decls_opened (e : Engine) (q : Request) : (e.opened q).decls = e.decls := by
  obtain ⟨_, h⟩ := e.opened_frame q
  rw [h]
  rfl

@[simp] theorem insts_opened (e : Engine) (q : Request) : (e.opened q).insts = e.insts := by
  obtain ⟨_, h⟩ := e.opened_frame q
  rw [h]
  rfl

@[simp] theorem roots_opened (e : Engine) (q : Request) : (e.opened q).roots = e.roots := by
  obtain ⟨_, h⟩ := e.opened_frame q
  rw [h]
  rfl

end Engine

namespace Service

variable {σ α : Type}

theorem openCall_eq (r : Run σ) (c : Chain) (q : Request) (ws : List (Waiting σ α)) :
    openCall r c q ws =
      ⟨⟨r.engine.opened q, r.service⟩, .stage (.resolve (.opened r.engine c q)), ws⟩ := by
  unfold openCall Engine.opened Call.opened
  cases q.gagged <;> rfl

/-! ## Single steps -/

section

variable {svc : Service σ} {r : Run σ} {ws : List (Waiting σ α)} {call : Call}

theorem step_resolve : svc.step (⟨r, .stage (.resolve call), ws⟩ : Machine σ α) =
    match svc.resolveRequest call.request r.service with
    | (.error err, s) => svc.refuse ⟨r.engine, s⟩ call err ws
    | (.ok resolved, s) =>
      if r.engine.decls.size ≤ call.request.decl.index then
        haltAsker ⟨r.engine, s⟩ (.dangling r.engine.decls.size call.request.decl.index) ws
      else ⟨⟨r.engine, s⟩, .stage (.plan call resolved), ws⟩ := by
  change svc.stepStage r ws (.resolve call) = _
  unfold stepStage
  dsimp only
  rcases svc.resolveRequest call.request r.service with ⟨err | resolved, s⟩ <;> rfl

theorem step_plan {resolved : List Arg} :
    svc.step (⟨r, .stage (.plan call resolved), ws⟩ : Machine σ α) =
      match r.engine.plan svc.toSemantics call.request resolved r.service with
      | (.error err, s) => svc.refuse ⟨r.engine, s⟩ call err ws
      | (.ok p, s) => svc.carryOutStep ⟨r.engine, s⟩ ws call p := by
  change svc.stepStage r ws (.plan call resolved) = _
  unfold stepStage
  dsimp only
  rcases r.engine.plan svc.toSemantics call.request resolved r.service with ⟨err | p, s⟩ <;> rfl

theorem carryOutStep_of_some {e e' : Engine} {s : σ} {p : Plan}
    {a : Except TemplateError InstanceId}
    (h : e.answer? (svc.symbolName s) call.request call.chain p = some (a, e')) :
    svc.carryOutStep ⟨e, s⟩ ws call p = giveAnswer ⟨e', s⟩ call a ws := by
  unfold carryOutStep
  rw [h]

theorem carryOutStep_of_none {e : Engine} {s : σ} {p : Plan}
    (h : e.answer? (svc.symbolName s) call.request call.chain p = none) :
    svc.carryOutStep ⟨e, s⟩ ws call p = ⟨⟨(e.create call.request call.chain p).2, s⟩,
      .stage (.openScope call p ⟨e.insts.size⟩), ws⟩ := by
  unfold carryOutStep
  rw [h]
  rfl

theorem step_command {role : Role} {c : Command} {k : c.Reply → Program σ (role.Result α)} :
    svc.step (⟨r, .program role (.command c k), ws⟩ : Machine σ α) =
      match c.danglingIn r.engine with
      | some h => ⟨r, .program role (.halt h), ws⟩
      | none => ⟨⟨(c.run r.engine).2, r.service⟩, .program role (k (c.run r.engine).1), ws⟩ := rfl

end

/-! ## The relation -/

/-- The machine that a step makes of what goes on, while the programs `ws` wait. -/
inductive Steps (svc : Service σ) (r : Run σ) (ws : List (Waiting σ α)) :
    Control σ α → Machine σ α → Prop
  /-- The arguments do not resolve. -/
  | unresolved {call err s} : svc.resolveRequest call.request r.service = (.error err, s) →
    Steps svc r ws (.stage (.resolve call))
      (giveAnswer ⟨(r.engine.reject (svc.symbolName s) err call.chain).2, s⟩ call (.error err) ws)
  /-- The request names no declaration. -/
  | undeclared {call s} : Steps svc r ws (.stage (.resolve call))
      (haltAsker ⟨r.engine, s⟩ (.dangling r.engine.decls.size call.request.decl.index) ws)
  | resolve {call resolved s} : call.request.decl.index < r.engine.decls.size →
    Steps svc r ws (.stage (.resolve call)) ⟨⟨r.engine, s⟩, .stage (.plan call resolved), ws⟩
  /-- No overload is chosen. -/
  | refuse {call resolved err s} :
    r.engine.plan svc.toSemantics call.request resolved r.service = (.error err, s) →
    Steps svc r ws (.stage (.plan call resolved))
      (giveAnswer ⟨(r.engine.reject (svc.symbolName s) err call.chain).2, s⟩ call (.error err) ws)
  /-- No new instance is needed. -/
  | answer {call resolved p s a e} :
    r.engine.plan svc.toSemantics call.request resolved r.service = (.ok p, s) →
    r.engine.answer? (svc.symbolName s) call.request call.chain p = some (a, e) →
    Steps svc r ws (.stage (.plan call resolved)) (giveAnswer ⟨e, s⟩ call a ws)
  | create {call resolved p s} :
    r.engine.plan svc.toSemantics call.request resolved r.service = (.ok p, s) →
    r.engine.answer? (svc.symbolName s) call.request call.chain p = none →
    Steps svc r ws (.stage (.plan call resolved))
      ⟨⟨(r.engine.create call.request call.chain p).2, s⟩,
        .stage (.openScope call p (r.engine.create call.request call.chain p).1), ws⟩
  | openScope {call p i scope s} : Steps svc r ws (.stage (.openScope call p i))
      ⟨⟨r.engine.modifyInst i fun inst => { inst with paramScope := some scope }, s⟩,
        .stage (.elaborate call p i), ws⟩
  | elaborate {call p i} : Steps svc r ws (.stage (.elaborate call p i))
      ⟨r, .program (.elaborate call p i)
        (svc.elaborate (Engine.frameOf call.request p i :: call.chain) i), ws⟩
  /-- Every instance that waited is released. -/
  | finish {call o} : Steps svc r ws (.stage (.release call o [])) (giveAnswer r call o.answer ws)
  /-- An instance is released and does not go on. -/
  | release {call o w rest} : (r.engine.release w).1 = false →
    Steps svc r ws (.stage (.release call o (w :: rest)))
      ⟨⟨(r.engine.release w).2, r.service⟩, .stage (.release call o rest), ws⟩
  | wake {call o w rest} : (r.engine.release w).1 = true →
    Steps svc r ws (.stage (.release call o (w :: rest)))
      ⟨⟨(r.engine.release w).2, r.service⟩, .stage (.resume call o w rest), ws⟩
  | resume {call o w rest} : Steps svc r ws (.stage (.resume call o w rest))
      ⟨r, .program (.resume call o w rest) (svc.resume w), ws⟩
  | done {a} : Steps svc r ws (.program .client (.done a)) ⟨r, .program .client (.done a), ws⟩
  /-- An instance has its members and waits. -/
  | suspend {call p i members s} : (r.engine.complete i members).isComplete i = false →
    Steps svc r ws (.program (.elaborate call p i) (.done (.ok members)))
      ⟨⟨r.engine.complete i members, s⟩, .stage (.release call ⟨i, .ok i⟩ []), ws⟩
  /-- An instance has its members and waits for nothing. -/
  | complete {call p i members s} : (r.engine.complete i members).isComplete i = true →
    Steps svc r ws (.program (.elaborate call p i) (.done (.ok members)))
      ⟨⟨((r.engine.complete i members).takeDeferred i).2, s⟩, .stage (.release call ⟨i, .ok i⟩
        ((r.engine.complete i members).takeDeferred i).1.reverse), ws⟩
  | fail {call p i f names err e} :
    r.engine.fail names i f.message call.request.span call.chain = (err, e) →
    Steps svc r ws (.program (.elaborate call p i) (.done (.error f)))
      ⟨⟨(e.takeDeferred i).2, r.service⟩,
        .stage (.release call ⟨i, .error err⟩ (e.takeDeferred i).1.reverse), ws⟩
  | settle {call o w rest result names e} : r.engine.settle names w result = e →
    Steps svc r ws (.program (.resume call o w rest) (.done result))
      ⟨⟨(e.takeDeferred w).2, r.service⟩,
        .stage (.release call o ((e.takeDeferred w).1.reverse ++ rest)), ws⟩
  | halt {role h} : Steps svc r ws (.program role (.halt h)) ⟨r, .program role (.halt h), ws⟩
  | read {role k} : Steps svc r ws (.program role (.read k))
      ⟨r, .program role (k r.engine r.service), ws⟩
  | service {role} {β : Type} {f : StateM σ β} {k s b} :
    Steps svc r ws (.program role (.service f k)) ⟨⟨r.engine, s⟩, .program role (k b), ws⟩
  /-- A command names what is not there. -/
  | dangling {role c k h} : Steps svc r ws (.program role (.command c k))
      ⟨r, .program role (.halt h), ws⟩
  | command {role c k} : c.danglingIn r.engine = none →
    Steps svc r ws (.program role (.command c k))
      ⟨⟨(c.run r.engine).2, r.service⟩, .program role (k (c.run r.engine).1), ws⟩
  | request {role c q k} : Steps svc r ws (.program role (.request c q k))
      (openCall r c q (⟨role, k⟩ :: ws))
  | unasked : Steps svc r ws .unasked ⟨r, .unasked, ws⟩

variable {svc : Service σ} {r : Run σ} {ws : List (Waiting σ α)}

theorem stepStage_steps (s : Stage) : Steps svc r ws (.stage s) (svc.stepStage r ws s) := by
  cases s with
  | resolve call =>
    change Steps svc r ws _ (svc.step ⟨r, .stage (.resolve call), ws⟩)
    rw [step_resolve]
    rcases h : svc.resolveRequest call.request r.service with ⟨err | resolved, s⟩
    · exact .unresolved h
    · dsimp only
      split
      · exact .undeclared
      · next hd => exact .resolve (Nat.lt_of_not_le hd)
  | plan call resolved =>
    change Steps svc r ws _ (svc.step ⟨r, .stage (.plan call resolved), ws⟩)
    rw [step_plan]
    rcases h : r.engine.plan svc.toSemantics call.request resolved r.service with ⟨err | p, s⟩
    · exact .refuse h
    · dsimp only
      rcases ha : r.engine.answer? (svc.symbolName s) call.request call.chain p with _ | ⟨a, e⟩
      · rw [carryOutStep_of_none ha]
        exact .create h ha
      · rw [carryOutStep_of_some ha]
        exact .answer h ha
  | openScope call p i => exact .openScope
  | elaborate call p i => exact .elaborate
  | release call o pending =>
    cases pending with
    | nil => exact .finish
    | cons w rest =>
      unfold stepStage
      dsimp only
      cases h : (r.engine.release w).1 with
      | false => exact .release h
      | true => exact .wake h
  | resume call o w rest => exact .resume

theorem programEnded_steps (role : Role) (b : role.Result α) :
    Steps svc r ws (.program role (.done b)) (svc.programEnded r ws role b) := by
  cases role with
  | client => exact .done
  | elaborate call p i =>
    cases b with
    | error f => exact .fail rfl
    | ok members =>
      unfold programEnded
      dsimp only
      cases h : (r.engine.complete i members).isComplete i with
      | false => exact .suspend h
      | true => exact .complete h
  | resume call o w rest => exact .settle rfl

theorem stepProgram_steps {role : Role} (p : Program σ (role.Result α)) :
    Steps svc r ws (.program role p) (svc.stepProgram r ws role p) := by
  cases p with
  | done b => exact programEnded_steps role b
  | halt => exact .halt
  | read => exact .read
  | service => exact .service
  | command c k =>
    unfold stepProgram
    dsimp only
    cases h : c.danglingIn r.engine with
    | some => exact .dangling
    | none => exact .command h
  | request => exact .request

theorem step_steps (m : Machine σ α) : Steps svc m.run m.waiting m.control (svc.step m) := by
  obtain ⟨r, control, ws⟩ := m
  cases control with
  | program role p => exact stepProgram_steps p
  | stage s => exact stepStage_steps s
  | unasked => exact .unasked

end Service

end Templates
