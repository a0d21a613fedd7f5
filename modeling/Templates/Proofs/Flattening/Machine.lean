import Templates.Proofs.Flattening.Engine
import Templates.Proofs.Repeating.Answers

/-!
# Runs that differ in how arguments were written

Machines that are the same but for the sequences in what is written make the same steps
(`Service.flatPlanned_after`). Two things can tell them apart. A program may look at the written
arguments of an instance, so the programs have to be blind for them (`Program.Blind`). And a request
that is refused because its chain is too deep is shown as it was written, so the requests that have no
plan yet have to be the same in both machines (`Machine.flatPlanned`).
-/

namespace Templates

variable {σ α : Type}

/-! ## Front ends that do not see sequences -/

/-- The program does not depend on the sequences among the written arguments of instances. -/
def Program.Blind : Program σ α → Prop
  | .done _ | .halt _ => True
  | .read k => ∀ e s, k e.flat s = k e s ∧ (k e s).Blind
  | .service _ k => ∀ b, (k b).Blind
  | .command _ k => ∀ r, (k r).Blind
  | .request _ _ k => ∀ a, (k a).Blind

/-- What the front end does for an instance does not depend on them. -/
structure Service.Blind (svc : Service σ) : Prop where
  elaborate (c : Chain) (i : InstanceId) : (svc.elaborate c i).Blind
  resume (i : InstanceId) : (svc.resume i).Blind

/-- Neither does what goes on and what waits. -/
structure Machine.Blind (m : Machine σ α) : Prop where
  program {role : Role} {p : Program σ (role.Result α)} : m.control = .program role p → p.Blind
  waiting : ∀ w ∈ m.waiting, ∀ a, (w.next a).Blind

namespace Service

variable {svc : Service σ} {r : Run σ} {ws : List (Waiting σ α)} {c : Control σ α} {call : Call}
  {m : Machine σ α} {q : Request} {a : Except TemplateError InstanceId} {n : Nat}

section

variable (hws : ∀ w ∈ ws, ∀ a, (w.next a).Blind)

include hws

theorem stage_blind {st : Stage} : (⟨r, .stage st, ws⟩ : Machine σ α).Blind := ⟨nofun, hws⟩

theorem program_blind {role : Role} {p : Program σ (role.Result α)} (hp : p.Blind) :
    (⟨r, .program role p, ws⟩ : Machine σ α).Blind :=
  ⟨fun h => by cases h; exact hp, hws⟩

theorem giveAnswer_blind : (giveAnswer r call a ws).Blind := by
  cases ws with
  | nil => exact ⟨nofun, hws⟩
  | cons w ws =>
    obtain ⟨hw, hws⟩ := List.forall_mem_cons.mp hws
    exact program_blind hws (hw a)

theorem haltAsker_blind {h : Halt} : (haltAsker r h ws).Blind := by
  cases ws with
  | nil => exact ⟨nofun, hws⟩
  | cons w ws => exact program_blind (List.forall_mem_cons.mp hws).2 trivial

theorem openCall_blind {chain : Chain} : (openCall r chain q ws).Blind := by
  rw [openCall_eq]
  exact stage_blind hws

end

theorem Steps.blind (hsvc : svc.Blind) (H : (⟨r, c, ws⟩ : Machine σ α).Blind)
    (h : svc.Steps r ws c m) : m.Blind := by
  have hws := H.waiting
  cases h with
  | unresolved | refuse | answer | finish => exact giveAnswer_blind hws
  | undeclared => exact haltAsker_blind hws
  | resolve | create | openScope | release | wake | suspend | complete | fail | settle =>
    exact stage_blind hws
  | elaborate => exact program_blind hws (hsvc.elaborate _ _)
  | resume => exact program_blind hws (hsvc.resume _)
  | done | dangling => exact program_blind hws trivial
  | halt | unasked => exact H
  | read => exact program_blind hws (H.program rfl _ _).2
  | service | command => exact program_blind hws (H.program rfl _)
  | @request role c q k =>
    have hk : ∀ a, (k a).Blind := H.program rfl
    exact openCall_blind (List.forall_mem_cons.mpr ⟨hk, hws⟩)

theorem blind_after (hsvc : svc.Blind) (H : m.Blind) (n : Nat) : (svc.after n m).Blind := by
  induction n with
  | zero => exact H
  | succ n ih =>
    rw [after_succ]
    exact (step_steps _).blind hsvc ih

end Service

/-! ## Machines -/

/-- The call with the sequences of its request spliced. -/
def Call.flat (call : Call) : Call := { call with request := call.request.flat }

@[simp] theorem Call.flat_flat (call : Call) : call.flat.flat = call.flat := by
  simp [flat]

/-- The stage with the sequences of its call spliced. What becomes of a call without a plan is told by
`f`. -/
def Stage.flatWith (f : Call → Call) : Stage → Stage
  | .resolve call => .resolve (f call)
  | .plan call resolved => .plan (f call) resolved
  | .openScope call p i => .openScope call.flat p i
  | .elaborate call p i => .elaborate call.flat p i
  | .release call o pending => .release call.flat o pending
  | .resume call o w rest => .resume call.flat o w rest

namespace Role

/-- The program runs for a call with its sequences spliced. -/
def flat : Role → Role
  | .client => .client
  | .elaborate call p i => .elaborate call.flat p i
  | .resume call o w rest => .resume call.flat o w rest

/-- The program is the same. -/
def keep : (role : Role) → Program σ (role.Result α) → Program σ (role.flat.Result α)
  | .client, p | .elaborate .., p | .resume .., p => p

variable (role : Role)

theorem keep_read (k : Engine → σ → Program σ (role.Result α)) :
    role.keep (.read k) = .read fun e s => role.keep (k e s) := by
  cases role <;> rfl

theorem keep_service {β : Type} (f : StateM σ β) (k : β → Program σ (role.Result α)) :
    role.keep (.service f k) = .service f fun b => role.keep (k b) := by
  cases role <;> rfl

theorem keep_command (c : Command) (k : c.Reply → Program σ (role.Result α)) :
    role.keep (.command c k) = .command c fun reply => role.keep (k reply) := by
  cases role <;> rfl

theorem keep_request (c : Chain) (q : Request)
    (k : Except TemplateError InstanceId → Program σ (role.Result α)) :
    role.keep (.request c q k) = .request c q fun a => role.keep (k a) := by
  cases role <;> rfl

end Role

/-- The program waits for a call with its sequences spliced. -/
def Waiting.flat (w : Waiting σ α) : Waiting σ α :=
  ⟨w.role.flat, fun a => w.role.keep (w.next a)⟩

/-- What goes on, for calls with their sequences spliced. -/
def Control.flatWith (f : Call → Call) : Control σ α → Control σ α
  | .program role p => .program role.flat (role.keep p)
  | .stage st => .stage (st.flatWith f)
  | .unasked => .unasked

def Run.flat (r : Run σ) : Run σ := ⟨r.engine.flat, r.service⟩

namespace Machine

/-- The machine with the sequences of calls and of written arguments spliced. What becomes of a call
without a plan is told by `f`. -/
def flatWith (f : Call → Call) (m : Machine σ α) : Machine σ α :=
  ⟨m.run.flat, m.control.flatWith f, m.waiting.map Waiting.flat⟩

/-- The machine with all sequences spliced. -/
def flat (m : Machine σ α) : Machine σ α := m.flatWith Call.flat

/-- The machine with all sequences spliced but those of a call that has no plan yet. -/
def flatPlanned (m : Machine σ α) : Machine σ α := m.flatWith id

end Machine

@[simp] theorem Run.flat_flat (r : Run σ) : r.flat.flat = r.flat := by
  simp [flat]

theorem Control.program_keep_keep (role : Role) (p : Program σ (role.Result α)) :
    (.program role.flat.flat (role.flat.keep (role.keep p)) : Control σ α) =
      .program role.flat (role.keep p) := by
  cases role with
  | client => rfl
  | elaborate call plan i =>
    exact congrArg (fun call => (.program (.elaborate call plan i) p : Control σ α)) call.flat_flat
  | resume call o w rest =>
    exact congrArg (fun call => (.program (.resume call o w rest) p : Control σ α)) call.flat_flat

@[simp] theorem Waiting.flat_flat (w : Waiting σ α) : w.flat.flat = w.flat := by
  obtain ⟨role, next⟩ := w
  cases role with
  | client => rfl
  | elaborate call p i =>
    exact congrArg (fun call => (⟨.elaborate call p i, next⟩ : Waiting σ α)) call.flat_flat
  | resume call o w rest =>
    exact congrArg (fun call => (⟨.resume call o w rest, next⟩ : Waiting σ α)) call.flat_flat

@[simp] theorem Control.flatWith_flatWith (f : Call → Call) (c : Control σ α) :
    (c.flatWith id).flatWith f = c.flatWith f := by
  cases c with
  | program role p => exact program_keep_keep role p
  | stage st => cases st <;> simp [flatWith, Stage.flatWith]
  | unasked => rfl

theorem Waiting.map_flat_flat (ws : List (Waiting σ α)) :
    (ws.map flat).map flat = ws.map flat := by
  simp

theorem Machine.flatPlanned_flatWith (f : Call → Call) (m : Machine σ α) :
    m.flatPlanned.flatWith f = m.flatWith f := by
  simp [flatPlanned, flatWith]

@[simp] theorem Machine.flatPlanned_flatPlanned (m : Machine σ α) :
    m.flatPlanned.flatPlanned = m.flatPlanned := m.flatPlanned_flatWith id

namespace Service

variable {svc : Service σ} {r : Run σ} {ws : List (Waiting σ α)} {c : Control σ α} {call : Call}
  {m : Machine σ α} {q : Request} {a : Except TemplateError InstanceId} {n : Nat} {f : Call → Call}

theorem closeGag_flat (e : Engine) (mark : Option GagMark) :
    closeGag e.flat mark = (closeGag e mark).flat := by
  cases mark <;> rfl

theorem giveAnswer_flat : (giveAnswer r call a ws).flatWith f =
    giveAnswer r.flat call a (ws.map Waiting.flat) := by
  cases ws with
  | nil => rfl
  | cons w ws =>
    rw [List.map_cons, giveAnswer, giveAnswer]
    change _ = (⟨⟨closeGag r.engine.flat call.mark, r.service⟩, _, _⟩ : Machine σ α)
    rw [closeGag_flat]
    rfl

theorem halt_flat (role : Role) (h : Halt) :
    (⟨r, .program role (.halt h), ws⟩ : Machine σ α).flatWith f =
      ⟨r.flat, .program role.flat (.halt h), ws.map Waiting.flat⟩ := by
  cases role <;> rfl

theorem haltAsker_flat {h : Halt} : (haltAsker r h ws).flatWith f =
    haltAsker r.flat h (ws.map Waiting.flat) := by
  cases ws with
  | nil => rfl
  | cons w ws => exact halt_flat w.role h

theorem openCall_flat {chain : Chain} : (openCall r chain q ws).flatPlanned =
    openCall r.flat chain q (ws.map Waiting.flat) := by
  unfold openCall
  split <;> rfl

theorem step_done_flat (role : Role) (b : role.Result α) :
    svc.step (⟨r, .program role (.done b), ws⟩ : Machine σ α).flatPlanned =
      (svc.step ⟨r, .program role (.done b), ws⟩).flatPlanned := by
  cases role with
  | client => rfl
  | elaborate call p i =>
    cases b with
    | ok members =>
      change svc.programEnded r.flat (ws.map Waiting.flat) (.elaborate call.flat p i) (.ok members) =
        (svc.programEnded r ws (.elaborate call p i) (.ok members)).flatPlanned
      unfold programEnded
      dsimp only [Run.flat]
      rw [Engine.complete_flat, Engine.isComplete_flat, Engine.takeDeferred_flat]
      cases (r.engine.complete i members).isComplete i <;> rfl
    | error f =>
      change svc.programEnded r.flat (ws.map Waiting.flat) (.elaborate call.flat p i) (.error f) =
        (svc.programEnded r ws (.elaborate call p i) (.error f)).flatPlanned
      unfold programEnded
      dsimp only [Run.flat]
      rw [Engine.fail_flat]
      dsimp only
      rw [Engine.takeDeferred_flat]
      rfl
  | resume call o w rest =>
    change Except Failure Unit at b
    change svc.programEnded r.flat (ws.map Waiting.flat) (.resume call.flat o w rest) b =
      (svc.programEnded r ws (.resume call o w rest) b).flatPlanned
    unfold programEnded
    dsimp only [Run.flat]
    rw [Engine.settle_flat, Engine.takeDeferred_flat]
    rfl

/-- What is done with a program does not depend on how arguments were written. -/
theorem step_program_flat {role : Role} {p : Program σ (role.Result α)} (hp : p.Blind) :
    svc.step (⟨r, .program role p, ws⟩ : Machine σ α).flatPlanned =
      (svc.step ⟨r, .program role p, ws⟩).flatPlanned := by
  cases p with
  | done b => exact step_done_flat role b
  | halt h =>
    change _ = (⟨r, .program role (.halt h), ws⟩ : Machine σ α).flatWith id
    rw [Machine.flatPlanned, halt_flat]
    rfl
  | read k =>
    have hk : k r.engine.flat r.service = k r.engine r.service := (hp r.engine r.service).1
    change svc.step ⟨r.flat, .program role.flat (role.keep (.read k)), ws.map Waiting.flat⟩ =
      (⟨r, .program role (k r.engine r.service), ws⟩ : Machine σ α).flatPlanned
    rw [role.keep_read, ← hk]
    rfl
  | service f k =>
    change svc.step ⟨r.flat, .program role.flat (role.keep (.service f k)), _⟩ = _
    rw [role.keep_service]
    rfl
  | command c k =>
    change svc.step ⟨r.flat, .program role.flat (role.keep (.command c k)), ws.map Waiting.flat⟩ = _
    rw [role.keep_command, step_command, step_command]
    dsimp only [Run.flat]
    rw [c.danglingIn_flat, c.run_flat]
    cases c.danglingIn r.engine with
    | some h => exact (halt_flat role h).symm
    | none => rfl
  | request chain q k =>
    change svc.step ⟨r.flat, .program role.flat (role.keep (.request chain q k)), _⟩ =
      (openCall r chain q (⟨role, k⟩ :: ws)).flatPlanned
    rw [openCall_flat, role.keep_request]
    rfl

/-! ## Stages -/

theorem refuse_flat {err : TemplateError} : (svc.refuse r call err ws).flatWith f =
    svc.refuse r.flat call err (ws.map Waiting.flat) := by
  unfold refuse
  dsimp only
  rw [giveAnswer_flat]
  dsimp only [Run.flat, Engine.reject]
  rw [Engine.report_flat]

theorem carryOutStep_flat {p : Plan} :
    (svc.carryOutStep r.flat (ws.map Waiting.flat) call p).flatPlanned =
      (svc.carryOutStep r ws call p).flatPlanned := by
  unfold carryOutStep
  dsimp only [Run.flat]
  rw [Engine.answer?_flat]
  cases r.engine.answer? (svc.symbolName r.service) call.request call.chain p with
  | some answer =>
    obtain ⟨a, e⟩ := answer
    change (giveAnswer (Run.flat ⟨e, r.service⟩) call a (ws.map Waiting.flat)).flatPlanned =
      (giveAnswer ⟨e, r.service⟩ call a ws).flatPlanned
    rw [← giveAnswer_flat (f := id)]
    exact Machine.flatPlanned_flatPlanned _
  | none =>
    dsimp only [Option.map_none]
    unfold Machine.flatPlanned Machine.flatWith Run.flat
    dsimp only
    rw [Engine.flat_create_flat, Engine.create_flat_fst, Waiting.map_flat_flat]

theorem step_plan_flat {resolved : List Arg} :
    (svc.step (⟨r, .stage (.plan call resolved), ws⟩ : Machine σ α).flatPlanned).flatPlanned =
      (svc.step ⟨r, .stage (.plan call resolved), ws⟩).flatPlanned := by
  change (svc.step ⟨r.flat, .stage (.plan call resolved), ws.map Waiting.flat⟩).flatPlanned = _
  rw [step_plan, step_plan]
  dsimp only [Run.flat]
  rw [Engine.plan_flat]
  rcases r.engine.plan svc.toSemantics call.request resolved r.service with ⟨err | p, s⟩
  · change (svc.refuse (Run.flat ⟨r.engine, s⟩) call err (ws.map Waiting.flat)).flatPlanned =
      (svc.refuse ⟨r.engine, s⟩ call err ws).flatPlanned
    rw [← refuse_flat (f := id)]
    exact Machine.flatPlanned_flatPlanned _
  · exact carryOutStep_flat (r := ⟨r.engine, s⟩)

/-- What is done with a call before and after it is planned does not depend on what is written. -/
theorem step_stage_flat {st : Stage} (hst : ∀ call resolved, st ≠ .plan call resolved) :
    svc.step (⟨r, .stage st, ws⟩ : Machine σ α).flatPlanned =
      (svc.step ⟨r, .stage st, ws⟩).flatPlanned := by
  cases st with
  | resolve call =>
    change svc.step ⟨r.flat, .stage (.resolve call), ws.map Waiting.flat⟩ = _
    rw [step_resolve, step_resolve]
    dsimp only [Run.flat]
    rcases svc.resolveRequest call.request r.service with ⟨err | resolved, s⟩
    · exact (refuse_flat (r := ⟨r.engine, s⟩)).symm
    · dsimp only
      by_cases hd : r.engine.decls.size ≤ call.request.decl.index
      · have hflat : r.engine.flat.decls.size ≤ call.request.decl.index := hd
        refine (if_pos hflat).trans ?_
        rw [if_pos hd]
        exact (haltAsker_flat (r := ⟨r.engine, s⟩)).symm
      · have hflat : ¬r.engine.flat.decls.size ≤ call.request.decl.index := hd
        refine (if_neg hflat).trans ?_
        rw [if_neg hd]
        rfl
  | plan call resolved => exact absurd rfl (hst call resolved)
  | openScope call p i =>
    have hmodify (scope : ScopeId) :
        r.engine.flat.modifyInst i (fun x => { x with paramScope := some scope }) =
          (r.engine.modifyInst i fun x => { x with paramScope := some scope }).flat :=
      r.engine.modifyInst_flat fun _ => rfl
    exact congrArg (fun e => (⟨⟨e, _⟩, .stage (.elaborate call.flat p i), _⟩ : Machine σ α))
      (hmodify _)
  | elaborate call p i => rfl
  | release call o pending =>
    cases pending with
    | nil => exact giveAnswer_flat.symm
    | cons w rest =>
      change svc.stepStage r.flat (ws.map Waiting.flat) (.release call.flat o (w :: rest)) =
        (svc.stepStage r ws (.release call o (w :: rest))).flatPlanned
      unfold stepStage
      dsimp only [Run.flat]
      rw [Engine.release_flat]
      dsimp only
      cases (r.engine.release w).1 <;> rfl
  | resume call o w rest => rfl

/-- The sequences that are written do not matter to what a step does. -/
theorem step_flat (H : m.Blind) : (svc.step m.flatPlanned).flatPlanned = (svc.step m).flatPlanned := by
  obtain ⟨r, c, ws⟩ := m
  cases c with
  | program role p =>
    rw [step_program_flat (H.program rfl)]
    exact Machine.flatPlanned_flatPlanned _
  | stage st =>
    by_cases hst : ∃ call resolved, st = .plan call resolved
    · obtain ⟨call, resolved, rfl⟩ := hst
      exact step_plan_flat
    · rw [step_stage_flat fun call resolved h => hst ⟨call, resolved, h⟩]
      exact Machine.flatPlanned_flatPlanned _
  | unasked => exact Machine.flatPlanned_flatPlanned _

/-- Machines that are the same but for what is written stay so. -/
theorem flatPlanned_after {m' : Machine σ α} (hsvc : svc.Blind) (hm : m.Blind) (hm' : m'.Blind)
    (h : m.flatPlanned = m'.flatPlanned) (n : Nat) :
    (svc.after n m).flatPlanned = (svc.after n m').flatPlanned := by
  induction n with
  | zero => exact h
  | succ n ih =>
    rw [after_succ, after_succ, ← step_flat (blind_after hsvc hm n), ih,
      step_flat (blind_after hsvc hm' n)]

end Service

end Templates
