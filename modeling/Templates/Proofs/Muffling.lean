import Templates.Proofs.Reporting

/-!
# Gagged requests

While a gagged request is answered the queue does nothing but count: whatever is asked for and fails
inside the call, no diagnostic gets into the queue, and the count of swallowed errors grows by what
the engine reports (`Service.muffled`). The front end must leave the queue to the engine
(`Service.SparesQueue`).

What the engine reports in a step can be read off what goes on (`Service.report?`). Outside every gag
it is what the queue is sent in that step (`Service.step_receives`).
-/

namespace Templates

variable {σ α : Type}

/-! ## What is reported -/

/-- The error says again that an instance failed. -/
def TemplateError.isRepeat : TemplateError → Bool
  | memberElaborationFailed _ _ none _ => true
  | _ => false

/-- An answer is reported if it is an error that was not reported before. -/
def TemplateError.reported? : Except TemplateError InstanceId → Option TemplateError
  | .ok _ => none
  | .error err => if err.isRepeat then none else some err

namespace Command

/-- The front end uses the queue itself. -/
def usesQueue : Command → Bool
  | addDiagnostic _ | pushGag | popGag _ | flush => true
  | declare _ | overload .. | addRoot _ | claim .. | recordImport .. => false

/-- The error with which the engine turns a command down. -/
def error? (e : Engine) : Command → Option TemplateError
  | declare d | overload _ d => match (e.declare d).1 with
    | .ok _ => none
    | .error err => some err
  | _ => none

end Command

namespace Service

/-- What is reported when a program ends. -/
def endReport? (svc : Service σ) (r : Run σ) :
    (role : Role) → role.Result α → Option TemplateError
  | .client, _ => none
  | .elaborate _ _ _, .ok _ => none
  | .elaborate call _ i, .error f => some
    (r.engine.fail (svc.symbolName r.service) i f.message call.request.span call.chain).1
  | .resume _ _ _ _, .ok _ => none
  | .resume _ _ w _, .error f => some
    (r.engine.fail (svc.symbolName r.service) w f.message
      (((r.engine.inst? w).map Instance.span).getD {}) []).1

/-- The error that the engine reports in the next step: a request is turned down, an instance fails,
or a declaration is turned down. -/
def report? (svc : Service σ) (m : Machine σ α) : Option TemplateError :=
  match m.control with
  | .stage (.resolve _) | .stage (.plan _ _) => (svc.answers m).bind TemplateError.reported?
  | .program role (.done b) => svc.endReport? m.run role b
  | .program _ (.command c _) =>
    if (c.danglingIn m.engine).isSome then none else c.error? m.engine
  | _ => none

/-- What the engine reports from the moment `k` up to the moment `n`. -/
def reports (svc : Service σ) (m₀ : Machine σ α) (k n : Nat) : List TemplateError :=
  (List.range' k (n - k)).filterMap fun j => svc.report? (svc.after j m₀)

end Service

/-- An error is sent to the queue, if there is one. Gags may be opened or closed. -/
inductive DiagnosticQueue.Receives (q : DiagnosticQueue) :
    Option TemplateError → DiagnosticQueue → Prop
  | nothing {d : Nat} : Receives q none { q with gagDepth := d }
  | error {err : TemplateError} {trace : List String} {d : Nat} :
    Receives q (some err) { (q.add (err.toDiagnostic trace)).2 with gagDepth := d }

/-- From `q` to `q'` gags swallowed `n` errors. Gags may be opened or closed. -/
def DiagnosticQueue.Swallows (q : DiagnosticQueue) (n : Nat) (q' : DiagnosticQueue) : Prop :=
  q' = { q with gaggedCount := q.gaggedCount + n, gagDepth := q'.gagDepth }

namespace DiagnosticQueue

variable {q q' q'' : DiagnosticQueue} {err : TemplateError} {err? : Option TemplateError}
  {n n' : Nat}

theorem Swallows.trans (h : q.Swallows n q') (h' : q'.Swallows n' q'') :
    q.Swallows (n + n') q'' := by
  unfold Swallows at *
  rw [h] at h'
  simpa only [Nat.add_assoc] using h'

namespace Receives

theorem of_eq (h : q' = q) : q.Receives none q' := by
  subst h
  exact .nothing

theorem of_add {trace : List String} (h : q' = (q.add (err.toDiagnostic trace)).2) :
    q.Receives (some err) q' := by
  subst h
  exact .error

theorem gagDepth (h : q.Receives err? q') (d : Nat) : q.Receives err? { q' with gagDepth := d } := by
  cases h with
  | nothing => exact .nothing
  | error => exact .error

/-- In a gag errors are counted and nothing else. -/
theorem swallows (h : q.Receives err? q') (hg : err?.isSome → q.isGagged = true) :
    q.Swallows err?.toList.length q' := by
  cases h with
  | nothing => rfl
  | error =>
    unfold add
    rw [if_pos (hg rfl)]
    rfl

end Receives
end DiagnosticQueue

namespace Engine

variable {e e' : Engine} {names : SymbolId → String} {q : Request} {c : Chain} {p : Plan}
  {a : Except TemplateError InstanceId}

theorem report_receives {err : TemplateError} (h : e'.queue = e.queue) :
    e.queue.Receives (some err) (e'.report names err c).queue :=
  .of_add (congrArg (fun q => (DiagnosticQueue.add q _).2) h)

theorem declare_receives (d : Decl) :
    e.queue.Receives (Command.error? e (.declare d)) (e.declare d).2.queue := by
  change e.queue.Receives
    (match (e.declare d).1 with | .ok _ => none | .error err => some err) _
  obtain ⟨_, -, h⟩ | ⟨_, -, h⟩ := e.declare_cases d <;> rw [h]
  · exact .of_add rfl
  · exact .of_eq rfl

/-- An instance that failed earlier is not reported again. -/
theorem answer?_receives (h : e.answer? names q c p = some (a, e')) :
    e.queue.Receives (TemplateError.reported? a) e'.queue := by
  cases finds_of_answer? h with
  | recursive | busy | tooDeep => exact .of_add rfl
  | reference | failed => exact .of_eq rfl
  | @defer f _ i =>
    obtain ⟨_, he⟩ := e.defer_frame i f.inst
    exact .of_eq (by rw [he])
  | @cached i =>
    obtain ⟨_, he⟩ := e.countHit.touch_frame i q
    exact .of_eq (by rw [he]; rfl)

theorem fail_receives (i : InstanceId) (reason : String) (span : Span) :
    e.queue.Receives (some (e.fail names i reason span c).1)
      (e.fail names i reason span c).2.queue := by
  rw [fail_eq]
  refine report_receives ?_
  obtain hf | hf := e.failed_cases i <;> rw [hf]
  · rfl
  · exact evict_queue ..

end Engine

/-! ## Steps -/

namespace TemplateError

theorem reported?_error {err : TemplateError} (h : err.code ≠ .elaborationFailed) :
    reported? (.error err) = some err := by
  cases err with
  | memberElaborationFailed => exact absurd rfl h
  | _ => rfl

end TemplateError

namespace Service

variable {svc : Service σ} {m m₀ : Machine σ α} {r : Run σ} {ws : List (Waiting σ α)} {e : Engine}
  {call : Call} {k n : Nat} {q : Request} {q' : DiagnosticQueue}
  {a : Except TemplateError InstanceId} {err? : Option TemplateError}

theorem giveAnswer_receives {s : σ} (h : q'.Receives err? e.queue) :
    q'.Receives err? (giveAnswer ⟨e, s⟩ call a ws).engine.queue := by
  cases ws with
  | nil => exact h
  | cons w ws =>
    change q'.Receives err? (closeGag e call.mark).queue
    cases call.mark with
    | none => exact h
    | some mark => exact h.gagDepth _

theorem refuse_receives {s : σ} {err : TemplateError} (h : err.code ≠ .elaborationFailed) :
    r.engine.queue.Receives (TemplateError.reported? (.error err))
      (svc.refuse ⟨r.engine, s⟩ call err ws).engine.queue := by
  rw [TemplateError.reported?_error h]
  exact giveAnswer_receives (Engine.report_receives rfl)

theorem stage_receives (st : Stage) :
    r.engine.queue.Receives (svc.report? (⟨r, .stage st, ws⟩ : Machine σ α))
      (svc.step ⟨r, .stage st, ws⟩).engine.queue := by
  cases st with
  | resolve call =>
    rw [step_resolve]
    unfold report? answers
    dsimp only
    rcases h : svc.resolveRequest call.request r.service with ⟨err | resolved, s⟩
    · have hc := Engine.resolveRequest_code h
      exact refuse_receives (by rw [hc]; decide)
    · dsimp only
      split
      · cases ws <;> exact .of_eq rfl
      · exact .of_eq rfl
  | plan call resolved =>
    rw [step_plan]
    unfold report? answers
    dsimp only
    rcases h : r.engine.plan svc.toSemantics call.request resolved r.service with ⟨err | p, s⟩
    · refine refuse_receives fun hc => ?_
      have := Engine.plan_code h
      simp [hc, ErrorCode.isSelection] at this
    · dsimp only
      rcases ha : r.engine.answer? (svc.symbolName s) call.request call.chain p with _ | ⟨a, e⟩
      · rw [carryOutStep_of_none ha]
        exact .of_eq rfl
      · rw [carryOutStep_of_some ha]
        exact giveAnswer_receives (Engine.answer?_receives ha)
  | openScope | elaborate | resume => exact .of_eq rfl
  | release call o pending =>
    cases pending with
    | nil => exact giveAnswer_receives (.of_eq rfl)
    | cons => exact .of_eq rfl

theorem programEnded_receives (role : Role) (b : role.Result α) :
    r.engine.queue.Receives (svc.endReport? r role b)
      (svc.programEnded r ws role b).engine.queue := by
  cases role with
  | client => exact .of_eq rfl
  | elaborate call p i =>
    cases b with
    | ok members =>
      refine .of_eq ?_
      unfold programEnded
      dsimp only
      split <;> rfl
    | error f => exact Engine.fail_receives ..
  | resume call o w rest =>
    cases b with
    | ok => exact .of_eq rfl
    | error f => exact Engine.fail_receives ..

theorem command_receives {c : Command} (hc : c.usesQueue = false) :
    e.queue.Receives (c.error? e) (c.run e).2.queue := by
  cases c with
  | declare d => exact Engine.declare_receives d
  | overload d d' =>
    have h : (Command.run e (.overload d d')).2.queue = _ := (Engine.overloadInsert_eq e d d').2.2
    rw [h]
    exact Engine.declare_receives d'
  | addRoot m => exact .of_eq (Engine.addRoot_eq m).2
  | claim i m => exact .of_eq (Engine.claimCodegen_queue i m)
  | recordImport => exact .of_eq rfl
  | addDiagnostic | pushGag | popGag | flush => cases hc

/-- What is reported in a step is sent to the queue, and nothing else. -/
theorem step_receives (h : ∀ role c k, m.control = .program role (.command c k) →
      c.usesQueue = false) :
    m.engine.queue.Receives (svc.report? m) (svc.step m).engine.queue := by
  obtain ⟨r, c, ws⟩ := m
  cases c with
  | stage st => exact stage_receives st
  | unasked => exact .of_eq rfl
  | program role p =>
    cases p with
    | done b => exact programEnded_receives role b
    | halt | read | service => exact .of_eq rfl
    | command c k =>
      rw [step_command]
      unfold report?
      dsimp only
      cases hd : c.danglingIn r.engine with
      | some => exact .of_eq rfl
      | none => exact command_receives (h role c k rfl)
    | request c q k =>
      change r.engine.queue.Receives none (openCall r c q _).engine.queue
      rw [openCall_eq]
      obtain ⟨-, h⟩ | ⟨-, h⟩ := r.engine.opened_cases q <;> rw [h]
      · exact .nothing
      · exact .of_eq rfl

theorem reports_self (svc : Service σ) (m₀ : Machine σ α) (k : Nat) : svc.reports m₀ k k = [] := by
  simp [reports]

theorem reports_succ (h : k ≤ n) :
    svc.reports m₀ k (n + 1) = svc.reports m₀ k n ++ (svc.report? (svc.after n m₀)).toList := by
  unfold reports
  rw [Nat.succ_sub h, List.range'_1_concat, List.filterMap_append, Nat.add_sub_cancel' h]
  cases h : svc.report? (svc.after n m₀) <;> simp [h]

end Service

/-! ## A front end that leaves the queue alone -/

/-- The program leaves the queue to the engine. -/
def Program.SparesQueue : Program σ α → Prop
  | .done _ | .halt _ => True
  | .read k => ∀ e s, (k e s).SparesQueue
  | .service _ k => ∀ b, (k b).SparesQueue
  | .command c k => c.usesQueue = false ∧ ∀ r, (k r).SparesQueue
  | .request _ _ k => ∀ a, (k a).SparesQueue

/-- The front end leaves the queue to the engine when it elaborates an instance and when it goes on
with one. -/
structure Service.SparesQueue (svc : Service σ) : Prop where
  elaborate (c : Chain) (i : InstanceId) : (svc.elaborate c i).SparesQueue
  resume (i : InstanceId) : (svc.resume i).SparesQueue

/-- What runs above the programs `ws` leaves the queue to the engine. -/
structure Machine.SparesQueue (ws : List (Waiting σ α)) (m : Machine σ α) : Prop where
  program {role : Role} {p : Program σ (role.Result α)} :
    m.control = .program role p → p.SparesQueue
  waiting : ∃ inner, m.waiting = inner ++ ws ∧ ∀ w ∈ inner, ∀ a, (w.next a).SparesQueue

theorem Command.gagsAfter_of_not_usesQueue {c : Command} (h : c.usesQueue = false) (k : Nat) :
    c.gagsAfter k = some k := by
  cases c with
  | addDiagnostic | pushGag | popGag | flush => cases h
  | _ => rfl

/-- Such a program opens no gag and closes none. -/
theorem Program.SparesQueue.brackets {p : Program σ α} (h : p.SparesQueue) : p.Brackets 0 := by
  induction p with
  | done => rfl
  | halt => trivial
  | read k ih => exact fun e s => ih e s (h e s)
  | service f k ih => exact fun b => ih b (h b)
  | command c k ih => exact ⟨0, c.gagsAfter_of_not_usesQueue h.1 0, fun r => ih r (h.2 r)⟩
  | request c q k ih => exact fun a => ih a (h a)

namespace Service

variable {svc : Service σ} {m m₀ : Machine σ α} {r : Run σ} {w : Waiting σ α}
  {ws ws' inner : List (Waiting σ α)} {c : Control σ α} {call : Call} {k n : Nat} {q : Request}
  {a : Except TemplateError InstanceId}

theorem SparesQueue.brackets (h : svc.SparesQueue) : svc.Brackets :=
  ⟨fun c i => (h.elaborate c i).brackets, fun i => (h.resume i).brackets⟩

section

variable (hws : ∃ inner, ws' = inner ++ w :: ws ∧ ∀ v ∈ inner, ∀ a, (v.next a).SparesQueue)

include hws

theorem stage_spares {st : Stage} : (⟨r, .stage st, ws'⟩ : Machine σ α).SparesQueue (w :: ws) :=
  ⟨nofun, hws⟩

theorem program_spares {role : Role} {p : Program σ (role.Result α)} (hp : p.SparesQueue) :
    (⟨r, .program role p, ws'⟩ : Machine σ α).SparesQueue (w :: ws) :=
  ⟨fun h => by cases h; exact hp, hws⟩

theorem giveAnswer_spares (h : ∃ inner, (giveAnswer r call a ws').waiting = inner ++ w :: ws) :
    (giveAnswer r call a ws').SparesQueue (w :: ws) := by
  obtain ⟨inner, rfl, hinner⟩ := hws
  cases inner with
  | nil =>
    obtain ⟨inner, h⟩ := h
    exact absurd h waiting_giveAnswer_ne
  | cons v inner =>
    exact program_spares ⟨inner, rfl, fun v' hv => hinner v' (List.mem_cons_of_mem v hv)⟩
      (hinner v List.mem_cons_self a)

theorem haltAsker_spares {h : Halt}
    (hm : ∃ inner, (haltAsker r h ws').waiting = inner ++ w :: ws) :
    (haltAsker r h ws').SparesQueue (w :: ws) := by
  obtain ⟨inner, rfl, hinner⟩ := hws
  cases inner with
  | nil =>
    obtain ⟨inner, hm⟩ := hm
    have := congrArg List.length hm
    simp only [haltAsker, List.nil_append, List.length_append, List.length_cons] at this
    omega
  | cons v inner =>
    exact program_spares ⟨inner, rfl, fun v' hv => hinner v' (List.mem_cons_of_mem v hv)⟩ trivial

theorem openCall_spares {chain : Chain} : (openCall r chain q ws').SparesQueue (w :: ws) := by
  rw [openCall_eq]
  exact stage_spares hws

end

/-- Inside a call only programs run that leave the queue to the engine. -/
theorem Steps.spares (hsvc : svc.SparesQueue)
    (H : (⟨r, c, ws'⟩ : Machine σ α).SparesQueue (w :: ws)) (h : svc.Steps r ws' c m)
    (hm : ∃ inner, m.waiting = inner ++ w :: ws) : m.SparesQueue (w :: ws) := by
  have hws := H.waiting
  cases h with
  | unresolved | refuse | answer | finish => exact giveAnswer_spares hws hm
  | undeclared => exact haltAsker_spares hws hm
  | resolve | create | openScope | release | wake | suspend | complete | fail | settle =>
    exact stage_spares hws
  | elaborate => exact program_spares hws (hsvc.elaborate _ _)
  | resume => exact program_spares hws (hsvc.resume _)
  | done | dangling => exact program_spares hws trivial
  | halt | unasked => exact H
  | read => exact program_spares hws (H.program rfl _ _)
  | service => exact program_spares hws (H.program rfl _)
  | command => exact program_spares hws ((H.program rfl).2 _)
  | @request role c q next =>
    obtain ⟨inner, rfl, hinner⟩ := hws
    refine openCall_spares ⟨⟨role, next⟩ :: inner, rfl, fun v hv => ?_⟩
    obtain rfl | hv := List.mem_cons.mp hv
    · exact H.program rfl
    · exact hinner v hv

/-! ## The call of a gagged request -/

theorem le_depth_of_bracketed {call₀ : Call} {d₀ d : Nat}
    (H : Waiting.Bracketed e call₀ d₀ w ws call d ws') : call₀.depth d₀ ≤ call.depth d := by
  induction H with
  | base => exact Nat.le_refl _
  | above _ _ _ _ ih => exact ih.trans ((Nat.le_add_right _ _).trans (le_depth _ _))

/-- Inside a call no fewer gags are open than at its beginning. -/
theorem depth_le_of_bracketed {call₀ : Call} {d₀ : Nat} (H : m.Bracketed call₀ d₀ w ws) :
    call₀.depth d₀ ≤ m.engine.queue.gagDepth := by
  cases H with
  | program _ H _ _ hd =>
    exact (le_depth_of_bracketed H).trans ((Nat.le_add_right _ _).trans hd.ge)
  | stage H _ hd => exact (le_depth_of_bracketed H).trans hd.ge

/-- A call leaves the gag depth as it was, whatever it is answered with. -/
theorem gagDepth_of_answers {call₀ : Call} {d₀ : Nat} (H : m.Bracketed call₀ d₀ w ws)
    (hw : m.waiting = w :: ws) (ha : svc.answers m = some a) :
    (svc.step m).engine.queue.gagDepth = d₀ := by
  obtain ⟨st, e, s, hc, hstep, hcases⟩ := step_of_answers ha
  rw [hstep, hw]
  have hmarks : m.engine.Marks e := by
    obtain ⟨_, _, _, -, rfl⟩ | ⟨_, _, _, _, ha⟩ | ⟨_, -, -, rfl⟩ := hcases
    · exact Engine.reject_marks _
    · exact Engine.answer?_marks ha
    · exact .refl _
  obtain ⟨r, _, _⟩ := m
  cases hc
  obtain rfl : _ = w :: ws := hw
  cases H with
  | stage hwaiting _ hdepth =>
    obtain ⟨-, rfl⟩ := hwaiting.eq_base
    exact gagDepth_closeGag (hmarks.depth.trans hdepth)

/-- The queue in the call of a gagged request that is made at the moment `k` and answered in the step
after the moment `n`. -/
structure Muffled (svc : Service σ) (m₀ : Machine σ α) (k n : Nat) : Prop where
  /-- Inside the call the gag is open, and the queue only counts what is reported. -/
  during {j : Nat} : k < j → j ≤ n →
    (svc.after k m₀).engine.queue.gagDepth < (svc.after j m₀).engine.queue.gagDepth ∧
      (svc.after j m₀).engine.queue = { (svc.after k m₀).engine.queue with
        gaggedCount :=
          (svc.after k m₀).engine.queue.gaggedCount + (svc.reports m₀ k j).length
        gagDepth := (svc.after j m₀).engine.queue.gagDepth }
  /-- After the call nothing but the count has changed. -/
  after : (svc.after (n + 1) m₀).engine.queue = { (svc.after k m₀).engine.queue with
    gaggedCount :=
      (svc.after k m₀).engine.queue.gaggedCount + (svc.reports m₀ k (n + 1)).length }

section

variable {role : Role} {chain : Chain} {next : Except TemplateError InstanceId → Program σ (role.Result α)}
  (hk : (svc.after k m₀).control = .program role (.request chain q next)) (hkn : k + 1 ≤ n)
  (hin : ∀ j, k < j → j ≤ n →
    ∃ inner, (svc.after j m₀).waiting = inner ++ ⟨role, next⟩ :: (svc.after k m₀).waiting)

include hk hkn hin

theorem spares_of_request (hsvc : svc.SparesQueue) :
    (svc.after n m₀).SparesQueue (⟨role, next⟩ :: (svc.after k m₀).waiting) := by
  induction n, hkn using Nat.le_induction with
  | base =>
    rw [after_succ]
    generalize svc.after k m₀ = m at hk ⊢
    obtain ⟨r, _, ws⟩ := m
    cases hk
    exact openCall_spares ⟨[], rfl, List.forall_mem_nil _⟩
  | succ n hkn ih =>
    have hinner := hin (n + 1) (by omega) (Nat.le_refl _)
    have H := ih fun j hj hjn => hin j hj (by omega)
    rw [after_succ] at hinner ⊢
    exact (step_steps _).spares hsvc H hinner

theorem lt_depth_of_request (hsvc : svc.SparesQueue) (hq : q.gagged = true) :
    (svc.after k m₀).engine.queue.gagDepth < (svc.after n m₀).engine.queue.gagDepth := by
  have h := depth_le_of_bracketed (bracketed_of_request hsvc.brackets hk hkn hin)
  rw [Call.depth, Call.opened, hq] at h
  exact h

theorem swallows_step (hsvc : svc.SparesQueue) (hq : q.gagged = true) :
    (svc.after n m₀).engine.queue.Swallows (svc.report? (svc.after n m₀)).toList.length
      (svc.after (n + 1) m₀).engine.queue := by
  rw [after_succ]
  refine (step_receives fun _ _ _ h => ?_).swallows fun _ => ?_
  · exact ((spares_of_request hk hkn hin hsvc).program h).1
  · exact Engine.isGagged_iff.mpr (Nat.zero_lt_of_lt (lt_depth_of_request hk hkn hin hsvc hq))

/-- Inside the call of a gagged request the queue only counts. -/
theorem swallows_of_request (hsvc : svc.SparesQueue) (hq : q.gagged = true) :
    (svc.after k m₀).engine.queue.Swallows (svc.reports m₀ k n).length
      (svc.after n m₀).engine.queue := by
  induction n, hkn using Nat.le_induction with
  | base =>
    have hnone : svc.report? (svc.after k m₀) = none := by
      unfold report?
      rw [hk]
    rw [reports_succ (Nat.le_refl k), reports_self, after_succ, List.nil_append]
    refine (step_receives fun _ _ _ h => ?_).swallows fun h => ?_
    · cases hk.symm.trans h
    · rw [hnone] at h
      cases h
  | succ n hkn ih =>
    have hin' : ∀ j, k < j → j ≤ n → _ := fun j hj hjn => hin j hj (by omega)
    rw [reports_succ (Nat.le_of_lt hkn), List.length_append]
    exact (ih hin').trans (swallows_step hk hkn hin' hsvc hq)

end

/-- **Gagged requests are quiet.** -/
theorem muffled (hsvc : svc.SparesQueue) (hq : q.gagged = true) (h : svc.Answered m₀ k n q a) :
    svc.Muffled m₀ k n := by
  obtain ⟨role, c, next, hk, hkn, hin, hw, ha⟩ := h
  constructor
  case during =>
    intro j hkj hjn
    have hin' : ∀ i, k < i → i ≤ j → _ := fun i hi hij => hin i hi (hij.trans hjn)
    exact ⟨lt_depth_of_request hk hkj hin' hsvc hq, swallows_of_request hk hkj hin' hsvc hq⟩
  case after =>
    have h := (swallows_of_request hk hkn hin hsvc hq).trans (swallows_step hk hkn hin hsvc hq)
    have hdepth : (svc.after (n + 1) m₀).engine.queue.gagDepth =
        (svc.after k m₀).engine.queue.gagDepth := by
      rw [after_succ]
      exact gagDepth_of_answers (bracketed_of_request hsvc.brackets hk hkn hin) hw ha
    rw [← List.length_append, ← reports_succ (Nat.le_of_lt hkn), DiagnosticQueue.Swallows,
      hdepth] at h
    exact h

end Service

/-- A front end whose first instance asks speculatively for one that fails, and then for one that
refers back to the first and fails when it goes on. -/
def fumbling : Service Unit where
  evaluate _ _ := pure (.error ⟨"", {}⟩)
  openScope s := pure s
  declareSymbol _ _ _ := pure ()
  symbolName _ _ := ""
  elaborate c i :=
    match i.index with
    | 0 => .request c { decl := ⟨1⟩, gagged := true } fun _ =>
      .request c { decl := ⟨2⟩ } fun _ => .done (.ok [])
    | 1 => .done (.error ⟨"", {}⟩)
    | _ => .request c { decl := ⟨0⟩, need := .reference } fun _ => .done (.ok [])
  resume _ := .done (.error ⟨"", {}⟩)

/-- Asks speculatively for an instance of the first template. -/
def askGagged (σ : Type) : Program σ (Except TemplateError InstanceId) :=
  .command (.declare { name := "A" }) fun _ => .command (.declare { name := "B" }) fun _ =>
    .command (.declare { name := "C" }) fun _ => .request [] { decl := ⟨0⟩, gagged := true } .done

/-- The machine of the request at its beginning. -/
def fumblingBoot : Machine Unit (Except TemplateError InstanceId) :=
  .boot { digest := fun _ _ => default } () (askGagged Unit)

theorem fumbling_sparesQueue : fumbling.SparesQueue := by
  refine ⟨fun c i => ?_, fun _ => trivial⟩
  change Program.SparesQueue (match i.index with | 0 => _ | 1 => _ | _ => _)
  split
  · exact fun _ _ => trivial
  · trivial
  · exact fun _ => trivial

theorem fumbling_answered :
    fumbling.Answered fumblingBoot 3 29 { decl := ⟨0⟩, gagged := true } (.ok ⟨0⟩) := by
  refine ⟨.client, [], .done, rfl, by decide,
    fun j hj hj' => ⟨(fumbling.after j fumblingBoot).waiting.dropLast, ?_⟩, rfl, rfl⟩
  interval_cases j <;> rfl

/-- The request succeeds. Two failures inside it are counted: one in a gag of its own, and one of an
instance that was released. -/
theorem muffled_fumbling : fumbling.SparesQueue ∧
    fumbling.Answered fumblingBoot 3 29 { decl := ⟨0⟩, gagged := true } (.ok ⟨0⟩) ∧
    (fumbling.reports fumblingBoot 3 30).length = 2 ∧ fumbling.Muffled fumblingBoot 3 29 :=
  ⟨fumbling_sparesQueue, fumbling_answered, rfl,
    Service.muffled fumbling_sparesQueue rfl fumbling_answered⟩

end Templates
