import Templates.Proofs.Gagging.Depth
import Templates.Proofs.Machine.Usage

/-!
# From a request to its answer

A request is answered when its call has come to an end (`Service.Answered`). Two steps after the
request its plan is made (`Service.Answered.planned`), and an instance that is made then is the one
that the call is answered with, whatever happens meanwhile (`Machine.Within`).
-/

namespace Templates

variable {σ α : Type}

namespace Service

/-- The answer that a call is given in the next step, if it is given one. -/
def answers (svc : Service σ) (m : Machine σ α) : Option (Except TemplateError InstanceId) :=
  match m.control with
  | .stage (.resolve call) =>
    match (svc.resolveRequest call.request m.run.service).1 with
    | .error err => some (.error err)
    | .ok _ => none
  | .stage (.plan call resolved) =>
    match m.engine.plan svc.toSemantics call.request resolved m.run.service with
    | (.error err, _) => some (.error err)
    | (.ok p, s) =>
      (m.engine.answer? (svc.symbolName s) call.request call.chain p).map Prod.fst
  | .stage (.release _ o []) => some o.answer
  | _ => none

/-- A request that is made at the moment `k` is answered with `a` in the step after the moment `n`.
Until then its call goes on. -/
def Answered (svc : Service σ) (m₀ : Machine σ α) (k n : Nat) (q : Request)
    (a : Except TemplateError InstanceId) : Prop :=
  ∃ role c next, (svc.after k m₀).control = .program role (.request c q next) ∧ k < n ∧
    (∀ j, k < j → j ≤ n →
      ∃ inner, (svc.after j m₀).waiting = inner ++ ⟨role, next⟩ :: (svc.after k m₀).waiting) ∧
    (svc.after n m₀).waiting = ⟨role, next⟩ :: (svc.after k m₀).waiting ∧
    svc.answers (svc.after n m₀) = some a

/-- In the step the call is carried out by the plan. -/
def Planning (svc : Service σ) (m : Machine σ α) (call : Call) (p : Plan) : Prop :=
  ∃ resolved s, m.control = .stage (.plan call resolved) ∧
    m.engine.plan svc.toSemantics call.request resolved m.run.service = (.ok p, s)

end Service

/-- An outcome is answered with no other instance than its own. -/
def Outcome.Own (o : Outcome) : Prop := ∀ ⦃j⦄, o.answer = .ok j → j = o.inst

/-- The program runs for a call that has made the instance `i`. -/
inductive Role.For (i : InstanceId) : Role → Prop
  | elaborate {call : Call} {p : Plan} : For i (.elaborate call p i)
  | resume {call : Call} {o : Outcome} {w : InstanceId} {rest : List InstanceId} :
    o.Own → o.inst = i → For i (.resume call o w rest)

/-- A call has made the instance `i`. -/
inductive Stage.For (i : InstanceId) : Stage → Prop
  | openScope {call : Call} {p : Plan} : For i (.openScope call p i)
  | elaborate {call : Call} {p : Plan} : For i (.elaborate call p i)
  | release {call : Call} {o : Outcome} {pending : List InstanceId} :
    o.Own → o.inst = i → For i (.release call o pending)
  | resume {call : Call} {o : Outcome} {w : InstanceId} {rest : List InstanceId} :
    o.Own → o.inst = i → For i (.resume call o w rest)

/-- The call that the programs `ws` wait for goes on, or something inside it. It has made the
instance `i`. -/
inductive Machine.Within (i : InstanceId) (ws : List (Waiting σ α)) : Machine σ α → Prop
  | stage {r : Run σ} {s : Stage} : s.For i → Within i ws ⟨r, .stage s, ws⟩
  | program {r : Run σ} {role : Role} {p : Program σ (role.Result α)} :
    role.For i → Within i ws ⟨r, .program role p, ws⟩
  | inside {r : Run σ} {c : Control σ α} {inner : List (Waiting σ α)} {w : Waiting σ α} :
    w.role.For i → Within i ws ⟨r, c, inner ++ w :: ws⟩

namespace Service

variable {svc : Service σ} {m m₀ : Machine σ α} {r : Run σ} {c : Control σ α} {call : Call}
  {i j : InstanceId} {ws ws' inner : List (Waiting σ α)} {w : Waiting σ α} {k n : Nat} {q : Request}
  {chain : Chain} {role : Role}

theorem giveAnswer_within {a : Except TemplateError InstanceId} (hw : w.role.For i) :
    (giveAnswer r call a (inner ++ w :: ws)).Within i ws := by
  cases inner with
  | nil => exact .program hw
  | cons v inner => exact .inside hw

theorem haltAsker_within {h : Halt} (hw : w.role.For i) :
    (haltAsker r h (inner ++ w :: ws)).Within i ws := by
  cases inner with
  | nil => exact .program hw
  | cons v inner => exact .inside hw

theorem openCall_within (hw : w.role.For i) (hin : ∃ inner, ws' = inner ++ w :: ws) :
    (openCall r chain q ws').Within i ws := by
  obtain ⟨inner, rfl⟩ := hin
  rw [openCall_eq]
  exact .inside hw

/-- Something still goes on above the programs `ws` after an answer only if it did so before. -/
theorem waiting_giveAnswer_ne {a : Except TemplateError InstanceId} :
    (giveAnswer r call a (w :: ws)).waiting ≠ inner ++ w :: ws := by
  intro h
  have := congrArg List.length h
  simp only [giveAnswer, List.length_append, List.length_cons] at this
  omega

/-- A call goes on with its instance until it is answered. -/
theorem Steps.within (h : svc.Steps r ws' c m)
    (H : (⟨r, c, ws'⟩ : Machine σ α).Within i (w :: ws))
    (hm : ∃ inner, m.waiting = inner ++ w :: ws) : m.Within i (w :: ws) := by
  cases H with
  | stage hs =>
    cases h with
    | unresolved | undeclared | resolve | refuse | answer | create => cases hs
    | openScope =>
      cases hs
      exact .stage .elaborate
    | elaborate =>
      cases hs
      exact .program .elaborate
    | finish =>
      obtain ⟨inner, hm⟩ := hm
      exact absurd hm waiting_giveAnswer_ne
    | release | wake =>
      cases hs with
      | release ho hi => first | exact .stage (.release ho hi) | exact .stage (.resume ho hi)
    | resume =>
      cases hs with
      | resume ho hi => exact .program (.resume ho hi)
  | program hrole =>
    cases h with
    | done => cases hrole
    | suspend | complete =>
      cases hrole
      exact .stage (.release (fun _ h => (Except.ok.inj h).symm) rfl)
    | fail =>
      cases hrole
      exact .stage (.release (fun _ h => nomatch h) rfl)
    | settle =>
      cases hrole with
      | resume ho hi => exact .stage (.release ho hi)
    | halt | read | service | dangling | command => exact .program hrole
    | request => exact openCall_within hrole ⟨[], rfl⟩
  | inside hw =>
    cases h with
    | unresolved | refuse | answer | finish => exact giveAnswer_within hw
    | undeclared => exact haltAsker_within hw
    | request => exact openCall_within hw ⟨_ :: _, rfl⟩
    | resolve | create | openScope | elaborate | release | wake | resume | done | suspend | complete
    | fail | settle | halt | read | service | dangling | command | unasked => exact .inside hw

theorem within_after {m₀ : Machine σ α} {k l : Nat} (H : (svc.after k m₀).Within i (w :: ws))
    (hkl : k ≤ l) (hin : ∀ j, k < j → j ≤ l → ∃ inner, (svc.after j m₀).waiting = inner ++ w :: ws) :
    (svc.after l m₀).Within i (w :: ws) := by
  induction l, hkl using Nat.le_induction with
  | base => exact H
  | succ l hkl ih =>
    have hinner := hin (l + 1) (by omega) (Nat.le_refl _)
    rw [after_succ] at hinner ⊢
    exact (step_steps _).within (ih fun j hj hjl => hin j hj (by omega)) hinner

/-- A call that has made an instance is answered when all are released. -/
theorem release_of_answers (H : m.Within i (w :: ws)) (hm : m.waiting = w :: ws)
    {a : Except TemplateError InstanceId} (ha : svc.answers m = some a) :
    ∃ call o, m.control = .stage (.release call o []) ∧ o.Own ∧ o.inst = i ∧ o.answer = a := by
  cases H with
  | stage hs =>
    cases hs with
    | openScope | elaborate | resume => cases ha
    | @release call o pending ho hi =>
      cases pending with
      | nil => exact ⟨call, o, rfl, ho, hi, Option.some.inj ha⟩
      | cons => cases ha
  | program => cases ha
  | @inside r c inner v =>
    have := congrArg List.length hm
    simp only [List.length_append, List.length_cons] at this
    omega

/-- A call that has made an instance is answered with no other one. -/
theorem eq_of_answers (H : m.Within i (w :: ws)) (hm : m.waiting = w :: ws)
    (ha : svc.answers m = some (.ok j)) : j = i := by
  obtain ⟨_, o, -, ho, hi, ha⟩ := release_of_answers H hm ha
  exact (ho ha).trans hi

/-! ## Answers -/

/-- A planned call is answered at once if it needs no new instance. -/
theorem Planning.answered {p : Plan} {Q : Except TemplateError InstanceId → Engine → Prop}
    (h : svc.Planning m call p) (H : ∀ names, ∃ a e,
      m.engine.answer? names call.request call.chain p = some (a, e) ∧ Q a e) :
    ∃ a e s, Q a e ∧ svc.answers m = some a ∧ svc.step m = giveAnswer ⟨e, s⟩ call a m.waiting := by
  obtain ⟨resolved, s, hc, hplan⟩ := h
  obtain ⟨a, e, ha, hQ⟩ := H (svc.symbolName s)
  obtain ⟨r, _, ws⟩ := m
  cases hc
  refine ⟨a, e, s, hQ, ?_, ?_⟩
  · unfold answers
    dsimp only
    rw [hplan]
    dsimp only
    rw [ha, Option.map_some]
  · rw [step_plan, hplan]
    exact carryOutStep_of_some ha

/-- A planned call is answered with an instance at once only if it needs no new one. -/
theorem answer?_of_answers {call : Call} {resolved : List Arg}
    (hc : m.control = .stage (.plan call resolved)) (ha : svc.answers m = some (.ok i)) : ∃ p s e,
      m.engine.plan svc.toSemantics call.request resolved m.run.service = (.ok p, s) ∧
        m.engine.answer? (svc.symbolName s) call.request call.chain p = some (.ok i, e) := by
  obtain ⟨r, _, ws⟩ := m
  cases hc
  unfold answers at ha
  dsimp only at ha
  split at ha
  · cases ha
  · next p s hp =>
    obtain ⟨⟨a, e⟩, he, rfl⟩ := Option.map_eq_some_iff.mp ha
    exact ⟨p, s, e, hp, he⟩

/-- Otherwise its instance is made, and the members are asked for. -/
theorem Planning.elaborates {p : Plan} (h : svc.Planning m call p)
    (H : ∀ names, m.engine.answer? names call.request call.chain p = none) :
    (svc.after 3 m).control = .program (.elaborate call p ⟨m.engine.insts.size⟩)
      (svc.elaborate (Engine.frameOf call.request p ⟨m.engine.insts.size⟩ :: call.chain)
        ⟨m.engine.insts.size⟩) := by
  obtain ⟨resolved, s, hc, hplan⟩ := h
  obtain ⟨r, _, ws⟩ := m
  cases hc
  have hcreate : svc.step (⟨r, .stage (.plan call resolved), ws⟩ : Machine σ α) =
      ⟨⟨(r.engine.create call.request call.chain p).2, s⟩,
        .stage (.openScope call p ⟨r.engine.insts.size⟩), ws⟩ := by
    rw [step_plan, hplan]
    exact carryOutStep_of_none (H _)
  change (svc.step (svc.step (svc.step _))).control = _
  rw [hcreate]
  rfl

/-- What a program does not wait for any more is over. -/
theorem not_inside (hm : m.waiting = ws) (h : ∃ inner, m.waiting = inner ++ w :: ws) : False := by
  obtain ⟨inner, h⟩ := h
  have := congrArg List.length (hm.symm.trans h)
  simp only [List.length_append, List.length_cons] at this
  omega

section

variable {next : Except TemplateError InstanceId → Program σ (role.Result α)}
  (hk : svc.after k m₀ = ⟨r, .program role (.request chain q next), ws⟩) (hkn : k < n)
  (hin : ∀ i, k < i → i ≤ n → ∃ inner, (svc.after i m₀).waiting = inner ++ ⟨role, next⟩ :: ws)
  (ha : svc.answers (svc.after n m₀) = some (.ok j))

include hk hkn hin ha

/-- Between a request and its plan nothing happens to the instances. -/
theorem planned_of_request : k + 2 ≤ n ∧ ∃ e s resolved,
    svc.after (k + 2) m₀ =
      ⟨⟨e, s⟩, .stage (.plan (.opened r.engine chain q) resolved), ⟨role, next⟩ :: ws⟩ ∧
    e.insts = r.engine.insts ∧ e.roots = r.engine.roots ∧
      e.queue.gagDepth = (Call.opened r.engine chain q).depth r.engine.queue.gagDepth := by
  have hfirst : svc.after (k + 1) m₀ = ⟨⟨r.engine.opened q, r.service⟩,
      .stage (.resolve (.opened r.engine chain q)), ⟨role, next⟩ :: ws⟩ := by
    have hs := steps_after hk
    generalize svc.after (k + 1) m₀ = m at hs
    cases hs
    exact openCall_eq ..
  have hn : k + 2 ≤ n := by
    by_contra hn
    obtain rfl : n = k + 1 := by omega
    rw [hfirst, answers] at ha
    dsimp only at ha
    split at ha <;> cases ha
  refine ⟨hn, r.engine.opened q, ?_⟩
  have hinner := hin (k + 2) (by omega) hn
  have hs := steps_after hfirst
  generalize svc.after (k + 2) m₀ = m at hs hinner
  cases hs with
  | unresolved | undeclared => exact (not_inside rfl hinner).elim
  | resolve => exact ⟨_, _, rfl, r.engine.insts_opened q, r.engine.roots_opened q, gagDepth_opened ..⟩

end

/-- Where the instance comes from that a call is answered with after the moment `l`. The plan of the
call is there at the moment `k`. -/
inductive Source (svc : Service σ) (m₀ : Machine σ α) (k l : Nat) (call : Call) (j : InstanceId) :
    Prop
  /-- It is found on the chain. -/
  | chain {f : Frame} : l = k → f ∈ call.chain → f.inst = j → Source svc m₀ k l call j
  /-- It is found in a cache. -/
  | cached : l = k → svc.takes (svc.after k m₀) = some (call, j) → Source svc m₀ k l call j
  /-- The call makes it. -/
  | made {p : Plan} : k < l → svc.takes (svc.after k m₀) = some (call, j) →
    j = ⟨(svc.after k m₀).engine.insts.size⟩ →
    (svc.after (k + 1) m₀).engine =
      ((svc.after k m₀).engine.create call.request call.chain p).2 → Source svc m₀ k l call j

section

variable {l : Nat} {resolved : List Arg}
  (hplan : svc.after k m₀ = ⟨r, .stage (.plan call resolved), w :: ws⟩) (hkl : k ≤ l)
  (hin : ∀ i, k < i → i ≤ l → ∃ inner, (svc.after i m₀).waiting = inner ++ w :: ws)
  (hw : (svc.after l m₀).waiting = w :: ws) (ha : svc.answers (svc.after l m₀) = some (.ok j))

include hplan hkl hin hw ha

/-- A planned call is answered with an instance at once, or with the one that it makes. -/
theorem exists_plan_of_answers : ∃ p s,
    r.engine.plan svc.toSemantics call.request resolved r.service = (.ok p, s) ∧
      ((l = k ∧ ∃ e,
        r.engine.answer? (svc.symbolName s) call.request call.chain p = some (.ok j, e)) ∨
      k < l ∧ r.engine.answer? (svc.symbolName s) call.request call.chain p = none ∧
        j = ⟨r.engine.insts.size⟩ ∧ (svc.after l m₀).Within j (w :: ws) ∧
          (svc.after (k + 1) m₀).engine = (r.engine.create call.request call.chain p).2) := by
  obtain rfl | hlt := hkl.eq_or_lt
  · obtain ⟨p, s, e, hp, ha⟩ := answer?_of_answers (congrArg Machine.control hplan) ha
    rw [hplan] at hp ha
    exact ⟨p, s, hp, .inl ⟨rfl, e, ha⟩⟩
  · have hinner := hin (k + 1) (Nat.lt_succ_self k) hlt
    have hs := steps_after hplan
    generalize hm : svc.after (k + 1) m₀ = m at hs hinner
    cases hs with
    | refuse | answer => exact (not_inside rfl hinner).elim
    | @create _ _ p s hp ha' =>
      have hfirst : (svc.after (k + 1) m₀).Within ⟨r.engine.insts.size⟩ (w :: ws) := by
        rw [hm]
        exact .stage .openScope
      have hwithin := within_after hfirst hlt fun i hi => hin i (by omega)
      obtain rfl := eq_of_answers hwithin hw ha
      exact ⟨p, s, hp, .inr ⟨hlt, ha', rfl, hwithin, rfl⟩⟩

theorem source_of_plan : svc.Source m₀ k l call j := by
  obtain ⟨p, s, hp, ⟨rfl, e, he⟩ | ⟨hlt, hnone, rfl, -, he⟩⟩ :=
    exists_plan_of_answers hplan hkl hin hw ha
  · obtain ⟨f, hf, hj⟩ | htakes := Engine.takes?_of_answer?_eq_ok he
    · exact .chain rfl hf hj
    · refine .cached rfl ?_
      rw [hplan, takes_plan hp, htakes]
      rfl
  · refine .made (p := p) hlt ?_ ?_ ?_
    · rw [hplan, takes_plan hp, Engine.takes?_of_answer?_eq_none hnone]
      rfl
    · rw [hplan]
    · rw [hplan, he]

end

end Service

end Templates
