import Templates.Proofs.Machine.Activity

/-!
# How far instances have come in a run

The state of an instance changes when the front end is done with it, and the members come when its
elaboration succeeds. `Machine.Evolves` lists all that a step can do to them, whatever chains requests
are made with. An instance that is being elaborated has had no other fate yet (`Machine.Held`), so it
is elaborated once, and one that goes on is never elaborated again.
-/

namespace Templates

variable {σ α : Type}

namespace Engine

/-- The state of an instance, and its members. -/
def progress? (e : Engine) (i : InstanceId) : Option (InstanceState × Option MemberTable) :=
  (e.inst? i).map fun x => (x.state, x.members)

variable {e e' : Engine} {i j : InstanceId} {s : InstanceState} {t : Option MemberTable}

theorem progress?_of_inst? {x : Instance} (h : e.inst? i = some x) :
    e.progress? i = some (x.state, x.members) := by
  rw [progress?, h, Option.map_some]

theorem progress?_eq_some_iff :
    e.progress? i = some (s, t) ↔ ∃ x, e.inst? i = some x ∧ x.state = s ∧ x.members = t := by
  simp [progress?]

theorem progress?_arena (e : Engine) (i : InstanceId) :
    e.progress? i = (e.arena i).map fun x => (x.state, x.members) := by
  rw [arena, Option.map_map]
  rfl

theorem progress?_eq_none_iff : e.progress? i = none ↔ e.insts.size ≤ i.index := by
  simp [progress?, inst?]

theorem Quiet.progress? (h : e.Quiet e') : e'.progress? = e.progress? := by
  funext i
  rw [progress?_arena, progress?_arena, h.arena]

theorem progress?_congr (h : e'.insts = e.insts) : e'.progress? = e.progress? := by
  funext i
  rw [Engine.progress?, inst?, h]
  rfl

theorem progress?_modifyInst (e : Engine) (i j : InstanceId) (f : Instance → Instance) :
    (e.modifyInst i f).progress? j =
      if i = j then (e.inst? j).map fun x => ((f x).state, (f x).members) else e.progress? j := by
  unfold progress?
  rw [inst?_modifyInst]
  split
  · rw [Option.map_map]
    rfl
  · rfl

theorem progress?_modifyInst_of_same {f : Instance → Instance}
    (hf : ∀ x, (f x).state = x.state ∧ (f x).members = x.members) :
    (e.modifyInst i f).progress? = e.progress? := by
  funext j
  rw [progress?_modifyInst]
  split
  · simp only [hf, progress?]
  · rfl

theorem progress?_modifyInst_of_some {f : Instance → Instance} {x : Instance}
    (hx : e.inst? i = some x) : (e.modifyInst i f).progress? =
      Function.update e.progress? i (some ((f x).state, (f x).members)) := by
  funext j
  rw [progress?_modifyInst]
  by_cases hj : i = j
  · subst hj
    rw [if_pos rfl, Function.update_self, hx]
    rfl
  · rw [if_neg hj, Function.update_of_ne (Ne.symm hj)]

theorem progress?_takeDeferred : (e.takeDeferred i).2.progress? = e.progress? :=
  progress?_modifyInst_of_same fun _ => ⟨rfl, rfl⟩

theorem progress?_release : (e.release i).2.progress? = e.progress? :=
  progress?_modifyInst_of_same fun _ => ⟨rfl, rfl⟩

theorem progress?_defer : (e.defer i j).progress? = e.progress? := by
  obtain h | h := e.defer_cases i j <;> rw [h]
  refine (progress?_modifyInst_of_same ?_).trans (progress?_modifyInst_of_same ?_) <;>
    exact fun _ => ⟨rfl, rfl⟩

theorem progress?_answer? {names : SymbolId → String} {q : Request} {c : Chain} {p : Plan}
    {a : Except TemplateError InstanceId} (h : e.answer? names q c p = some (a, e')) :
    e'.progress? = e.progress? := by
  obtain h | ⟨f, -, i, -, -, rfl⟩ := answer?_cases h
  · exact h.progress?
  · exact progress?_defer

theorem progress?_create {q : Request} {c : Chain} {p : Plan} : (e.create q c p).2.progress? =
    Function.update e.progress? ⟨e.insts.size⟩ (some (.elaborating, none)) := by
  funext j
  rw [progress?_arena, arena_create]
  by_cases hj : j = ⟨e.insts.size⟩
  · rw [hj, Arena.put_self, Function.update_self]
    rfl
  · rw [Arena.put_of_ne hj, Function.update_of_ne hj, progress?_arena]

theorem progress?_complete (members : MemberTable) (h : e.progress? i = some (s, t)) :
    ∃ s', (s' = .suspended ∨ s' = .complete) ∧ (e.complete i members).progress? =
      Function.update e.progress? i (some (s', some members)) := by
  obtain ⟨x, hx, -⟩ := Option.map_eq_some_iff.mp h
  refine ⟨if 0 < x.waitingOn then .suspended else .complete, ?_,
    progress?_modifyInst_of_some hx⟩
  split
  · exact .inl rfl
  · exact .inr rfl

theorem progress?_fail {names : SymbolId → String} {reason : String} {span : Span} {c : Chain}
    (h : e.progress? i = some (s, t)) : (e.fail names i reason span c).2.progress? =
      Function.update e.progress? i (some (.errored, t)) := by
  obtain ⟨x, hx, hs⟩ := Option.map_eq_some_iff.mp h
  obtain rfl : x.members = t := congrArg Prod.snd hs
  exact (progress?_congr insts_fail).trans (progress?_modifyInst_of_some hx)

theorem progress?_settle {names : SymbolId → String} {result : Except Failure Unit}
    (h : e.progress? i = some (s, t)) : (e.settle names i result).progress? =
      Function.update e.progress? i (some (settled result, t)) := by
  cases result with
  | error f => exact progress?_fail h
  | ok =>
    obtain ⟨x, hx, hs⟩ := Option.map_eq_some_iff.mp h
    obtain rfl : x.members = t := congrArg Prod.snd hs
    exact progress?_modifyInst_of_some hx

end Engine

/-- The states that an instance may have at the same time as `s` or later. Nothing goes back to be
elaborated or to wait. -/
def InstanceState.Precedes : InstanceState → InstanceState → Prop
  | .elaborating, _ => True
  | .suspended, s => s ≠ .elaborating
  | .complete, s | .errored, s => s = .complete ∨ s = .errored

namespace InstanceState.Precedes

variable {s s' s'' : InstanceState}

@[refl] theorem refl (s : InstanceState) : s.Precedes s := by
  cases s <;> simp [Precedes]

@[trans] theorem trans (h : s.Precedes s') (h' : s'.Precedes s'') : s.Precedes s'' := by
  cases s with
  | elaborating => trivial
  | suspended =>
    cases s' with
    | elaborating => exact absurd rfl h
    | suspended => exact h'
    | complete | errored =>
      rintro rfl
      simp [Precedes] at h'
  | complete | errored =>
    obtain rfl | rfl := h <;> exact h'

/-- What is not being elaborated may end. -/
theorem of_ended (h : s ≠ .elaborating) (h' : s' = .complete ∨ s' = .errored) : s.Precedes s' := by
  cases s with
  | elaborating => exact absurd rfl h
  | suspended =>
    rintro rfl
    simp at h'
  | complete | errored => exact h'

end InstanceState.Precedes

namespace Machine

/-- The elaboration of the instance ends with the members in the next step. -/
def Succeeds (m : Machine σ α) (i : InstanceId) (t : MemberTable) : Prop :=
  ∃ call p, m.control = .program (.elaborate call p i) (.done (.ok t))

/-- What the instances in hand have come to. -/
structure Held (m : Machine σ α) : Prop where
  elaborating {i : InstanceId} :
    i ∈ m.work.elaborating → m.engine.progress? i = some (.elaborating, none)
  distinct : m.work.elaborating.Nodup
  resuming {i : InstanceId} :
    i ∈ m.work.resuming → ∃ s t, m.engine.progress? i = some (s, t) ∧ s ≠ .elaborating

/-- What a step means for the states and the members of instances. -/
inductive Evolves (m m' : Machine σ α) : Prop
  | same : m'.engine.progress? = m.engine.progress? →
    m'.work.elaborating = m.work.elaborating → m'.work.resuming = m.work.resuming →
    (∀ i t, ¬m.Succeeds i t) → Evolves m m'
  | make {i : InstanceId} : m.engine.progress? i = none →
    m'.engine.progress? = Function.update m.engine.progress? i (some (.elaborating, none)) →
    m'.work.elaborating = i :: m.work.elaborating → m'.work.resuming = m.work.resuming →
    (∀ i t, ¬m.Succeeds i t) → Evolves m m'
  | succeed {i : InstanceId} {t : MemberTable} {s : InstanceState} : m.Succeeds i t →
    s = .suspended ∨ s = .complete →
    m'.engine.progress? = Function.update m.engine.progress? i (some (s, some t)) →
    m.work.elaborating = i :: m'.work.elaborating → m'.work.resuming = m.work.resuming →
    Evolves m m'
  | fail {i : InstanceId} :
    m'.engine.progress? = Function.update m.engine.progress? i (some (.errored, none)) →
    m.work.elaborating = i :: m'.work.elaborating → m'.work.resuming = m.work.resuming →
    (∀ i t, ¬m.Succeeds i t) → Evolves m m'
  | wake {i : InstanceId} {t : Option MemberTable} :
    m.engine.progress? i = some (.suspended, t) → i ∈ m.work.pending →
    m'.engine.arena.waitingOn i = 0 → m'.engine.progress? = m.engine.progress? →
    m'.work.elaborating = m.work.elaborating → m'.work.resuming = i :: m.work.resuming →
    (∀ i t, ¬m.Succeeds i t) → Evolves m m'
  | settle {i : InstanceId} {s s' : InstanceState} {t : Option MemberTable} :
    m.engine.progress? i = some (s, t) → s ≠ .elaborating → s' = .complete ∨ s' = .errored →
    m'.engine.progress? = Function.update m.engine.progress? i (some (s', t)) →
    m'.work.elaborating = m.work.elaborating → m.work.resuming = i :: m'.work.resuming →
    (∀ i t, ¬m.Succeeds i t) → Evolves m m'

variable {m m' : Machine σ α} {i : InstanceId} {s : InstanceState} {t : Option MemberTable}

theorem Succeeds.mem_work {t : MemberTable} (h : m.Succeeds i t) : i ∈ m.work.elaborating := by
  obtain ⟨r, c, ws⟩ := m
  obtain ⟨call, p, hc⟩ := h
  cases hc
  exact List.mem_cons_self

theorem not_succeeds_stage {r : Run σ} {st : Stage} {ws : List (Waiting σ α)} (i : InstanceId)
    (t : MemberTable) : ¬(⟨r, .stage st, ws⟩ : Machine σ α).Succeeds i t := by
  rintro ⟨_, _, h⟩
  cases h

theorem not_succeeds_program {r : Run σ} {role : Role} {p : Program σ (role.Result α)}
    {ws : List (Waiting σ α)} (hp : ∀ b, p ≠ .done b) (i : InstanceId) (t : MemberTable) :
    ¬(⟨r, .program role p, ws⟩ : Machine σ α).Succeeds i t := by
  rintro ⟨_, _, h⟩
  cases h
  exact hp _ rfl

theorem Succeeds.unique {j : InstanceId} {t u : MemberTable} (h : m.Succeeds i t)
    (h' : m.Succeeds j u) : j = i ∧ u = t := by
  obtain ⟨_, _, hc⟩ := h
  obtain ⟨_, _, hc'⟩ := h'
  rw [hc] at hc'
  cases hc'
  exact ⟨rfl, rfl⟩

/-- An instance in hand may go on to any state but the first. -/
theorem Held.update (H : m.Held) (hs : s ≠ .elaborating)
    (he : m'.engine.progress? = Function.update m.engine.progress? i (some (s, t)))
    (hw : m'.work.elaborating.Sublist m.work.elaborating) (hi : i ∉ m'.work.elaborating)
    (hr : m'.work.resuming ⊆ m.work.resuming) : m'.Held where
  elaborating {j} hj := by
    have hne : j ≠ i := fun h => hi (h ▸ hj)
    rw [he, Function.update_of_ne hne]
    exact H.elaborating (hw.subset hj)
  distinct := hw.nodup H.distinct
  resuming {j} hj := by
    rw [he]
    by_cases hij : j = i
    · subst hij
      exact ⟨s, t, Function.update_self .., hs⟩
    · rw [Function.update_of_ne hij]
      exact H.resuming (hr hj)

namespace Evolves

theorem held (H : m.Held) (h : m.Evolves m') : m'.Held := by
  cases h with
  | same he hw hr =>
    refine ⟨fun {j} hj => ?_, hw ▸ H.distinct, fun {j} hj => ?_⟩
    · rw [he]
      exact H.elaborating (hw ▸ hj)
    · rw [he]
      exact H.resuming (hr ▸ hj)
  | @make i hi he hw hr =>
    have hne {j : InstanceId} (hj : (m.engine.progress? j).isSome) : j ≠ i := by
      rintro rfl
      simp [hi] at hj
    refine ⟨fun {j} hj => ?_, ?_, fun {j} hj => ?_⟩
    · rw [he]
      rw [hw] at hj
      obtain rfl | hj := List.mem_cons.mp hj
      · exact Function.update_self ..
      · have hs := H.elaborating hj
        rw [Function.update_of_ne (hne (by rw [hs]; rfl)), hs]
    · rw [hw]
      refine List.nodup_cons.mpr ⟨fun h => ?_, H.distinct⟩
      have := H.elaborating h
      rw [hi] at this
      cases this
    · obtain ⟨s, t, hs, hn⟩ := H.resuming (hr ▸ hj)
      refine ⟨s, t, ?_, hn⟩
      rw [he, Function.update_of_ne (hne (by rw [hs]; rfl)), hs]
  | succeed _ hs he hw hr =>
    have hd := List.nodup_cons.mp (hw ▸ H.distinct)
    refine H.update ?_ he (hw ▸ List.sublist_cons_self ..) hd.1 (hr ▸ List.Subset.refl _)
    rintro rfl
    simp at hs
  | fail he hw hr =>
    have hd := List.nodup_cons.mp (hw ▸ H.distinct)
    refine H.update ?_ he (hw ▸ List.sublist_cons_self ..) hd.1 (hr ▸ List.Subset.refl _)
    exact nofun
  | @wake i t hi _ _ he hw hr =>
    refine ⟨fun {j} hj => ?_, hw ▸ H.distinct, fun {j} hj => ?_⟩
    · rw [he]
      exact H.elaborating (hw ▸ hj)
    · rw [he]
      rw [hr] at hj
      obtain rfl | hj := List.mem_cons.mp hj
      · exact ⟨.suspended, t, hi, nofun⟩
      · exact H.resuming hj
  | settle hi hn hs he hw hr =>
    refine H.update ?_ he (hw ▸ List.Sublist.refl _) (fun hj => ?_)
      (hr ▸ List.subset_cons_self ..)
    · rintro rfl
      simp at hs
    · have hj := H.elaborating (hw ▸ hj)
      rw [hi] at hj
      cases hj
      exact hn rfl

/-- What is out of hand stays what it is. -/
theorem out_of_hand (H : m.Held) (h : m.Evolves m') (hs : s ≠ .elaborating)
    (hi : m.engine.progress? i = some (s, t)) (hr : i ∉ m.work.resuming) :
    m'.engine.progress? i = some (s, t) := by
  have hne {j : InstanceId} (hj : j ∈ m.work.elaborating) : i ≠ j := by
    rintro rfl
    cases hi.symm.trans (H.elaborating hj)
    exact hs rfl
  cases h with
  | same he | wake _ _ _ he => rwa [he]
  | make hnew he =>
    rw [he, Function.update_of_ne, hi]
    rintro rfl
    cases hnew.symm.trans hi
  | succeed hd _ he => rwa [he, Function.update_of_ne (hne hd.mem_work)]
  | fail he hw => rwa [he, Function.update_of_ne (hne (hw ▸ List.mem_cons_self))]
  | settle _ _ _ he _ hw =>
    rw [he, Function.update_of_ne, hi]
    rintro rfl
    exact hr (hw ▸ List.mem_cons_self)

/-- An instance has a state that may follow, and keeps its members. -/
theorem progress (H : m.Held) (h : m.Evolves m') (hi : m.engine.progress? i = some (s, t)) :
    ∃ s' t', m'.engine.progress? i = some (s', t') ∧ s.Precedes s' ∧ (t.isSome → t' = t) := by
  have hsame (h : m'.engine.progress? i = m.engine.progress? i) :
      ∃ s' t', m'.engine.progress? i = some (s', t') ∧ s.Precedes s' ∧ (t.isSome → t' = t) :=
    ⟨s, t, h.trans hi, .refl s, fun _ => rfl⟩
  -- An instance that is being elaborated may come to any state, and has no members to keep.
  have hhead {j : InstanceId} {v : InstanceState × Option MemberTable}
      (hj : j ∈ m.work.elaborating)
      (he : m'.engine.progress? = Function.update m.engine.progress? j (some v)) :
      ∃ s' t', m'.engine.progress? i = some (s', t') ∧ s.Precedes s' ∧ (t.isSome → t' = t) := by
    by_cases hij : i = j
    · subst hij
      have hhad := hi.symm.trans (H.elaborating hj)
      cases hhad
      exact ⟨v.1, v.2, by rw [he, Function.update_self], trivial, nofun⟩
    · exact hsame (by rw [he, Function.update_of_ne hij])
  cases h with
  | same he | wake _ _ _ he => exact hsame (congrFun he i)
  | make hnew he =>
    refine hsame ?_
    rw [he, Function.update_of_ne]
    rintro rfl
    rw [hnew] at hi
    cases hi
  | succeed hs _ he => exact hhead hs.mem_work he
  | fail he hw => exact hhead (hw ▸ List.mem_cons_self) he
  | @settle j s₀ s' t₀ hj hn hs he =>
    by_cases hij : i = j
    · subst hij
      obtain ⟨rfl, rfl⟩ := Prod.mk.inj (Option.some.inj (hi.symm.trans hj))
      exact ⟨s', t, by rw [he, Function.update_self], .of_ended hn hs, fun _ => rfl⟩
    · exact hsame (by rw [he, Function.update_of_ne hij])

/-- An instance has the members it had, and those of the elaboration that succeeds. -/
theorem members_iff (H : m.Held) (h : m.Evolves m') {u : MemberTable} :
    (∃ s, m'.engine.progress? i = some (s, some u)) ↔
      (∃ s, m.engine.progress? i = some (s, some u)) ∨ m.Succeeds i u := by
  have hsame (h : m'.engine.progress? i = m.engine.progress? i) (hn : ¬m.Succeeds i u) :
      (∃ s, m'.engine.progress? i = some (s, some u)) ↔
        (∃ s, m.engine.progress? i = some (s, some u)) ∨ m.Succeeds i u := by
    rw [h, or_iff_left hn]
  cases h with
  | same he _ _ hn | wake _ _ _ he _ _ hn => exact hsame (congrFun he i) (hn i u)
  | @make j hnew he _ _ hn =>
    by_cases hij : i = j
    · subst hij
      refine iff_of_false ?_ (not_or.mpr ⟨?_, hn i u⟩)
      · simp [he]
      · simp [hnew]
    · exact hsame (by rw [he, Function.update_of_ne hij]) (hn i u)
  | @succeed j t s hs _ he =>
    have hhad := H.elaborating hs.mem_work
    by_cases hij : i = j
    · subst hij
      rw [he, Function.update_self, hhad]
      constructor
      · rintro ⟨s', h⟩
        cases h
        exact .inr hs
      · rintro (⟨s', h⟩ | h)
        · cases h
        · exact ⟨s, by rw [(hs.unique h).2]⟩
    · exact hsame (by rw [he, Function.update_of_ne hij]) fun h => hij (hs.unique h).1
  | @fail j he hw _ hn =>
    have hhad := H.elaborating (hw ▸ List.mem_cons_self)
    by_cases hij : i = j
    · subst hij
      refine iff_of_false ?_ (not_or.mpr ⟨?_, hn i u⟩)
      · simp [he]
      · simp [hhad]
    · exact hsame (by rw [he, Function.update_of_ne hij]) (hn i u)
  | @settle j s s' t hj _ _ he _ _ hn =>
    by_cases hij : i = j
    · subst hij
      rw [he, Function.update_self, hj, or_iff_left (hn i u)]
      simp
    · exact hsame (by rw [he, Function.update_of_ne hij]) (hn i u)

end Evolves

end Machine

namespace Service

variable {svc : Service σ} {r : Run σ} {ws : List (Waiting σ α)} {call : Call} {e : Engine}
  {c : Control σ α} {m : Machine σ α}

theorem giveAnswer_work {a : Except TemplateError InstanceId} :
    (giveAnswer r call a ws).work = Role.workOf (ws.map (·.role)) := by
  cases ws <;> rfl

theorem openCall_work {c : Chain} {q : Request} :
    (openCall r c q ws).work = Role.workOf (ws.map (·.role)) :=
  congrArg Activity.toWork openCall_activity

theorem giveAnswer_evolves {st : Stage} {a : Except TemplateError InstanceId} {s : σ}
    (hwork : st.work.elaborating = [] ∧ st.work.resuming = [])
    (he : e.progress? = r.engine.progress?) :
    (⟨r, .stage st, ws⟩ : Machine σ α).Evolves (giveAnswer ⟨e, s⟩ call a ws) := by
  have hold : (⟨r, .stage st, ws⟩ : Machine σ α).work =
      st.work.inside (Role.workOf (ws.map (·.role))) := rfl
  refine .same ?_ ?_ ?_ Machine.not_succeeds_stage
  · cases ws with
    | nil => exact he
    | cons w ws => exact (closeGag_quiet e call.mark).progress?.trans he
  · rw [hold, giveAnswer_work, Work.inside, hwork.1, List.nil_append]
  · rw [hold, giveAnswer_work, Work.inside, hwork.2, List.nil_append]

theorem Steps.evolves (H : (⟨r, c, ws⟩ : Machine σ α).Held) (hl : r.engine.Linked)
    (h : svc.Steps r ws c m) : (⟨r, c, ws⟩ : Machine σ α).Evolves m := by
  cases h with
  | unresolved | refuse => exact giveAnswer_evolves ⟨rfl, rfl⟩ (Engine.reject_quiet ..).progress?
  | undeclared => cases ws <;> exact .same rfl rfl rfl Machine.not_succeeds_stage
  | answer _ ha => exact giveAnswer_evolves ⟨rfl, rfl⟩ (Engine.progress?_answer? ha)
  | finish => exact giveAnswer_evolves ⟨rfl, rfl⟩ rfl
  | resolve => exact .same rfl rfl rfl Machine.not_succeeds_stage
  | create =>
    have hnew : r.engine.progress? ⟨r.engine.insts.size⟩ = none :=
      Engine.progress?_eq_none_iff.mpr (Nat.le_refl _)
    exact .make hnew Engine.progress?_create rfl rfl Machine.not_succeeds_stage
  | openScope =>
    refine .same (Engine.progress?_modifyInst_of_same ?_) rfl rfl Machine.not_succeeds_stage
    exact fun _ => ⟨rfl, rfl⟩
  | elaborate | resume => exact .same rfl rfl rfl Machine.not_succeeds_stage
  | release => exact .same Engine.progress?_release rfl rfl Machine.not_succeeds_stage
  | wake h =>
    obtain ⟨x, hx, hstate, hwaiting⟩ := Engine.release_eq_true h
    refine .wake (t := x.members) ?_ List.mem_cons_self ?_ Engine.progress?_release rfl rfl
      Machine.not_succeeds_stage
    · rw [Engine.progress?_of_inst? hx, hstate]
    · change (r.engine.release _).2.arena.waitingOn _ = 0
      rw [Engine.waitingOn_release, Function.update_self,
        Arena.waitingOn_eq (Engine.arena_eq_some hx)]
      exact hwaiting
  | @suspend call p i members =>
    obtain ⟨s, hs, he⟩ := Engine.progress?_complete members (H.elaborating List.mem_cons_self)
    exact .succeed ⟨call, p, rfl⟩ hs he rfl rfl
  | @complete call p i members =>
    obtain ⟨s, hs, he⟩ := Engine.progress?_complete members (H.elaborating List.mem_cons_self)
    exact .succeed ⟨call, p, rfl⟩ hs (Engine.progress?_takeDeferred.trans he) rfl rfl
  | @fail call p i f names err e hf =>
    obtain rfl := congrArg Prod.snd hf
    exact .fail (Engine.progress?_takeDeferred.trans
      (Engine.progress?_fail (H.elaborating List.mem_cons_self))) rfl rfl
      fun _ _ ⟨_, _, h⟩ => (by cases h)
  | @settle call o w rest result names e hs =>
    subst hs
    obtain ⟨s, t, hw, hne⟩ := H.resuming List.mem_cons_self
    refine .settle hw hne ?_
      (Engine.progress?_takeDeferred.trans (Engine.progress?_settle hw)) rfl rfl
      fun _ _ ⟨_, _, h⟩ => (by cases h)
    cases result with
    | ok => exact .inl rfl
    | error => exact .inr rfl
  | done => exact .same rfl rfl rfl fun _ _ ⟨_, _, h⟩ => (by cases h)
  | halt | dangling | read | service =>
    exact .same rfl rfl rfl (Machine.not_succeeds_program nofun)
  | command hc =>
    exact .same (Command.run_quiet hl _ hc).progress? rfl rfl (Machine.not_succeeds_program nofun)
  | request =>
    exact .same openCall_quiet.progress? (congrArg Work.elaborating openCall_work)
      (congrArg Work.resuming openCall_work) (Machine.not_succeeds_program nofun)
  | unasked => exact .same rfl rfl rfl fun _ _ ⟨_, _, h⟩ => (by cases h)

/-! ## Runs -/

section

variable (svc) {config : EngineConfig} {s : σ} {p : Program σ α} {k n : Nat} {i : InstanceId}

theorem held_after (n : Nat) : (svc.after n (.boot config s p)).Held := by
  induction n with
  | zero => exact ⟨nofun, .nil, nofun⟩
  | succ n ih =>
    rw [after_succ]
    exact ((step_steps _).evolves ih (linked_after svc n)).held ih

theorem evolves_after (n : Nat) :
    (svc.after n (.boot config s p)).Evolves (svc.after (n + 1) (.boot config s p)) := by
  rw [after_succ]
  exact (step_steps _).evolves (held_after svc n) (linked_after svc n)

theorem progress_after (hk : k ≤ n) {st : InstanceState} {t : Option MemberTable}
    (hi : (svc.after k (.boot config s p)).engine.progress? i = some (st, t)) :
    ∃ st' t', (svc.after n (.boot config s p)).engine.progress? i = some (st', t') ∧
      st.Precedes st' ∧ (t.isSome → t' = t) := by
  induction n, hk using Nat.le_induction with
  | base => exact ⟨st, t, hi, .refl st, fun _ => rfl⟩
  | succ n _ ih =>
    obtain ⟨st₁, t₁, h₁, hst₁, ht₁⟩ := ih
    obtain ⟨st₂, t₂, h₂, hst₂, ht₂⟩ := (evolves_after svc n).progress (held_after svc n) h₁
    refine ⟨st₂, t₂, h₂, hst₁.trans hst₂, fun ht => ?_⟩
    have h := ht₁ ht
    exact (ht₂ (h ▸ ht)).trans h

/-- The members come from the elaboration. -/
theorem members_after_iff {u : MemberTable} :
    (∃ st, (svc.after n (.boot config s p)).engine.progress? i = some (st, some u)) ↔
      ∃ k < n, (svc.after k (.boot config s p)).Succeeds i u := by
  induction n with
  | zero => simp [Engine.progress?, Engine.inst?, after, Machine.boot, Machine.start]
  | succ n ih =>
    rw [(evolves_after svc n).members_iff (held_after svc n), ih]
    simp only [Nat.lt_succ_iff_lt_or_eq, or_and_right, exists_or, exists_eq_left]

/-- The elaboration of an instance succeeds once at most. -/
theorem succeeds_once {t u : MemberTable} (hk : (svc.after k (.boot config s p)).Succeeds i t)
    (hn : (svc.after n (.boot config s p)).Succeeds i u) : n ≤ k := by
  by_contra hlt
  obtain ⟨st, h⟩ := (members_after_iff svc).mpr ⟨k, Nat.lt_succ_self k, hk⟩
  obtain ⟨st', t', h', -, ht⟩ := progress_after svc (Nat.succ_le_of_lt (Nat.lt_of_not_le hlt)) h
  have hheld := (held_after svc n).elaborating hn.mem_work
  rw [h', ht rfl] at hheld
  cases hheld

end

end Service

end Templates
