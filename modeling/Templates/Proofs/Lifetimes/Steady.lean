import Templates.Proofs.Machine.Progress
import Templates.Proofs.Parking.Invariant

/-!
# Instances that stay as they ended

The counter of an instance is at least the number of its places among those that wait
(`Machine.Steady`), so an instance that goes on has none and is not released again. Only a request
whose chain begins with it can make it wait meanwhile (`Machine.Intrudes`). Without such a request an
instance that has ended keeps its state (`Service.ended_after`).
-/

namespace Templates

variable {σ α : Type}

namespace Arena

variable {a b : Arena} {i t : InstanceId}

/-- Only the list of `t` is changed. -/
theorem parkings_le (n : Nat) (h : ∀ u, u ≠ t → b.deferred u = a.deferred u) :
    b.parkings n i + (if i ∈ a.deferred t then 1 else 0) ≤
      a.parkings (max n (t.index + 1)) i + if i ∈ b.deferred t then 1 else 0 := by
  rw [← parkings_change (by omega) h]
  refine Nat.add_le_add_right ?_ _
  exact (List.range_sublist.mpr (Nat.le_max_left n _)).countP_le

end Arena

/-- A change that leaves alone who waits. -/
theorem Engine.waiting_of_alter {e e' : Engine} {i : InstanceId} {f : Instance → Instance}
    (h : e'.arena = e.arena.alter i f)
    (hf : ∀ x, (f x).deferred = x.deferred ∧ (f x).waitingOn = x.waitingOn) :
    e'.arena.deferred = e.arena.deferred ∧ e'.arena.waitingOn = e.arena.waitingOn := by
  rw [h]
  exact ⟨funext (Arena.deferred_alter fun x => (hf x).1), Arena.waitingOn_alter fun x => (hf x).2⟩

namespace Machine

/-- A planned call has a chain that begins with the instance. -/
def Extends (m : Machine σ α) (i : InstanceId) : Prop :=
  ∃ call resolved, m.control = .stage (.plan call resolved) ∧ Chain.innermost? call.chain = some i

/-- A planned call has a chain that begins with the instance, which is not there or goes on. -/
def Intrudes (m : Machine σ α) (i : InstanceId) : Prop :=
  m.Extends i ∧ (m.engine.inst? i = none ∨ i ∈ m.work.resuming)

/-- What a step means for the instances that wait: one begins to wait for another, those that wait for
one are taken, or the first of them is released. -/
inductive Shifts (m m' : Machine σ α) : Prop
  | same : m'.engine.arena.deferred = m.engine.arena.deferred →
    m'.engine.arena.waitingOn = m.engine.arena.waitingOn → m'.work.pending = m.work.pending →
    Shifts m m'
  | defer {i t : InstanceId} : m.Extends i → i ∉ m.engine.arena.deferred t →
    m'.engine.arena.deferred =
      Function.update m.engine.arena.deferred t (m.engine.arena.deferred t ++ [i]) →
    (∀ j, j ≠ i → m'.engine.arena.waitingOn j = m.engine.arena.waitingOn j) →
    (m.engine.inst? i ≠ none → m'.engine.arena.waitingOn i = m.engine.arena.waitingOn i + 1) →
    m'.work.pending = m.work.pending → Shifts m m'
  | take {t : InstanceId} :
    m'.engine.arena.deferred = Function.update m.engine.arena.deferred t [] →
    m'.engine.arena.waitingOn = m.engine.arena.waitingOn →
    m'.work.pending = (m.engine.arena.deferred t).reverse ++ m.work.pending → Shifts m m'
  | release {i : InstanceId} : m'.engine.arena.deferred = m.engine.arena.deferred →
    m'.engine.arena.waitingOn =
      Function.update m.engine.arena.waitingOn i (m.engine.arena.waitingOn i - 1) →
    m.work.pending = i :: m'.work.pending → Shifts m m'

/-- An instance does not wait in more places than it counts, and goes on once at a time. -/
structure Steady (m : Machine σ α) (i : InstanceId) : Prop where
  once (t : InstanceId) : (m.engine.arena.deferred t).count i ≤ 1
  places (n : Nat) :
    m.engine.arena.parkings n i + m.work.pending.count i ≤ m.engine.arena.waitingOn i
  single : m.work.resuming.count i ≤ 1
  resuming : i ∈ m.work.resuming → (∃ t, m.engine.progress? i = some (.suspended, t)) ∧
    m.engine.arena.waitingOn i = 0

variable {m m' : Machine σ α} {i : InstanceId}

theorem Shifts.waitingOn_le (h : m.Shifts m') :
    m'.engine.arena.waitingOn i ≤ m.engine.arena.waitingOn i ∨ m.Extends i := by
  cases h with
  | same _ hw | take _ hw => exact .inl (hw ▸ Nat.le_refl _)
  | @defer j t hc _ _ hw =>
    by_cases hij : i = j
    · exact .inr (hij ▸ hc)
    · exact .inl (hw i hij ▸ Nat.le_refl _)
  | @release j _ hw =>
    left
    rw [hw]
    by_cases hij : i = j
    · subst hij
      rw [Function.update_self]
      exact Nat.sub_le ..
    · rw [Function.update_of_ne hij]

/-- Nobody begins to wait for an instance twice. -/
theorem Shifts.count_le_one (h : m.Shifts m')
    (once : ∀ t, (m.engine.arena.deferred t).count i ≤ 1) (t : InstanceId) :
    (m'.engine.arena.deferred t).count i ≤ 1 := by
  cases h with
  | same hd | release hd => exact hd ▸ once t
  | @defer j u _ hj hd =>
    rw [hd]
    by_cases htu : t = u
    · subst htu
      rw [Function.update_self, List.count_append, List.count_singleton]
      by_cases hij : j = i
      · subst hij
        rw [List.count_eq_zero.mpr hj]
        split <;> omega
      · simpa [hij] using once t
    · rw [Function.update_of_ne htu]
      exact once t
  | @take u hd =>
    rw [hd]
    by_cases htu : t = u
    · subst htu
      rw [Function.update_self]
      exact Nat.zero_le 1
    · rw [Function.update_of_ne htu]
      exact once t

/-- The places where an instance waits or is to be released grow by no more than its counter does. They
are counted as far as the list that has changed. -/
theorem Shifts.balance (h : m.Shifts m') (hi : m.Extends i → m.engine.inst? i ≠ none)
    (once : ∀ t, (m.engine.arena.deferred t).count i ≤ 1) (n : Nat) : ∃ l, n ≤ l ∧
      m'.engine.arena.parkings n i + m'.work.pending.count i + m.engine.arena.waitingOn i ≤
        m'.engine.arena.waitingOn i + m.engine.arena.parkings l i + m.work.pending.count i := by
  have hcongr (hd : m'.engine.arena.deferred = m.engine.arena.deferred) :
      m'.engine.arena.parkings n i = m.engine.arena.parkings n i :=
    Arena.parkings_congr fun t _ => by rw [hd]
  cases h with
  | same hd hw hp =>
    refine ⟨n, Nat.le_refl n, ?_⟩
    rw [hcongr hd, hp, hw]
    omega
  | @defer j t hc hj hd hw hw' hp =>
    have hle := Arena.parkings_le (i := i) n fun u hu =>
      (congrFun hd u).trans (Function.update_of_ne hu ..)
    refine ⟨_, Nat.le_max_left n (t.index + 1), ?_⟩
    rw [hd, Function.update_self] at hle
    rw [hp]
    by_cases hij : i = j
    · subst hij
      rw [if_neg hj, if_pos (by simp)] at hle
      rw [hw' (hi hc)]
      omega
    · have hmem : i ∈ m.engine.arena.deferred t ++ [j] ↔ i ∈ m.engine.arena.deferred t := by
        simp [hij]
      simp only [hmem] at hle
      rw [hw i hij]
      omega
  | @take t hd hw hp =>
    have hle := Arena.parkings_le (i := i) n fun u hu =>
      (congrFun hd u).trans (Function.update_of_ne hu ..)
    refine ⟨_, Nat.le_max_left n (t.index + 1), ?_⟩
    have hcount : (m.engine.arena.deferred t).count i ≤
        if i ∈ m.engine.arena.deferred t then 1 else 0 := by
      split
      · exact once t
      · next h => exact (List.count_eq_zero.mpr h).le
    rw [hd, Function.update_self, if_neg List.not_mem_nil] at hle
    rw [hp, hw, List.count_append, List.count_reverse]
    omega
  | @release j hd hw hp =>
    refine ⟨n, Nat.le_refl n, ?_⟩
    rw [hcongr hd, hw, hp, List.count_cons]
    by_cases hij : i = j
    · subst hij
      rw [Function.update_self, if_pos (beq_self_eq_true i)]
      omega
    · rw [Function.update_of_ne hij]
      omega

namespace Steady

theorem shift_places (H : m.Steady i) (h : m.Shifts m') (hn : ¬m.Intrudes i) (n : Nat) :
    m'.engine.arena.parkings n i + m'.work.pending.count i ≤ m'.engine.arena.waitingOn i := by
  obtain ⟨l, -, hle⟩ := h.balance (fun hc h => hn ⟨hc, .inl h⟩) H.once n
  have := H.places l
  omega

/-- An instance that goes on waits for nothing meanwhile. -/
theorem shift_waitingOn (H : m.Steady i) (h : m.Shifts m') (hn : ¬m.Intrudes i)
    (hi : i ∈ m.work.resuming) : m'.engine.arena.waitingOn i = 0 := by
  have hle := h.waitingOn_le.resolve_right fun hc => hn ⟨hc, .inr hi⟩
  rw [(H.resuming hi).2] at hle
  exact Nat.le_zero.mp hle

theorem step (H : m.Steady i) (Hh : m.Held) (h : m.Evolves m') (hs : m.Shifts m')
    (hn : ¬m.Intrudes i) : m'.Steady i := by
  have hw : i ∈ m.work.resuming → m'.engine.arena.waitingOn i = 0 := H.shift_waitingOn hs hn
  -- An instance that goes on is not elaborated.
  have hne {j : InstanceId} (hj : j ∈ m.work.elaborating) (hi : i ∈ m.work.resuming) : i ≠ j := by
    rintro rfl
    obtain ⟨t, ht⟩ := (H.resuming hi).1
    cases ht.symm.trans (Hh.elaborating hj)
  refine ⟨hs.count_le_one H.once, H.shift_places hs hn, ?_, ?_⟩
  · cases h with
    | same _ _ hr | make _ _ _ hr | succeed _ _ _ _ hr | fail _ _ hr => exact hr ▸ H.single
    | @wake j t _ hp _ _ _ hr =>
      rw [hr, List.count_cons]
      by_cases hij : j = i
      · subst hij
        have hnot : j ∉ m.work.resuming := fun hi => by
          have := H.places 0
          have := List.count_pos_iff.mpr hp
          have := (H.resuming hi).2
          omega
        rw [List.count_eq_zero.mpr hnot]
        split <;> omega
      · simpa [hij] using H.single
    | settle _ _ _ _ _ hr => exact (List.count_le_count_cons ..).trans (hr ▸ H.single)
  · intro hi
    cases h with
    | same he _ hr =>
      rw [hr] at hi
      exact ⟨he ▸ (H.resuming hi).1, hw hi⟩
    | @make j hnew he _ hr =>
      rw [hr] at hi
      obtain ⟨t, ht⟩ := (H.resuming hi).1
      refine ⟨⟨t, ?_⟩, hw hi⟩
      rw [he, Function.update_of_ne, ht]
      rintro rfl
      cases ht.symm.trans hnew
    | succeed hd _ he _ hr =>
      rw [hr] at hi
      rw [he, Function.update_of_ne (hne hd.mem_work hi)]
      exact ⟨(H.resuming hi).1, hw hi⟩
    | fail he hl hr =>
      rw [hr] at hi
      rw [he, Function.update_of_ne (hne (hl ▸ List.mem_cons_self) hi)]
      exact ⟨(H.resuming hi).1, hw hi⟩
    | @wake j t ht _ hz he _ hr =>
      rw [hr] at hi
      rw [he]
      obtain rfl | hi := List.mem_cons.mp hi
      · exact ⟨⟨t, ht⟩, hz⟩
      · exact ⟨(H.resuming hi).1, hw hi⟩
    | @settle j _ _ _ _ _ _ he _ hr =>
      have hold : i ∈ m.work.resuming := hr ▸ List.mem_cons_of_mem j hi
      have hij : i ≠ j := by
        rintro rfl
        have := H.single
        rw [hr, List.count_cons_self] at this
        have := List.count_pos_iff.mpr hi
        omega
      rw [he, Function.update_of_ne hij]
      exact ⟨(H.resuming hold).1, hw hold⟩

/-- An instance that has ended keeps its state. -/
theorem ended (H : m.Steady i) (Hh : m.Held) (h : m.Evolves m') {s : InstanceState}
    {t : Option MemberTable} (hs : s = .complete ∨ s = .errored)
    (hi : m.engine.progress? i = some (s, t)) : m'.engine.progress? i = some (s, t) := by
  refine h.out_of_hand Hh ?_ hi fun hr => ?_
  · rintro rfl
    simp at hs
  · obtain ⟨t', ht'⟩ := (H.resuming hr).1
    cases hi.symm.trans ht'
    simp at hs

end Steady

end Machine

namespace Service

variable {svc : Service σ} {r : Run σ} {ws : List (Waiting σ α)} {c : Control σ α}
  {m : Machine σ α} {call : Call} {e : Engine}

theorem giveAnswer_shifts {st : Stage} {a : Except TemplateError InstanceId} {s : σ}
    (hst : st.work.pending = []) (he : r.engine.Quiet e) :
    (⟨r, .stage st, ws⟩ : Machine σ α).Shifts (giveAnswer ⟨e, s⟩ call a ws) := by
  have harena : (giveAnswer ⟨e, s⟩ call a ws).engine.arena = r.engine.arena := by
    cases ws with
    | nil => exact he.arena
    | cons w ws => exact (he.trans (closeGag_quiet e call.mark)).arena
  refine .same (by rw [harena]) (by rw [harena]) ?_
  rw [giveAnswer_work]
  change _ = st.work.pending ++ _
  rw [hst]
  rfl

/-- The head of the chain begins to wait for the instance of a frame, if it does not yet. -/
theorem shifts_defer {resolved : List Arg} {a : Except TemplateError InstanceId} {s : σ}
    {i t : InstanceId} (hi : Chain.innermost? call.chain = some i) :
    (⟨r, .stage (.plan call resolved), ws⟩ : Machine σ α).Shifts
      (giveAnswer ⟨r.engine.defer i t, s⟩ call a ws) := by
  have harena : (giveAnswer ⟨r.engine.defer i t, s⟩ call a ws).engine.arena =
      (r.engine.defer i t).arena := by
    cases ws with
    | nil => rfl
    | cons w ws => exact (closeGag_quiet _ call.mark).arena
  have hpending : (giveAnswer ⟨r.engine.defer i t, s⟩ call a ws).work.pending =
      (⟨r, .stage (.plan call resolved), ws⟩ : Machine σ α).work.pending :=
    congrArg Work.pending giveAnswer_work
  by_cases ht : t.index < r.engine.insts.size
  · by_cases hm : i ∈ r.engine.arena.deferred t
    · have hsame : (r.engine.defer i t).arena = r.engine.arena := by
        rw [Engine.arena_defer ht, if_pos hm]
      exact .same (by rw [harena, hsame]) (by rw [harena, hsame]) hpending
    · refine .defer ⟨call, resolved, rfl, hi⟩ hm ?_ ?_ ?_ hpending
      · rw [harena, Engine.deferred_defer ht hm]
      · intro j hj
        rw [harena, Engine.waitingOn_defer ht hm, Function.update_of_ne hj]
      · intro hthere
        obtain ⟨x, hx⟩ := Option.ne_none_iff_exists'.mp hthere
        have hx := Engine.arena_eq_some hx
        rw [harena, Engine.waitingOn_defer ht hm, Function.update_self, hx, Arena.waitingOn_eq hx]
        rfl
  · rw [Engine.defer_of_none ht]
    exact giveAnswer_shifts rfl (.refl _)

/-- An instance has ended, and those that wait for it are taken. -/
theorem shifts_take {role : Role} {p : Program σ (role.Result α)} {e : Engine} {s : σ} {o : Outcome}
    {w : InstanceId} {pending : List InstanceId} {f : Instance → Instance}
    (h : e.arena = r.engine.arena.alter w f)
    (hf : ∀ x, (f x).deferred = x.deferred ∧ (f x).waitingOn = x.waitingOn)
    (hp : pending = (e.takeDeferred w).1.reverse ++ role.work.pending) :
    (⟨r, .program role p, ws⟩ : Machine σ α).Shifts
      ⟨⟨(e.takeDeferred w).2, s⟩, .stage (.release call o pending), ws⟩ := by
  obtain ⟨hd, hw⟩ := Engine.waiting_of_alter h hf
  refine .take (t := w) ?_ (Engine.waitingOn_takeDeferred.trans hw) ?_
  · rw [Engine.deferred_takeDeferred, hd]
  · change pending ++ (Role.workOf _).pending =
      _ ++ (role.work.pending ++ (Role.workOf _).pending)
    rw [hp, Engine.takeDeferred_fst, hd, List.append_assoc]
    rfl

theorem Steps.shifts (hl : r.engine.Linked) (h : svc.Steps r ws c m) :
    (⟨r, c, ws⟩ : Machine σ α).Shifts m := by
  have hquiet {e : Engine} {c c' : Control σ α} {s : σ} (he : r.engine.Quiet e)
      (hp : (⟨⟨e, s⟩, c', ws⟩ : Machine σ α).work.pending = (⟨r, c, ws⟩ : Machine σ α).work.pending) :
      (⟨r, c, ws⟩ : Machine σ α).Shifts ⟨⟨e, s⟩, c', ws⟩ :=
    .same (by rw [he.arena]) (by rw [he.arena]) hp
  cases h with
  | unresolved | refuse => exact giveAnswer_shifts rfl (Engine.reject_quiet ..)
  | undeclared => cases ws <;> exact .same rfl rfl rfl
  | @answer call resolved p s a e _ ha =>
    obtain h | ⟨f, -, i, hi, -, rfl⟩ := Engine.answer?_cases ha
    · exact giveAnswer_shifts rfl h
    · exact shifts_defer hi
  | finish => exact giveAnswer_shifts rfl (.refl _)
  | resolve => exact .same rfl rfl rfl
  | create =>
    obtain ⟨hd, hw⟩ := Engine.waiting_create
    exact .same hd hw rfl
  | openScope => exact hquiet (.modifyInst fun _ => rfl) rfl
  | elaborate | resume => exact .same rfl rfl rfl
  | release | wake =>
    exact .release (funext (Engine.deferred_release _ _)) Engine.waitingOn_release rfl
  | suspend =>
    obtain ⟨hd, hw⟩ := Engine.waiting_of_alter Engine.arena_complete fun _ => ⟨rfl, rfl⟩
    exact .same hd hw rfl
  | complete =>
    refine shifts_take Engine.arena_complete ?_ (List.append_nil _).symm
    exact fun _ => ⟨rfl, rfl⟩
  | fail hf =>
    obtain rfl := congrArg Prod.snd hf
    refine shifts_take Engine.arena_fail ?_ (List.append_nil _).symm
    exact fun _ => ⟨rfl, rfl⟩
  | settle hs =>
    subst hs
    refine shifts_take Engine.arena_settle ?_ rfl
    exact fun _ => ⟨rfl, rfl⟩
  | command hc => exact hquiet (Command.run_quiet hl _ hc) rfl
  | @request role c q k =>
    have harena : (openCall r c q (⟨role, k⟩ :: ws)).engine.arena = r.engine.arena :=
      openCall_quiet.arena
    exact .same (by rw [harena]) (by rw [harena]) (congrArg Work.pending openCall_work)
  | done | halt | dangling | read | service | unasked => exact .same rfl rfl rfl

/-! ## Runs -/

section

variable (svc) {config : EngineConfig} {s : σ} {p : Program σ α} {i : InstanceId} {k n : Nat}

theorem shifts_after (n : Nat) :
    (svc.after n (.boot config s p)).Shifts (svc.after (n + 1) (.boot config s p)) := by
  rw [after_succ]
  exact (step_steps _).shifts (linked_after svc n)

theorem steady_after (hn : ∀ k < n, ¬(svc.after k (.boot config s p)).Intrudes i) :
    (svc.after n (.boot config s p)).Steady i := by
  induction n with
  | zero =>
    refine ⟨fun t => Nat.zero_le 1, fun k => ?_, Nat.zero_le 1, nofun⟩
    have hpark : (svc.after 0 (.boot config s p)).engine.arena.parkings k i = 0 :=
      List.countP_eq_zero.mpr fun t _ h => nomatch of_decide_eq_true h
    rw [hpark]
    exact Nat.zero_le 0
  | succ n ih =>
    have H := ih fun k hk => hn k (Nat.lt_succ_of_lt hk)
    exact H.step (held_after svc n) (evolves_after svc n) (shifts_after svc n)
      (hn n (Nat.lt_succ_self n))

/-- An instance that has ended keeps its state and its members. -/
theorem ended_after (hk : k ≤ n) (hn : ∀ l < n, ¬(svc.after l (.boot config s p)).Intrudes i)
    {st : InstanceState} {t : Option MemberTable} (hst : st = .complete ∨ st = .errored)
    (hi : (svc.after k (.boot config s p)).engine.progress? i = some (st, t)) :
    (svc.after n (.boot config s p)).engine.progress? i = some (st, t) := by
  induction n, hk using Nat.le_induction with
  | base => exact hi
  | succ n _ ih =>
    have hn' (l : Nat) (hl : l < n) := hn l (Nat.lt_succ_of_lt hl)
    exact (steady_after svc hn').ended (held_after svc n) (evolves_after svc n) hst (ih hn')

variable {svc}

/-- Chains that are handed on begin with what is being elaborated. -/
theorem not_intrudes (hsvc : svc.HandsOn) (hp : p.Hands []) (n : Nat) (i : InstanceId) :
    ¬(svc.after n (.boot config s p)).Intrudes i := by
  rintro ⟨⟨call, resolved, hcontrol, hi⟩, hthere⟩
  have H : (svc.after n (.boot config s p)).Handed := handed_after hsvc hp n
  have Hh : (svc.after n (.boot config s p)).Held := held_after svc n
  have hmem : i ∈ (svc.after n (.boot config s p)).work.elaborating := by
    have hpre := H.nested.chain_prefix (H.call hcontrol)
    have hwork : (svc.after n (.boot config s p)).work.elaborating =
        (Role.workOf (svc.after n (.boot config s p)).roles).elaborating := by
      rw [Machine.work, hcontrol]
      rfl
    rw [hwork]
    refine hpre.subset ?_
    obtain ⟨f, hf, rfl⟩ := Option.map_eq_some_iff.mp hi
    exact List.mem_map_of_mem (List.mem_of_mem_head? hf)
  have hprogress := Hh.elaborating hmem
  obtain hnone | hresuming := hthere
  · rw [Engine.progress?, hnone] at hprogress
    cases hprogress
  · obtain ⟨_, _, hs, hne⟩ := Hh.resuming hresuming
    cases hs.symm.trans hprogress
    exact hne rfl

end

end Service

end Templates
