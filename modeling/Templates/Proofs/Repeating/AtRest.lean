import Templates.Proofs.Failing.Discards
import Templates.Proofs.Lifetimes.Steady

/-!
# What is there at the top stays

When nothing but the client goes on, no instance is being elaborated and one that is suspended waits
for something (`Machine.Busy`, `Machine.Awake`). Instances that are made later may make it wait for
them and release it again, but what it waits for at the top is never released: every instance that is
there at the top keeps its state (`Service.progress_of_atTop`), whatever chains requests are made with.
-/

namespace Templates

variable {σ α : Type}

/-- Of the instances that are suspended and wait for nothing all are in hand. -/
def Arena.Awake (a : Arena) (hand : List InstanceId) : Prop :=
  ∀ ⦃i x⦄, a i = some x → x.state = .suspended → x.waitingOn = 0 → i ∈ hand

section

variable {a a' : Arena} {hand hand' : List InstanceId} {i : InstanceId} {f : Instance → Instance}

/-- One instance is changed. -/
theorem Arena.Awake.change (H : a.Awake hand) (ha : ∀ j, j ≠ i → a' j = a j)
    (hi : ∀ x, a' i = some x → x.state = .suspended → x.waitingOn = 0 → i ∈ hand')
    (hh : ∀ j ∈ hand, j ≠ i → j ∈ hand') : a'.Awake hand' := by
  intro j x hx hs hw
  by_cases hj : j = i
  · subst hj
    exact hi x hx hs hw
  · exact hh j (H (ha j hj ▸ hx) hs hw) hj

theorem Arena.Awake.alter (H : a.Awake hand)
    (hf : ∀ x, a i = some x → (f x).state = .suspended → (f x).waitingOn = 0 → i ∈ hand')
    (hh : ∀ j ∈ hand, j ≠ i → j ∈ hand') : (a.alter i f).Awake hand' := by
  refine H.change (fun j hj => Function.update_of_ne hj ..) (fun y hy => ?_) hh
  obtain ⟨x, hx, ⟨hne, -⟩ | ⟨-, rfl⟩⟩ := Arena.alter_eq_some hy
  · exact absurd rfl hne
  · exact hf x hx

end

namespace Arena

variable {a b : Arena} {n l : Nat} {i : InstanceId}

theorem parkings_mono (h : ∀ t : InstanceId, t.index < n → a.deferred t ⊆ b.deferred t) :
    a.parkings n i ≤ b.parkings n i := by
  refine List.countP_mono_left fun t ht hi => ?_
  exact decide_eq_true (h ⟨t⟩ (List.mem_range.mp ht) (of_decide_eq_true hi))

/-- Nobody waits for what is not there. -/
theorem parkings_of_le (h : ∀ t : InstanceId, n ≤ t.index → a.deferred t = []) (hl : n ≤ l) :
    a.parkings l i = a.parkings n i := by
  induction l, hl using Nat.le_induction with
  | base => rfl
  | succ l hl ih =>
    unfold parkings at ih ⊢
    rw [List.range_succ, List.countP_append, ih, List.countP_singleton, h ⟨l⟩ hl]
    simp

end Arena

theorem Engine.state?_eq_progress? (e : Engine) (i : InstanceId) :
    e.arena.state? i = (e.progress? i).map Prod.fst := by
  rw [progress?_arena, Option.map_map]
  rfl

/-- The instance is in its cache with this key, and has not failed. -/
structure Engine.Stores (e : Engine) (key : DeclId × List Arg × Option ScopeId) (i : InstanceId) :
    Prop where
  cached : e.Caches i
  keyed : (e.origins i).map Instance.key = some key
  unfailed : e.arena.state? i ≠ some .errored

namespace Machine

/-- What is in the state of elaboration is in hand. -/
def Busy (m : Machine σ α) : Prop :=
  ∀ ⦃i t⦄, m.engine.progress? i = some (.elaborating, t) → i ∈ m.work.elaborating

/-- A suspended instance that waits for nothing goes on. -/
def Awake (m : Machine σ α) : Prop := m.engine.arena.Awake m.work.resuming

/-- Nobody waits twice for an instance. -/
def Once (m : Machine σ α) : Prop := ∀ t, (m.engine.arena.deferred t).Nodup

/-- The first `n` instances are at rest. None of them is in hand, and one that is suspended has more to
wait for than those that were made later. -/
structure Rests (m : Machine σ α) (n : Nat) : Prop where
  made {i : InstanceId} : i.index < n → m.engine.progress? i ≠ none
  elaborating : ∀ i ∈ m.work.elaborating, n ≤ i.index
  resuming : ∀ i ∈ m.work.resuming, n ≤ i.index
  waits {i : InstanceId} {t : Option MemberTable} : i.index < n →
    m.engine.progress? i = some (.suspended, t) → ∀ l, n ≤ l →
      m.engine.arena.parkings l i + m.work.pending.count i <
        m.engine.arena.waitingOn i + m.engine.arena.parkings n i

variable {m m' : Machine σ α} {i : InstanceId} {n : Nat}

theorem Evolves.busy (H : m.Busy) (h : m.Evolves m') : m'.Busy := by
  intro i t hi
  -- The instance that a step is about leaves the work in hand with another state.
  have hother {j : InstanceId} {v : InstanceState × Option MemberTable}
      (he : m'.engine.progress? = Function.update m.engine.progress? j (some v))
      (hv : v.1 ≠ .elaborating) : i ≠ j ∧ i ∈ m.work.elaborating := by
    by_cases hij : i = j
    · subst hij
      rw [he, Function.update_self] at hi
      cases hi
      exact absurd rfl hv
    · rw [he, Function.update_of_ne hij] at hi
      exact ⟨hij, H hi⟩
  cases h with
  | same he hw | wake _ _ _ he hw =>
    rw [he] at hi
    exact hw ▸ H hi
  | @make j _ he hw =>
    rw [hw]
    by_cases hij : i = j
    · exact hij ▸ List.mem_cons_self
    · rw [he, Function.update_of_ne hij] at hi
      exact List.mem_cons_of_mem j (H hi)
  | succeed _ hs he hw =>
    have hne := hother he (by rintro rfl; simp at hs)
    exact (List.mem_cons.mp (hw ▸ hne.2)).resolve_left hne.1
  | fail he hw =>
    have hne := hother he nofun
    exact (List.mem_cons.mp (hw ▸ hne.2)).resolve_left hne.1
  | settle _ _ hs he hw =>
    have hne := hother he (by rintro rfl; simp at hs)
    exact hw ▸ hne.2

theorem Shifts.once (H : m.Once) (h : m.Shifts m') : m'.Once := fun t =>
  List.nodup_iff_count_le_one.mpr fun i =>
    h.count_le_one (fun u => List.nodup_iff_count_le_one.mp (H u) i) t

namespace Rests

theorem progress (H : m.Rests n) (h : m.Evolves m') (hi : i.index < n) :
    m'.engine.progress? i = m.engine.progress? i := by
  have hlater {j : InstanceId} (hj : n ≤ j.index) : i ≠ j := by
    rintro rfl
    omega
  cases h with
  | same he | wake _ _ _ he => exact congrFun he i
  | make hnew he =>
    rw [he, Function.update_of_ne]
    rintro rfl
    exact H.made hi hnew
  | succeed hs _ he => rw [he, Function.update_of_ne (hlater (H.elaborating _ hs.mem_work))]
  | fail he hw =>
    rw [he, Function.update_of_ne (hlater (H.elaborating _ (hw ▸ List.mem_cons_self)))]
  | settle _ _ _ he _ hr =>
    rw [he, Function.update_of_ne (hlater (H.resuming _ (hr ▸ List.mem_cons_self)))]

/-- What an old instance waits for is only released if it was made later. -/
theorem shift (H : m.Rests n) (Ho : m.Once) (h : m.Shifts m')
    (hold : ∀ t : InstanceId, t.index < n →
      m.engine.arena.deferred t ⊆ m'.engine.arena.deferred t)
    (hi : i.index < n) {t : Option MemberTable}
    (hs : m.engine.progress? i = some (.suspended, t)) (l : Nat) (hl : n ≤ l) :
    m'.engine.arena.parkings l i + m'.work.pending.count i <
      m'.engine.arena.waitingOn i + m'.engine.arena.parkings n i := by
  have hmono : m.engine.arena.parkings n i ≤ m'.engine.arena.parkings n i :=
    Arena.parkings_mono hold
  have hthere : m.engine.inst? i ≠ none := fun h => H.made hi (by rw [Engine.progress?, h]; rfl)
  obtain ⟨l', hl', hle⟩ :=
    h.balance (fun _ => hthere) (fun t => List.nodup_iff_count_le_one.mp (Ho t) i) l
  have := H.waits hi hs l' (hl.trans hl')
  omega

theorem step (H : m.Rests n) (Ho : m.Once) (h : m.Evolves m') (hs : m.Shifts m')
    (hold : ∀ t : InstanceId, t.index < n →
      m.engine.arena.deferred t ⊆ m'.engine.arena.deferred t) : m'.Rests n := by
  have hwaits {i : InstanceId} {t : Option MemberTable} (hi : i.index < n)
      (ht : m'.engine.progress? i = some (.suspended, t)) := H.shift Ho hs hold hi (H.progress h hi ▸ ht)
  refine ⟨fun hi => H.progress h hi ▸ H.made hi, fun i hi => ?_, fun i hi => ?_, hwaits⟩
  · cases h with
    | same _ hw | wake _ _ _ _ hw | settle _ _ _ _ hw => exact H.elaborating i (hw ▸ hi)
    | @make j hnew _ hw =>
      rw [hw] at hi
      obtain rfl | hi := List.mem_cons.mp hi
      · exact Nat.le_of_not_lt fun hlt => H.made hlt hnew
      · exact H.elaborating i hi
    | @succeed j _ _ _ _ _ hw | @fail j _ hw =>
      exact H.elaborating i (hw ▸ List.mem_cons_of_mem j hi)
  · cases h with
    | same _ _ hr | make _ _ _ hr | succeed _ _ _ _ hr | fail _ _ hr =>
      exact H.resuming i (hr ▸ hi)
    | @wake j t hsus _ hz he _ hr =>
      rw [hr] at hi
      obtain rfl | hi := List.mem_cons.mp hi
      · by_contra hlt
        have := hwaits (Nat.lt_of_not_le hlt) (he ▸ hsus) n (Nat.le_refl n)
        omega
      · exact H.resuming i hi
    | @settle j _ _ _ _ _ _ _ _ hr => exact H.resuming i (hr ▸ List.mem_cons_of_mem j hi)

end Rests

end Machine

namespace Service

variable {svc : Service σ} {r : Run σ} {ws : List (Waiting σ α)} {c : Control σ α}
  {m : Machine σ α} {i t : InstanceId}

theorem giveAnswer_awake {st : Stage} {call : Call} {e : Engine} {s : σ}
    {a : Except TemplateError InstanceId}
    (H : e.arena.Awake (⟨r, .stage st, ws⟩ : Machine σ α).work.resuming)
    (hst : st.work.resuming = []) :
    (giveAnswer ⟨e, s⟩ call a ws).Awake := by
  have hwork : (⟨r, .stage st, ws⟩ : Machine σ α).work.resuming =
      st.work.resuming ++ (Role.workOf (ws.map (·.role))).resuming := rfl
  rw [hwork, hst, List.nil_append] at H
  rw [Machine.Awake, arena_giveAnswer, giveAnswer_work]
  exact H

theorem Steps.awake (H : (⟨r, c, ws⟩ : Machine σ α).Awake) (hl : r.engine.Linked)
    (h : svc.Steps r ws c m) : m.Awake := by
  have hquiet {e : Engine} (he : r.engine.Quiet e) :
      e.arena.Awake (⟨r, c, ws⟩ : Machine σ α).work.resuming := he.arena ▸ H
  cases h with
  | unresolved | refuse => exact giveAnswer_awake (hquiet (Engine.reject_quiet ..)) rfl
  | undeclared => cases ws <;> exact H
  | @answer call resolved p s a e _ ha =>
    have hawake :
        e.arena.Awake (⟨r, .stage (.plan call resolved), ws⟩ : Machine σ α).work.resuming := by
      obtain h | ⟨f, -, i, -, -, rfl⟩ := Engine.answer?_cases ha
      · exact hquiet h
      by_cases ht : f.inst.index < r.engine.insts.size
      · rw [Engine.arena_defer ht]
        split
        · exact H
        · refine Arena.Awake.alter (H.alter (fun x hx => H (x := x) hx) fun _ hj _ => hj)
            (fun x _ _ hw => ?_) fun _ hj _ => hj
          exact absurd hw (Nat.succ_ne_zero x.waitingOn)
      · rw [Engine.defer_of_none ht]
        exact H
    exact giveAnswer_awake hawake rfl
  | finish => exact giveAnswer_awake H rfl
  | resolve | elaborate | resume => exact H
  | create =>
    rw [Machine.Awake, Engine.arena_create]
    refine H.change (fun j hj => Arena.put_of_ne hj) (fun x hx hs => ?_) fun _ hj _ => hj
    rw [Arena.put_self] at hx
    cases hx
    cases hs
  | openScope =>
    refine hquiet (.modifyInst ?_)
    exact fun _ => rfl
  | @release call o w rest hno =>
    rw [Machine.Awake, Engine.arena_release]
    refine H.alter (fun x hx hs hw => ?_) fun _ hj _ => hj
    by_cases hz : x.waitingOn = 0
    · exact H hx hs hz
    · have hstate : r.engine.arena.state? w = some x.state := Arena.state?_eq hx
      have hwaiting : r.engine.arena.waitingOn w = x.waitingOn := Arena.waitingOn_eq hx
      change x.state = .suspended at hs
      change x.waitingOn - 1 = 0 at hw
      refine absurd ((Engine.release_fst_iff ?_).mpr ⟨?_, ?_⟩) (Bool.eq_false_iff.mp hno)
      · omega
      · rw [hstate, hs]
      · omega
  | wake =>
    rw [Machine.Awake, Engine.arena_release]
    exact H.alter (fun _ _ _ _ => List.mem_cons_self) fun j hj _ => List.mem_cons_of_mem _ hj
  | suspend =>
    rw [Machine.Awake, Engine.arena_complete]
    refine H.alter (fun x _ hs hw => ?_) fun _ hj _ => hj
    change (if 0 < x.waitingOn then _ else _) = _ at hs
    change x.waitingOn = 0 at hw
    simp [hw] at hs
  | complete =>
    rw [Machine.Awake, Engine.arena_takeDeferred, Engine.arena_complete, Arena.alter_alter]
    refine H.alter (fun x _ hs hw => ?_) fun _ hj _ => hj
    change (if 0 < x.waitingOn then _ else _) = _ at hs
    change x.waitingOn = 0 at hw
    simp [hw] at hs
  | fail hf =>
    obtain rfl := congrArg Prod.snd hf
    rw [Machine.Awake, Engine.arena_takeDeferred, Engine.arena_fail, Arena.alter_alter]
    refine H.alter (fun x _ hs => ?_) fun _ hj _ => hj
    change InstanceState.errored = .suspended at hs
    cases hs
  | @settle _ _ w _ result _ _ hs =>
    subst hs
    rw [Machine.Awake, Engine.arena_takeDeferred, Engine.arena_settle, Arena.alter_alter]
    refine H.alter (fun x _ hs => ?_) fun j hj hne => (List.mem_cons.mp hj).resolve_left hne
    cases result <;> cases hs
  | command hc => exact hquiet (Command.run_quiet hl _ hc)
  | @request role c q k =>
    have harena : (openCall r c q (⟨role, k⟩ :: ws)).engine.arena = r.engine.arena :=
      openCall_quiet.arena
    rw [Machine.Awake, harena, openCall_work]
    exact H
  | done | halt | dangling | read | service | unasked => exact H

/-- Who waits for an instance goes on to do so until the instance ends. -/
theorem Steps.deferred_subset (h : svc.Steps r ws c m) (hl : r.engine.Linked)
    (hbusy : t ∉ (⟨r, c, ws⟩ : Machine σ α).work.elaborating)
    (hres : t ∉ (⟨r, c, ws⟩ : Machine σ α).work.resuming) :
    r.engine.arena.deferred t ⊆ m.engine.arena.deferred t := by
  have hsame {e : Engine} (h : e.arena.deferred = r.engine.arena.deferred) :
      r.engine.arena.deferred t ⊆ e.arena.deferred t := h ▸ List.Subset.refl _
  have hquiet {e : Engine} (h : r.engine.Quiet e) :
      r.engine.arena.deferred t ⊆ e.arena.deferred t := hsame (by rw [h.arena])
  -- The instance that ends is in hand.
  have hends {e : Engine} {i : InstanceId} {f : Instance → Instance} (hti : t ≠ i)
      (he : e.arena = r.engine.arena.alter i f) (hf : ∀ x, (f x).deferred = x.deferred) :
      r.engine.arena.deferred t ⊆ (e.takeDeferred i).2.arena.deferred t := by
    rw [Engine.deferred_takeDeferred, Function.update_of_ne hti, he, Arena.deferred_alter hf]
    exact List.Subset.refl _
  cases h with
  | unresolved | refuse =>
    rw [arena_giveAnswer]
    exact hquiet (Engine.reject_quiet ..)
  | undeclared => cases ws <;> exact List.Subset.refl _
  | answer _ ha =>
    rw [arena_giveAnswer]
    obtain h | ⟨f, -, i, -, -, rfl⟩ := Engine.answer?_cases ha
    · exact hquiet h
    · exact Engine.deferred_subset_defer ..
  | finish =>
    rw [arena_giveAnswer]
    exact List.Subset.refl _
  | create => exact hsame Engine.waiting_create.1
  | openScope =>
    refine hquiet (.modifyInst ?_)
    exact fun _ => rfl
  | release | wake => exact hsame (funext (Engine.deferred_release _ _))
  | suspend =>
    obtain ⟨hd, -⟩ := Engine.waiting_of_alter Engine.arena_complete fun _ => ⟨rfl, rfl⟩
    exact hsame hd
  | complete =>
    refine hends (fun h => hbusy (h ▸ List.mem_cons_self)) Engine.arena_complete ?_
    exact fun _ => rfl
  | fail hf =>
    obtain rfl := congrArg Prod.snd hf
    refine hends (fun h => hbusy (h ▸ List.mem_cons_self)) Engine.arena_fail ?_
    exact fun _ => rfl
  | settle hs =>
    subst hs
    refine hends (fun h => hres (h ▸ List.mem_cons_self)) Engine.arena_settle ?_
    exact fun _ => rfl
  | command hc => exact hquiet (Command.run_quiet hl _ hc)
  | request => exact hquiet openCall_quiet
  | resolve | elaborate | resume | done | halt | dangling | read | service | unasked =>
    exact List.Subset.refl _

/-! ## Runs -/

section

variable (svc) {config : EngineConfig} {s : σ} {p : Program σ α} {k n : Nat}

theorem busy_after (n : Nat) : (svc.after n (.boot config s p)).Busy := by
  induction n with
  | zero =>
    intro i t hi
    rw [Engine.progress?_eq_none_iff.mpr (Nat.zero_le _)] at hi
    cases hi
  | succ n ih => exact (evolves_after svc n).busy ih

theorem awake_after (n : Nat) : (svc.after n (.boot config s p)).Awake := by
  induction n with
  | zero =>
    intro i x hx
    cases (Engine.arena_eq_none_iff.mpr (Nat.zero_le _)).symm.trans hx
  | succ n ih =>
    rw [after_succ]
    exact (step_steps _).awake ih (linked_after svc n)

theorem once_after (n : Nat) : (svc.after n (.boot config s p)).Once := by
  induction n with
  | zero => exact fun _ => .nil
  | succ n ih => exact (shifts_after svc n).once ih

variable {svc}

/-- Only what fails leaves its cache. -/
theorem caches_succ (hi : (svc.after n (.boot config s p)).engine.Caches i)
    (hs : (svc.after (n + 1) (.boot config s p)).engine.arena.state? i ≠ some .errored) :
    (svc.after (n + 1) (.boot config s p)).engine.Caches i := by
  obtain ⟨d, h, hb⟩ := (Engine.caches_iff (cachesOnce_after svc n)).mp hi
  have hb := (evicts_after svc n hb).resolve_right hs
  exact (Engine.caches_iff (cachesOnce_after svc (n + 1))).mpr ⟨d, h, hb⟩

theorem stores_succ {key : DeclId × List Arg × Option ScopeId}
    (hi : (svc.after n (.boot config s p)).engine.Stores key i)
    (hs : (svc.after (n + 1) (.boot config s p)).engine.arena.state? i ≠ some .errored) :
    (svc.after (n + 1) (.boot config s p)).engine.Stores key i := by
  obtain ⟨x, hx, hkey⟩ := Option.map_eq_some_iff.mp hi.keyed
  exact ⟨caches_succ hi.cached hs, Option.map_eq_some_iff.mpr
    ⟨x, origins_after svc (Nat.le_succ n) hx, hkey⟩, hs⟩

/-- What is there at the top is at rest from then on. -/
theorem rests_after (hk : (svc.after k (.boot config s p)).AtTop) (hkn : k ≤ n) :
    (svc.after n (.boot config s p)).Rests (svc.after k (.boot config s p)).engine.insts.size := by
  induction n, hkn using Nat.le_induction with
  | base =>
    have hwork := hk.work_eq
    refine ⟨fun {i} hi h => ?_, ?_, ?_, fun {i t} hi hs l hl => ?_⟩
    · exact absurd (Engine.progress?_eq_none_iff.mp h) (Nat.not_le.mpr hi)
    · rw [hwork]
      exact List.forall_mem_nil _
    · rw [hwork]
      exact List.forall_mem_nil _
    · have hnobody (t : InstanceId)
          (ht : (svc.after k (.boot config s p)).engine.insts.size ≤ t.index) :
          (svc.after k (.boot config s p)).engine.arena.deferred t = [] := by
        rw [Arena.deferred, Engine.arena_eq_none_iff.mpr ht]
        rfl
      obtain ⟨x, hx, hxs, -⟩ := Engine.progress?_eq_some_iff.mp hs
      have hx := Engine.arena_eq_some hx
      have hpos : (svc.after k (.boot config s p)).engine.arena.waitingOn i ≠ 0 := by
        intro hz
        have hi := awake_after svc k hx hxs (Arena.waitingOn_eq hx ▸ hz)
        rw [hwork] at hi
        cases hi
      rw [hwork, Arena.parkings_of_le hnobody hl, List.count_nil]
      omega
  | succ n hkn ih =>
    refine ih.step (once_after svc n) (evolves_after svc n) (shifts_after svc n) fun t ht => ?_
    rw [after_succ]
    exact (step_steps _).deferred_subset (linked_after svc n)
      (fun h => absurd (ih.elaborating t h) (Nat.not_le.mpr ht))
      fun h => absurd (ih.resuming t h) (Nat.not_le.mpr ht)

/-- **What is there at the top stays as it is.** -/
theorem progress_of_atTop (hk : (svc.after k (.boot config s p)).AtTop) (hkn : k ≤ n)
    (hi : i.index < (svc.after k (.boot config s p)).engine.insts.size) :
    (svc.after n (.boot config s p)).engine.progress? i =
      (svc.after k (.boot config s p)).engine.progress? i := by
  induction n, hkn using Nat.le_induction with
  | base => rfl
  | succ n hkn ih => exact ((rests_after hk hkn).progress (evolves_after svc n) hi).trans ih

/-- What is there at the top is not being elaborated from then on. -/
theorem not_elaborating_of_atTop (hk : (svc.after k (.boot config s p)).AtTop) (hkn : k ≤ n)
    (hi : i.index < (svc.after k (.boot config s p)).engine.insts.size) :
    (svc.after n (.boot config s p)).engine.arena.state? i ≠ some .elaborating := by
  rw [Engine.state?_eq_progress?, progress_of_atTop hk hkn hi]
  intro h
  obtain ⟨⟨_, t⟩, ht, rfl⟩ := Option.map_eq_some_iff.mp h
  have hi := busy_after svc k ht
  rw [hk.work_eq] at hi
  cases hi

/-- **What is stored at the top stays stored.** -/
theorem stores_of_atTop {key : DeclId × List Arg × Option ScopeId}
    (hk : (svc.after k (.boot config s p)).AtTop) (hkn : k ≤ n)
    (hi : (svc.after k (.boot config s p)).engine.Stores key i) :
    (svc.after n (.boot config s p)).engine.Stores key i := by
  induction n, hkn using Nat.le_induction with
  | base => exact hi
  | succ n hkn ih =>
    obtain ⟨x, hx, -⟩ := hi.cached
    refine stores_succ ih ?_
    rw [Engine.state?_eq_progress?, progress_of_atTop hk (Nat.le_succ_of_le hkn)
      (Engine.inst?_eq_some_iff.mp ⟨x, hx⟩), ← Engine.state?_eq_progress?]
    exact hi.unfailed

end

end Service

end Templates
