import Templates.Proofs.Parking.Course

/-!
# No instance stays parked

An instance that refers to one further out is suspended until that one has ended. `Service.waitsOut`
says how this goes at every moment of a run: the counters agree with the lists, the front end goes on
with every suspended instance once and not too early, and when the client has its answer nobody
waits.
-/

namespace Templates

/-- At the top nobody waits. -/
theorem Parked.idle {n : Nat} {a : Arena} (H : Parked n a {}) (i : InstanceId) :
    ¬a.InProgress i ∧ a.waitingOn i = 0 ∧ a.deferred i = [] := by
  have hnone (i : InstanceId) : a.state? i ≠ some .elaborating := fun h => nomatch H.elaborating.mpr h
  -- A suspended instance waits for one made before it, which is suspended too.
  have hlist (k : Nat) : ∀ i : InstanceId, i.index = k → a.state? i ≠ some .suspended := by
    induction k using Nat.strong_induction_on with
    | _ k ih =>
      rintro i rfl hs
      have hw : a.waitingOn i ≠ 0 := fun h => nomatch H.resuming.mpr ⟨hs, h⟩
      rw [H.waiting i] at hw
      obtain ⟨t, -, ht⟩ := List.countP_pos_iff.mp (Nat.pos_of_ne_zero hw)
      obtain ⟨hlt, hp⟩ := H.target (of_decide_eq_true ht)
      exact ih _ hlt _ rfl (hp.resolve_left (hnone _))
  have hprogress (i : InstanceId) : ¬a.InProgress i := fun h =>
    h.elim (hnone i) (hlist _ i rfl)
  have hempty (t : InstanceId) : a.deferred t = [] :=
    List.eq_nil_iff_forall_not_mem.mpr fun j hj => hprogress t (H.target hj).2
  refine ⟨hprogress i, ?_, hempty i⟩
  rw [H.waiting i, Arena.parkings]
  simp [hempty]

theorem Engine.exists_of_ended {e : Engine} {i : InstanceId} (h : e.arena.Ended i) :
    ∃ x, e.inst? i = some x ∧ (x.state = .complete ∨ x.state = .errored) := by
  rw [Arena.Ended, state?_arena] at h
  obtain h | h := h
  · obtain ⟨x, hx, hs⟩ := Option.map_eq_some_iff.mp h
    exact ⟨x, hx, .inl hs⟩
  · obtain ⟨x, hx, hs⟩ := Option.map_eq_some_iff.mp h
    exact ⟨x, hx, .inr hs⟩

namespace Activity.Sound

variable {a : Activity} {i : InstanceId} {x : Instance}

theorem counted (H : a.Sound) (hx : a.engine.inst? i = some x) : x.waitingOn =
    a.engine.insts.countP (fun t => i ∈ t.deferred) + a.pending.count i := by
  have h := H.waiting i
  rw [Arena.waitingOn_eq (Engine.arena_eq_some hx), ← Engine.countP_insts] at h
  exact h

/-- The counter that is to go down next is not at zero. -/
theorem positive (H : a.Sound) {rest : List InstanceId} (hi : a.pending = i :: rest) :
    ∃ x, a.engine.inst? i = some x ∧ 0 < x.waitingOn := by
  have h := H.waiting_pos hi
  cases hx : a.engine.arena i with
  | none => simp [Arena.waitingOn, hx] at h
  | some _ =>
    obtain ⟨x, hx⟩ := Engine.inst?_eq_some_iff.mpr (H.made.mp (by rw [hx]; rfl))
    rw [Arena.waitingOn_eq (Engine.arena_eq_some hx)] at h
    exact ⟨x, hx, h⟩

theorem idle (H : a.Sound) (hw : a.toWork = {}) (hx : a.engine.inst? i = some x) :
    (x.state = .complete ∨ x.state = .errored) ∧ x.waitingOn = 0 ∧ x.deferred = [] := by
  have harena := Engine.arena_eq_some hx
  obtain ⟨hp, hwait, hd⟩ := Parked.idle (hw ▸ H.toParked) i
  rw [Arena.waitingOn_eq harena] at hwait
  rw [Arena.deferred_eq harena] at hd
  rw [Arena.InProgress, Arena.state?_eq harena] at hp
  refine ⟨?_, hwait, hd⟩
  change ¬(some x.state = some .elaborating ∨ some x.state = some .suspended) at hp
  cases hs : x.state <;> simp_all

/-- No instance is due at the top. -/
theorem not_due (H : a.Sound) (hw : a.toWork = {}) : ¬Activity.Due i a := by
  rintro ⟨hs, -⟩
  rw [Engine.state?_arena] at hs
  obtain ⟨x, hx, hxs⟩ := Option.map_eq_some_iff.mp hs
  obtain ⟨h | h, -⟩ := H.idle hw hx <;> cases hxs.symm.trans h

/-- An instance that is to go on has its members and waits for nothing. -/
theorem ready (H : a.Sound) (hi : a.asks = some (.resume i)) :
    (∃ x, a.engine.inst? i = some x ∧ x.members.isSome) ∧
      ∀ t, i ∉ a.engine.arena.deferred t := by
  obtain ⟨hs, hw⟩ := H.resuming.mp (H.asked hi)
  constructor
  · have hm := H.members (.inl hs)
    rw [Engine.state?_arena] at hs
    obtain ⟨x, hx, -⟩ := Option.map_eq_some_iff.mp hs
    exact ⟨x, hx, Arena.members?_eq (Engine.arena_eq_some hx) ▸ hm⟩
  · intro t ht
    have hlt : t.index < a.engine.insts.size :=
      (H.target ht).2.elim H.lt_of_state? H.lt_of_state?
    have hpos : 0 < a.engine.arena.parkings a.engine.insts.size i :=
      List.countP_pos_iff.mpr ⟨t.index, List.mem_range.mpr hlt, by simpa using ht⟩
    have := H.waiting i
    omega

end Activity.Sound

namespace Service

variable {σ α : Type} {svc : Service σ} {config : EngineConfig} {s : σ} {p : Program σ α}

theorem sound_after (hsvc : svc.HandsOn) (hp : p.Hands []) (n : Nat) :
    (svc.after n (.boot config s p)).activity.Sound :=
  always hsvc hp ⟨.init, fun h => nomatch h⟩ (fun _ _ _ H h => h.sound H) n

/-- The instance was suspended at one of the first moments of the run, the `n`-th included. -/
def EverSuspended (svc : Service σ) (m : Machine σ α) (i : InstanceId) (n : Nat) : Prop :=
  ∃ k ≤ n, ((svc.after k m).engine.inst? i).map (·.state) = some .suspended

section

variable (hsvc : svc.HandsOn) (hp : p.Hands [])

include hsvc hp

theorem course_after (i : InstanceId) (n : Nat) : Activity.Course i
    (svc.after n (.boot config s p)).activity (svc.after (n + 1) (.boot config s p)).activity :=
  (after_moves hsvc hp n).course (sound_after hsvc hp n) i

variable (config s) in
/-- An instance is not suspended yet, or waits, or has been resumed. -/
theorem resume_phase (i : InstanceId) (n : Nat) :
    let m : Machine σ α := .boot config s p
    let calls := svc.timesAsked m (.resume i) n
    calls = 0 ∧ ¬svc.EverSuspended m i n ∨
      svc.EverSuspended m i n ∧
        (calls = 0 ∧ Activity.Due i (svc.after n m).activity ∨
          calls = 1 ∧ Activity.Served i (svc.after n m).activity) := by
  intro m
  induction n with
  | zero =>
    refine .inl ⟨rfl, ?_⟩
    rintro ⟨k, hk, h⟩
    obtain rfl := Nat.le_zero.mp hk
    cases h
  | succ n ih =>
    have H : (svc.after n m).activity.Sound := sound_after hsvc hp n
    have H' : (svc.after (n + 1) m).activity.Sound := sound_after hsvc hp (n + 1)
    have hcourse : Activity.Course i (svc.after n m).activity (svc.after (n + 1) m).activity :=
      course_after hsvc hp i n
    have hever : svc.EverSuspended m i n → svc.EverSuspended m i (n + 1) :=
      fun ⟨k, hk, h⟩ => ⟨k, by omega, h⟩
    dsimp only at ih ⊢
    obtain ⟨hc, hn⟩ | ⟨he, hc | hc⟩ := ih
    · have hs : (svc.after n m).engine.arena.state? i ≠ some .suspended :=
        fun h => hn ⟨n, Nat.le_refl n, Engine.state?_arena _ i ▸ h⟩
      have hasks : (svc.after n m).asks ≠ some (.resume i) := fun h =>
        hs (H.resuming.mp (H.asked h)).1
      rw [timesAsked_succ_of_ne hasks, hc]
      by_cases h : (svc.after (n + 1) m).engine.arena.state? i = some .suspended
      · exact .inr ⟨⟨n + 1, Nat.le_refl _, Engine.state?_arena _ i ▸ h⟩, .inl ⟨rfl, hcourse.of_suspended hs h⟩⟩
      · refine .inl ⟨rfl, fun ⟨k, hk, hsk⟩ => ?_⟩
        obtain hk | rfl := Nat.le_succ_iff.mp hk
        · exact hn ⟨k, hk, hsk⟩
        · exact h ((Engine.state?_arena _ i).trans hsk)
    · obtain ⟨hc, hdue⟩ := hc
      refine .inr ⟨hever he, ?_⟩
      obtain ⟨hasks, hnext⟩ | ⟨hasks, hnext⟩ := hcourse.due hdue
      · exact .inr ⟨by rw [timesAsked_succ_of_eq hasks, hc], hnext⟩
      · exact .inl ⟨by rw [timesAsked_succ_of_ne hasks, hc], hnext⟩
    · obtain ⟨hc, hserved⟩ := hc
      rw [timesAsked_succ_of_ne hserved.1, hc]
      exact .inr ⟨hever he, .inr ⟨rfl, hcourse.served H H' hserved⟩⟩

/-- Who waits for `t` does so until `t` has ended. -/
theorem deferred_or_ended {i t : InstanceId} {k n : Nat} (hk : k ≤ n)
    (h : i ∈ (svc.after k (.boot config s p)).engine.arena.deferred t) :
    i ∈ (svc.after n (.boot config s p)).engine.arena.deferred t ∨
      (svc.after n (.boot config s p)).engine.arena.Ended t := by
  induction n, hk using Nat.le_induction with
  | base => exact .inl h
  | succ n _ ih =>
    have hcourse : Activity.Course t (svc.after n (.boot config s p)).activity
        (svc.after (n + 1) (.boot config s p)).activity := course_after hsvc hp t n
    exact ih.elim hcourse.deferred fun h => .inr (hcourse.ended h)

end

/-- How instances have waited for each other when the run from `m₀` has made `n` steps. -/
structure WaitsOut (svc : Service σ) (m₀ : Machine σ α) (n : Nat) : Prop where
  /-- The counter of an instance is the number of the lists of waiting instances that it stands in
  and of its places among those that are to be released. -/
  counted {i : InstanceId} {x : Instance} : (svc.after n m₀).engine.inst? i = some x →
    x.waitingOn = (svc.after n m₀).engine.insts.countP (fun t => i ∈ t.deferred) +
      (svc.after n m₀).work.pending.count i
  /-- No counter is at zero when it is to go down. -/
  positive {call : Call} {o : Outcome} {i : InstanceId} {rest : List InstanceId} :
    (svc.after n m₀).control = .stage (.release call o (i :: rest)) →
      ∃ x, (svc.after n m₀).engine.inst? i = some x ∧ 0 < x.waitingOn
  /-- Nobody is in progress or waits when the client has an answer. -/
  idle : (svc.after n m₀).AtTop → ∀ {i x}, (svc.after n m₀).engine.inst? i = some x →
    (x.state = .complete ∨ x.state = .errored) ∧ x.waitingOn = 0 ∧ x.deferred = []
  /-- The front end goes on with an instance at most once, and only if it was suspended. -/
  atMostOnce (i : InstanceId) : svc.timesAsked m₀ (.resume i) n ≤ 1
  onlySuspended {i : InstanceId} :
    svc.timesAsked m₀ (.resume i) n ≠ 0 → svc.EverSuspended m₀ i n
  /-- By the time that the client has an answer it has gone on with every suspended instance. -/
  atLeastOnce : (svc.after n m₀).AtTop → ∀ {i}, svc.EverSuspended m₀ i n →
    svc.timesAsked m₀ (.resume i) n = 1
  /-- When the front end is to go on with an instance, the instance has its members, and all that it
  has ever waited for has ended. -/
  ready {i : InstanceId} : (svc.after n m₀).asks = some (.resume i) →
    (∃ x, (svc.after n m₀).engine.inst? i = some x ∧ x.members.isSome) ∧
      ∀ k ≤ n, ∀ {t y}, (svc.after k m₀).engine.inst? t = some y → i ∈ y.deferred →
        ∃ z, (svc.after n m₀).engine.inst? t = some z ∧ (z.state = .complete ∨ z.state = .errored)

/-- **No instance stays parked.** -/
theorem waitsOut (hsvc : svc.HandsOn) (hp : p.Hands []) (n : Nat) :
    svc.WaitsOut (.boot config s p) n := by
  have H : (svc.after n (.boot config s p)).activity.Sound := sound_after hsvc hp n
  have hphase := fun i => resume_phase config s hsvc hp i n
  constructor
  case counted =>
    intro i x hx
    exact H.counted hx
  case positive =>
    intro call o i rest hc
    have hpending : (svc.after n (.boot config s p)).work.pending =
        i :: (rest ++ (Role.workOf (svc.after n (.boot config s p)).roles).pending) := by
      rw [Machine.work, hc]
      rfl
    exact H.positive hpending
  case idle =>
    intro htop i x hx
    exact H.idle htop.work_eq hx
  case atMostOnce =>
    intro i
    obtain ⟨hc, -⟩ | ⟨-, ⟨hc, -⟩ | ⟨hc, -⟩⟩ := hphase i <;> omega
  case onlySuspended =>
    intro i hi
    obtain ⟨hc, -⟩ | ⟨he, -⟩ := hphase i
    · exact absurd hc hi
    · exact he
  case atLeastOnce =>
    intro htop i hi
    obtain ⟨-, hn⟩ | ⟨-, ⟨-, hdue⟩ | ⟨hc, -⟩⟩ := hphase i
    · exact absurd hi hn
    · exact absurd hdue (H.not_due htop.work_eq)
    · exact hc
  case ready =>
    intro i hasks
    obtain ⟨hmembers, hnone⟩ := H.ready hasks
    refine ⟨hmembers, fun k hk t y hy hmem => ?_⟩
    have hthen : i ∈ (svc.after k (.boot config s p)).engine.arena.deferred t := by
      rwa [Arena.deferred_eq (Engine.arena_eq_some hy)]
    exact Engine.exists_of_ended ((deferred_or_ended hsvc hp hk hthen).resolve_left (hnone t))

/-- A run of the client that ends leaves every instance complete or errored. -/
theorem run_idle (hsvc : svc.HandsOn) (hp : p.Hands []) {fuel : Nat} {a : α} {r : Run σ}
    (h : svc.run fuel p ⟨{ config }, s⟩ = .ok (a, r)) {i : InstanceId} {x : Instance}
    (hx : r.engine.inst? i = some x) :
    (x.state = .complete ∨ x.state = .errored) ∧ x.waitingOn = 0 ∧ x.deferred = [] := by
  obtain ⟨n, hn⟩ := run_eq_ok_iff.mp ⟨fuel, h⟩
  have H : (svc.after n (.boot config s p)).activity.Sound := sound_after hsvc hp n
  rw [Machine.boot, hn] at H
  exact H.idle rfl hx

end Service

/-- A front end whose first instance needs the second, which refers back to the first. -/
def twoWay : Service Unit where
  evaluate _ _ := pure (.error ⟨"", {}⟩)
  openScope s := pure s
  declareSymbol _ _ _ := pure ()
  symbolName _ _ := ""
  elaborate c i :=
    .request c (if i.index = 0 then { decl := ⟨1⟩ } else { decl := ⟨0⟩, need := .reference })
      fun _ => .done (.ok [])

/-- Declares two templates and asks for an instance of the first. -/
def twoWayClient : Program Unit (Except TemplateError InstanceId) :=
  .command (.declare { name := "A" }) fun _ => .command (.declare { name := "B" }) fun _ =>
    .request [] { decl := ⟨0⟩ } .done

theorem twoWay_handsOn : twoWay.HandsOn :=
  ⟨fun _ _ => ⟨.inl rfl, fun _ => trivial⟩, fun _ => trivial⟩

theorem twoWayClient_hands : twoWayClient.Hands [] := fun _ _ => ⟨.inl rfl, fun _ => trivial⟩

/-- The machine of the two templates at its beginning. -/
def twoWayBoot : Machine Unit (Except TemplateError InstanceId) :=
  .boot { digest := fun _ _ => default } () twoWayClient

/-- The second instance is suspended, gone on with, and complete at the end. -/
theorem waitsOut_twoWay : twoWay.HandsOn ∧ twoWayClient.Hands [] ∧
    (twoWay.after 19 twoWayBoot).asks = some (.resume ⟨1⟩) ∧ (twoWay.after 24 twoWayBoot).AtTop ∧
    (twoWay.after 24 twoWayBoot).engine.insts.size = 2 ∧ twoWay.WaitsOut twoWayBoot 24 :=
  ⟨twoWay_handsOn, twoWayClient_hands, rfl, ⟨rfl, _, rfl⟩, rfl,
    Service.waitsOut twoWay_handsOn twoWayClient_hands 24⟩

end Templates
