import Templates.Proofs.Lifetimes.Steady
import Templates.Proofs.Machine.Usage
import Templates.Proofs.Parking
import Templates.Proofs.Reporting

/-!
# The life of an instance

An instance is made with all that says which one it is. Then its state goes forward, it gets its
members when its elaboration succeeds, and its traces change in one direction. `Service.agesWell` says
so for every front end. It keeps the state in which it ended if no request is made with a chain that
begins with it while the front end goes on with it.
-/

namespace Templates

variable {σ α : Type}

/-- What the first instance can become, when the second list has the roots. -/
structure Instance.Later (roots : List ModuleId) (x y : Instance) : Prop where
  decl : y.decl = x.decl
  supplied : y.supplied = x.supplied
  resolved : y.resolved = x.resolved
  deduced : y.deduced = x.deduced
  level : y.level = x.level
  enclosing : y.enclosing = x.enclosing
  digest : y.digest = x.digest
  enclosingInstance : y.enclosingInstance = x.enclosingInstance
  mixinTarget : y.mixinTarget = x.mixinTarget
  state : x.state.Precedes y.state
  members : x.members.isSome → y.members = x.members
  /-- An owner is found once, and is a root module. -/
  firstModule : y.firstModule = x.firstModule ∨
    x.firstModule = none ∧ ∃ m ∈ roots, y.firstModule = some m
  gagged : y.gagged = true → x.gagged = true
  claimed : x.claimed = true → y.claimed = true

namespace Service

variable {svc : Service σ} {config : EngineConfig} {s : σ} {p : Program σ α} {k n : Nat}
  {i : InstanceId}

theorem later_of_inst? (hk : k ≤ n) {x : Instance}
    (hx : (svc.after k (.boot config s p)).engine.inst? i = some x) :
    ∃ y, (svc.after n (.boot config s p)).engine.inst? i = some y ∧
      x.Later (svc.after n (.boot config s p)).engine.roots y := by
  obtain ⟨st, t, hprogress, hstate, hmembers⟩ := progress_after svc hk (Engine.progress?_of_inst? hx)
  obtain ⟨y, hy, rfl, rfl⟩ := Engine.progress?_eq_some_iff.mp hprogress
  have horigin : y.origin = x.origin := by
    have h := origins_after svc hk (Engine.origins_eq_some hx)
    rw [Engine.origins_eq_some hy] at h
    exact Option.some.inj h
  have hsame {β : Type} (f : Instance → β) (hf : ∀ z : Instance, f z.origin = f z) : f y = f x := by
    rw [← hf y, horigin, hf x]
  obtain ⟨v, hv, husage⟩ := (later_after svc hk).usage (congrArg (Option.map Instance.usage) hx)
  obtain rfl : y.usage = v :=
    Option.some.inj ((congrArg (Option.map Instance.usage) hy).symm.trans hv)
  refine ⟨y, hy, ?_⟩
  constructor
  case state => exact hstate
  case members => exact hmembers
  case firstModule => exact husage.firstModule
  case gagged => exact husage.gagged
  case claimed => exact husage.claimed
  case decl => exact hsame Instance.decl fun _ => rfl
  case supplied => exact hsame Instance.supplied fun _ => rfl
  case resolved => exact hsame Instance.resolved fun _ => rfl
  case deduced => exact hsame Instance.deduced fun _ => rfl
  case level => exact hsame Instance.level fun _ => rfl
  case enclosing => exact hsame Instance.enclosing fun _ => rfl
  case digest => exact hsame Instance.digest fun _ => rfl
  case enclosingInstance => exact hsame Instance.enclosingInstance fun _ => rfl
  case mixinTarget => exact hsame Instance.mixinTarget fun _ => rfl

/-- If the instance is complete or errored at one of the first moments of the run, the `n`-th included,
it has the same state at the `n`-th. -/
def Settled (svc : Service σ) (m₀ : Machine σ α) (i : InstanceId) (n : Nat) : Prop :=
  ∀ ⦃k x⦄, k ≤ n → (svc.after k m₀).engine.inst? i = some x →
    x.state = .complete ∨ x.state = .errored →
    ∃ y, (svc.after n m₀).engine.inst? i = some y ∧ y.state = x.state

theorem settled_of_not_intrudes
    (hn : ∀ l < n, ¬(svc.after l (.boot config s p)).Intrudes i) :
    svc.Settled (.boot config s p) i n := by
  intro k x hk hx hended
  have h := ended_after svc hk hn hended (Engine.progress?_of_inst? hx)
  obtain ⟨y, hy, hstate, -⟩ := Engine.progress?_eq_some_iff.mp h
  exact ⟨y, hy, hstate⟩

/-- What has become of instances when the run from `m₀` has made `n` steps. -/
structure AgesWell (svc : Service σ) (m₀ : Machine σ α) (n : Nat) : Prop where
  /-- An instance remains the one that was made, and changes in one direction. -/
  later {k : Nat} {i : InstanceId} {x : Instance} : k ≤ n →
    (svc.after k m₀).engine.inst? i = some x →
    ∃ y, (svc.after n m₀).engine.inst? i = some y ∧ x.Later (svc.after n m₀).engine.roots y
  /-- An instance has the members with which its elaboration has succeeded. -/
  members {i : InstanceId} {t : MemberTable} :
    (∃ x, (svc.after n m₀).engine.inst? i = some x ∧ x.members = some t) ↔
      ∃ k < n, (svc.after k m₀).Succeeds i t
  once {i : InstanceId} {k l : Nat} {t u : MemberTable} : k < n → l < n →
    (svc.after k m₀).Succeeds i t → (svc.after l m₀).Succeeds i u → k = l
  /-- An instance keeps the state in which it ended, if no request is made with a chain that begins
  with it before it is there or while the front end goes on with it. -/
  settled {i : InstanceId} : (∀ l < n, ¬(svc.after l m₀).Intrudes i) → svc.Settled m₀ i n
  /-- There is no such request if only chains that were handed on are in use. -/
  handedOn : svc.HandsOn → m₀.Handed → ∀ i, svc.Settled m₀ i n

/-- **The life of an instance.** -/
theorem agesWell (n : Nat) : svc.AgesWell (.boot config s p) n := by
  constructor
  case later =>
    intro k i x hk hx
    exact later_of_inst? hk hx
  case members =>
    intro i t
    rw [← members_after_iff]
    constructor
    · rintro ⟨x, hx, ht⟩
      exact ⟨x.state, Engine.progress?_eq_some_iff.mpr ⟨x, hx, rfl, ht⟩⟩
    · rintro ⟨st, h⟩
      obtain ⟨x, hx, -, ht⟩ := Engine.progress?_eq_some_iff.mp h
      exact ⟨x, hx, ht⟩
  case once =>
    intro i k l t u _ _ hk hl
    exact Nat.le_antisymm (succeeds_once svc hl hk) (succeeds_once svc hk hl)
  case settled =>
    intro i hn
    exact settled_of_not_intrudes hn
  case handedOn =>
    intro hsvc hm i
    have hp : p.Hands [] := hm.program rfl
    exact settled_of_not_intrudes fun l _ => not_intrudes hsvc hp l i

end Service

/-- The second instance goes on twice, once inside the other. It is errored after the one and then
complete after the other. -/
theorem not_settled_relapsing : ¬relapsing.Settled (askBothBoot false) ⟨1⟩ 40 := by
  intro h
  have hthen : ((relapsing.after 35 (askBothBoot false)).engine.inst? ⟨1⟩).map (·.state) =
      some .errored := rfl
  have hnow : ((relapsing.after 40 (askBothBoot false)).engine.inst? ⟨1⟩).map (·.state) =
      some .complete := rfl
  obtain ⟨x, hx, hxs⟩ := Option.map_eq_some_iff.mp hthen
  obtain ⟨y, hy, hys⟩ := h (by decide) hx (.inr hxs)
  rw [hy, Option.map_some, hys, hxs] at hnow
  cases hnow

/-- The second instance is suspended, and then complete for good. -/
theorem agesWell_twoWay :
    ((twoWay.after 16 twoWayBoot).engine.inst? ⟨1⟩).map (·.state) = some .suspended ∧
      (twoWay.after 17 twoWayBoot).Succeeds ⟨0⟩ [] ∧
      ((twoWay.after 21 twoWayBoot).engine.inst? ⟨1⟩).map (·.state) = some .complete ∧
      twoWay.AgesWell twoWayBoot 24 ∧ twoWay.Settled twoWayBoot ⟨1⟩ 24 := by
  have H : twoWay.AgesWell twoWayBoot 24 := Service.agesWell 24
  have hm : twoWayBoot.Handed := Service.boot_handed twoWayClient_hands
  exact ⟨rfl, ⟨_, _, rfl⟩, rfl, H, H.handedOn twoWay_handsOn hm ⟨1⟩⟩

end Templates
