import Templates.Proofs.Caching.Evictions

/-!
# Code that is taken over

A claim is granted to the owner of a complete instance, who is a root module, as long as none was
granted for the instance before (`Engine.claimCodegen_eq_true_iff`, `Service.claimed_after_iff`). So
the code of an instance is taken over once. An instance that leaves the caches may be made again, so
the code for a key is taken over once if what is complete stays complete; this is so for every key if
only chains that were handed on are in use (`Service.claimsOnce`). With a made-up chain an instance
may be claimed while the front end goes on with it, and then fail (`not_claimedOnce_recanting`).
-/

namespace Templates

variable {σ α : Type}

namespace Engine

/-- The code of the instance was taken over. -/
def isClaimed (e : Engine) (i : InstanceId) : Bool := ((e.usage? i).map (·.claimed)).getD false

variable {e e' : Engine} {i j : InstanceId} {a b : ModuleId}

theorem SameUsage.isClaimed (h : e.SameUsage e') : e'.isClaimed i = e.isClaimed i := by
  rw [Engine.isClaimed, h.usage, Engine.isClaimed]

/-- A request leaves alone whether the code was taken over. -/
theorem Uses.isClaimed {q : Request} (h : e.Uses q j e') : e'.isClaimed i = e.isClaimed i := by
  rw [Engine.isClaimed, h.usage, Engine.isClaimed]
  split
  · next hij =>
    subst hij
    cases e.usage? i <;> rfl
  · rfl

theorem isComplete_eq_true_iff :
    e.isComplete i = true ↔ ∃ x, e.inst? i = some x ∧ x.state = .complete := by
  unfold isComplete
  cases e.inst? i <;> simp

/-- A claim is granted to the owner of code that is needed and was not taken over. -/
theorem claimCodegen_eq_true_iff : (e.claimCodegen i a).1 = true ↔
    e.needsCodegen i = true ∧ e.codegenOwner i = some a ∧ e.isClaimed i = false := by
  have hthere (h : e.needsCodegen i = true) :
      ((e.inst? i).map fun x => !x.claimed).getD false = !e.isClaimed i := by
    obtain ⟨x, hx, -⟩ := isComplete_eq_true_iff.mp (Bool.and_eq_true_iff.mp h).1
    rw [isClaimed, usage?, hx]
    rfl
  unfold claimCodegen
  split
  · next h =>
    simp only [Bool.and_eq_true, decide_eq_true_eq] at h
    rw [hthere h.1.1] at h
    simpa [and_assoc] using h
  · next h =>
    simp only [Bool.and_eq_true, decide_eq_true_eq, not_and] at h
    refine ⟨nofun, fun ⟨hneeds, howner, hclaimed⟩ => ?_⟩
    have := h ⟨hneeds, howner⟩
    rw [hthere hneeds, hclaimed] at this
    exact absurd rfl this

/-- A claim that is not granted changes nothing. -/
theorem claimCodegen_of_ne_true (h : (e.claimCodegen i a).1 ≠ true) :
    e.claimCodegen i a = (false, e) := by
  exact (e.claimCodegen_cases i a).resolve_right fun hc => h (congrArg Prod.fst hc)

theorem isClaimed_claimCodegen : (e.claimCodegen i a).2.isClaimed j = true ↔
    e.isClaimed j = true ∨ i = j ∧ (e.claimCodegen i a).1 = true := by
  by_cases h : (e.claimCodegen i a).1 = true
  · have hneeds := (claimCodegen_eq_true_iff.mp h).1
    obtain ⟨x, hx, -⟩ := isComplete_eq_true_iff.mp (Bool.and_eq_true_iff.mp hneeds).1
    have he : (e.claimCodegen i a).2 = e.modifyInst i fun x => { x with claimed := true } := by
      obtain hc | hc := e.claimCodegen_cases i a <;> rw [hc] at h ⊢
      cases h
    rw [he, isClaimed, usage?_modifyInst]
    by_cases hij : i = j
    · subst hij
      rw [if_pos rfl, hx]
      simp [h, Instance.usage]
    · rw [if_neg hij, isClaimed]
      simp [hij]
  · rw [claimCodegen_of_ne_true h]
    simp

/-- Code that is needed and was not taken over is granted to its owner and to nobody else. -/
theorem exists_granted (hneeds : e.needsCodegen i = true) (hunclaimed : e.isClaimed i = false) :
    ∃ a, e.codegenOwner i = some a ∧ (e.claimCodegen i a).1 = true ∧
      ∀ b, b ≠ a → e.claimCodegen i b = (false, e) := by
  obtain ⟨a, ha⟩ := Option.isSome_iff_exists.mp (Bool.and_eq_true_iff.mp hneeds).2
  refine ⟨a, ha, claimCodegen_eq_true_iff.mpr ⟨hneeds, ha, hunclaimed⟩, fun b hb => ?_⟩
  refine claimCodegen_of_ne_true fun h => hb ?_
  exact Option.some.inj ((claimCodegen_eq_true_iff.mp h).2.1.symm.trans ha)

theorem codegenOwner_eq_some (h : e.codegenOwner i = some a) : ∃ j, e.firstModule? j = some a :=
  let ⟨j, _, hj⟩ := List.exists_of_findSome?_eq_some h
  ⟨j, hj⟩

/-- Every owner of an instance is a root module. -/
def OwnedByRoots (e : Engine) : Prop := ∀ ⦃i a⦄, e.firstModule? i = some a → a ∈ e.roots

end Engine

/-- In the next step the code of the instance is given to the module, on its claim. -/
def Machine.Grants (m : Machine σ α) (i : InstanceId) (a : ModuleId) : Prop :=
  m.Claims i a ∧ (m.engine.claimCodegen i a).1 = true

theorem Machine.Claims.unique {m : Machine σ α} {i j : InstanceId} {a b : ModuleId}
    (h : m.Claims i a) (h' : m.Claims j b) : i = j ∧ a = b := by
  obtain ⟨role, k, hc⟩ := h
  obtain ⟨role', k', hc'⟩ := h'
  rw [hc] at hc'
  cases hc'
  exact ⟨rfl, rfl⟩

namespace Service

variable {svc : Service σ} {m : Machine σ α} {e : Engine} {i j : InstanceId} {a b : ModuleId}

/-! ## Steps -/

theorem Leaves.ownedByRoots (h : svc.Leaves m e) (H : m.engine.OwnedByRoots) :
    e.OwnedByRoots := by
  cases h with
  | same _ h =>
    intro i a hi
    rw [h.firstModule?] at hi
    exact h.roots (H hi)
  | @take call j _ h =>
    intro i a hi
    rw [h.firstModule?] at hi
    rw [h.roots]
    split at hi
    · cases hj : m.engine.firstModule? j with
      | some b =>
        rw [hj, Option.some_or] at hi
        exact H (hj.trans hi)
      | none =>
        rw [hj, Option.none_or] at hi
        obtain ⟨rfl, -, hroot⟩ := Engine.offered_eq_some hi
        exact List.contains_iff_mem.mp hroot
    · exact H hi
  | claim _ _ h =>
    subst h
    intro i a hi
    rw [Engine.claimCodegen_firstModule?] at hi
    rw [(Engine.claimCodegen_usage ..).1]
    exact H hi

/-- The engine carries out a claim, which changes nothing if the instance is not there. -/
theorem step_of_claims (h : m.Claims i a) :
    (svc.step m).engine = (m.engine.claimCodegen i a).2 := by
  obtain ⟨r, control, ws⟩ := m
  obtain ⟨role, k, hc⟩ := h
  cases hc
  rw [step_command]
  cases hd : (Command.claim i a).danglingIn r.engine with
  | none => rfl
  | some halt =>
    have hnone : r.engine.inst? i = none := by
      unfold Command.danglingIn at hd
      dsimp only at hd
      split at hd
      · cases hd
      · next hi => simpa [Engine.inst?] using hi
    have hfalse : (r.engine.claimCodegen i a).1 ≠ true := by
      rw [Ne, Engine.claimCodegen_eq_true_iff, Engine.needsCodegen, Engine.isComplete, hnone]
      rintro ⟨h, -⟩
      cases h
    rw [Engine.claimCodegen_of_ne_true hfalse]

/-- The code of an instance is taken over when a claim for it is granted. -/
theorem step_isClaimed : (svc.step m).engine.isClaimed i = true ↔
    m.engine.isClaimed i = true ∨ ∃ a, m.Grants i a := by
  by_cases hc : ∃ j b, m.Claims j b
  · obtain ⟨j, b, hc⟩ := hc
    rw [step_of_claims hc, Engine.isClaimed_claimCodegen]
    refine or_congr_right ⟨?_, ?_⟩
    · rintro ⟨rfl, hgrant⟩
      exact ⟨b, hc, hgrant⟩
    · rintro ⟨a, hca, hgrant⟩
      obtain ⟨rfl, rfl⟩ := hca.unique hc
      exact ⟨rfl, hgrant⟩
  · have hsame : (svc.step m).engine.isClaimed i = m.engine.isClaimed i := by
      have hleaves : svc.Leaves m (svc.step m).engine := step_leaves m
      cases hleaves with
      | same _ h => exact h.isClaimed
      | take _ h => exact h.isClaimed
      | claim h => exact absurd ⟨_, _, h⟩ hc
    rw [hsame]
    exact ⟨.inl, fun h => h.resolve_right fun ⟨a, ha⟩ => hc ⟨i, a, ha.1⟩⟩

/-! ## Runs -/

section

variable (svc) {config : EngineConfig} {s : σ} {p : Program σ α} {k l n : Nat}

theorem ownedByRoots_after (n : Nat) : (svc.after n (.boot config s p)).engine.OwnedByRoots := by
  induction n with
  | zero =>
    intro i a hi
    simp [Engine.firstModule?, Engine.inst?, after, Machine.boot, Machine.start] at hi
  | succ n ih =>
    rw [after_succ]
    exact (step_leaves _).ownedByRoots ih

theorem claimed_after_iff : (svc.after n (.boot config s p)).engine.isClaimed i = true ↔
    ∃ k < n, ∃ a, (svc.after k (.boot config s p)).Grants i a := by
  induction n with
  | zero => simp [Engine.isClaimed, Engine.usage?, Engine.inst?, after, Machine.boot, Machine.start]
  | succ n ih =>
    rw [after_succ, step_isClaimed, ih]
    simp only [Nat.lt_succ_iff_lt_or_eq, or_and_right, exists_or, exists_eq_left]

/-- After a grant no claim for the instance is granted. -/
theorem le_of_grants (hk : (svc.after k (.boot config s p)).Grants i a)
    (hl : (svc.after l (.boot config s p)).Grants i b) : l ≤ k := by
  by_contra hkl
  have hclaimed := (claimed_after_iff svc).mpr ⟨k, Nat.lt_of_not_le hkl, a, hk⟩
  rw [(Engine.claimCodegen_eq_true_iff.mp hl.2).2.2] at hclaimed
  cases hclaimed

theorem grants_once (hk : (svc.after k (.boot config s p)).Grants i a)
    (hl : (svc.after l (.boot config s p)).Grants i b) : k = l :=
  Nat.le_antisymm (le_of_grants svc hl hk) (le_of_grants svc hk hl)

end

/-- No two of the first `n` steps grant the code of instances with the same key. -/
def ClaimedOnce (svc : Service σ) (m₀ : Machine σ α) (n : Nat) : Prop :=
  ∀ ⦃k l i j a b⦄, k < n → l < n → (svc.after k m₀).Grants i a → (svc.after l m₀).Grants j b →
    (svc.after n m₀).engine.SameKey i j → k = l

/-- Who has taken code over when the run from `m₀` has made `n` steps. -/
structure ClaimsOnce (svc : Service σ) (m₀ : Machine σ α) (n : Nat) : Prop where
  /-- The code of an instance is taken over at most once. -/
  once {i : InstanceId} {a b : ModuleId} {k l : Nat} :
    (svc.after k m₀).Grants i a → (svc.after l m₀).Grants i b → k = l
  /-- The code for a key is taken over at most once, unless a request is made with a chain that begins
  with one of the two instances before it is there or while the front end goes on with it. -/
  unique {i j : InstanceId} {a b : ModuleId} {k l : Nat} : k < n → l < n →
    (svc.after k m₀).Grants i a → (svc.after l m₀).Grants j b →
    (svc.after n m₀).engine.SameKey i j →
    (∀ t < n, ¬(svc.after t m₀).Intrudes i ∧ ¬(svc.after t m₀).Intrudes j) → i = j ∧ k = l
  /-- There is no such request if only chains that were handed on are in use. -/
  handedOn : svc.HandsOn → m₀.Handed → svc.ClaimedOnce m₀ n
  /-- Owners are root modules. -/
  owner {i : InstanceId} {a : ModuleId} :
    (svc.after n m₀).engine.codegenOwner i = some a → (svc.after n m₀).engine.isRoot a = true
  /-- Code that is needed and was not taken over is given to its owner and to nobody else. -/
  granted {i : InstanceId} : (svc.after n m₀).engine.needsCodegen i = true →
    (∀ k < n, ∀ a, ¬(svc.after k m₀).Grants i a) →
    ∃ a, (svc.after n m₀).engine.codegenOwner i = some a ∧
      ((svc.after n m₀).engine.claimCodegen i a).1 = true ∧
      ∀ b, b ≠ a → (svc.after n m₀).engine.claimCodegen i b = (false, (svc.after n m₀).engine)

variable {config : EngineConfig} {s : σ} {p : Program σ α} {k l n : Nat}

/-- What is granted stays complete if it is not intruded on. -/
theorem complete_of_grants (hk : k < n) (h : (svc.after k (.boot config s p)).Grants i a)
    (hs : svc.Settled (.boot config s p) i n) :
    (svc.after n (.boot config s p)).engine.isComplete i = true := by
  have hneeds := (Engine.claimCodegen_eq_true_iff.mp h.2).1
  obtain ⟨x, hx, hxs⟩ := Engine.isComplete_eq_true_iff.mp (Bool.and_eq_true_iff.mp hneeds).1
  obtain ⟨y, hy, hys⟩ := hs (Nat.le_of_lt hk) hx (.inl hxs)
  exact Engine.isComplete_eq_true_iff.mpr ⟨y, hy, hys.trans hxs⟩

/-- The code for a key is granted once if the instances with the key are settled. -/
theorem grants_unique (hk : k < n) (hl : l < n)
    (hgi : (svc.after k (.boot config s p)).Grants i a)
    (hgj : (svc.after l (.boot config s p)).Grants j b)
    (hkey : (svc.after n (.boot config s p)).engine.SameKey i j)
    (hi : svc.Settled (.boot config s p) i n) (hj : svc.Settled (.boot config s p) j n) :
    i = j ∧ k = l := by
  obtain rfl : i = j :=
    eq_of_settled hi hj (complete_of_grants hk hgi hi) (complete_of_grants hl hgj hj) hkey
  exact ⟨rfl, grants_once svc hgi hgj⟩

/-- **Code is taken over once, by a root module.** -/
theorem claimsOnce (n : Nat) : svc.ClaimsOnce (.boot config s p) n := by
  constructor
  case once =>
    intro i a b k l hk hl
    exact grants_once svc hk hl
  case unique =>
    intro i j a b k l hk hl hgi hgj hkey hn
    exact grants_unique hk hl hgi hgj hkey (settled_of_not_intrudes fun t ht => (hn t ht).1)
      (settled_of_not_intrudes fun t ht => (hn t ht).2)
  case handedOn =>
    intro hsvc hm k l i j a b hk hl hgi hgj hkey
    have hp : p.Hands [] := hm.program rfl
    have hs (i : InstanceId) : svc.Settled (.boot config s p) i n :=
      settled_of_not_intrudes fun t _ => not_intrudes hsvc hp t i
    exact (grants_unique hk hl hgi hgj hkey (hs i) (hs j)).2
  case owner =>
    intro i a h
    obtain ⟨j, hj⟩ := Engine.codegenOwner_eq_some h
    exact List.contains_iff_mem.mpr (ownedByRoots_after svc n hj)
  case granted =>
    intro i hneeds hnever
    have hunclaimed : (svc.after n (.boot config s p)).engine.isClaimed i = false := by
      rw [← Bool.not_eq_true, claimed_after_iff]
      rintro ⟨k, hk, a, hgrant⟩
      exact hnever k hk a hgrant
    exact Engine.exists_granted hneeds hunclaimed

end Service

/-- A front end that makes up a frame for the second instance when the third refers to itself, as the
front end goes on with the second. It goes on with the second once more then, and completes it. Then it
claims the code of the second, which is owed to the root module, and fails. -/
def recanting : Service Bool where
  evaluate _ _ := pure (.error ⟨"", {}⟩)
  openScope s := pure s
  declareSymbol _ _ _ := pure ()
  symbolName _ _ := ""
  elaborate c i :=
    .request (if i.index = 2 then ⟨⟨1⟩, ⟨1⟩, [], none, {}⟩ :: c else c)
      (if i.index = 0 then { decl := ⟨1⟩, gagged := true }
      else { decl := if i.index = 2 then ⟨2⟩ else ⟨0⟩, need := .reference })
      fun _ => .done (.ok [])
  resume _ := .service (fun b => (b, true)) fun
    | true => .done (.ok ())
    | false =>
      .request [] { decl := ⟨2⟩ } fun _ => .command (.claim ⟨1⟩ ⟨0⟩) fun _ =>
        .done (.error ⟨"", {}⟩)

/-- Asks for an instance of the first template and then for one of the second, and claims the code of
the fourth instance. -/
def claimFourth (σ : Type) : Program σ Bool :=
  .command (.declare { name := "A" }) fun _ => .command (.declare { name := "B" }) fun _ =>
    .command (.declare { name := "C" }) fun _ => .command (.addRoot ⟨0⟩) fun _ =>
      .request [] { decl := ⟨0⟩ } fun _ => .request [] { decl := ⟨1⟩ } fun _ =>
        .command (.claim ⟨3⟩ ⟨0⟩) .done

/-- The machine of the claim at its beginning. -/
def claimFourthBoot : Machine Bool Bool :=
  .boot { digest := fun _ _ => default } false (claimFourth Bool)

/-- The code of the second instance is granted, which fails then and is made again as the fourth. -/
theorem not_claimedOnce_recanting : ¬recanting.ClaimedOnce claimFourthBoot 51 := by
  intro h
  have hsecond : (recanting.after 37 claimFourthBoot).Grants ⟨1⟩ ⟨0⟩ := ⟨⟨_, _, rfl⟩, rfl⟩
  have hfourth : (recanting.after 50 claimFourthBoot).Grants ⟨3⟩ ⟨0⟩ := ⟨⟨_, _, rfl⟩, rfl⟩
  have hkey : (recanting.after 51 claimFourthBoot).engine.SameKey ⟨1⟩ ⟨3⟩ :=
    ⟨(⟨1⟩, [], none), rfl, rfl⟩
  cases h (by decide) (by decide) hsecond hfourth hkey

/-- Asks for an instance of the first template and claims the code of the second instance, once for a
module that does not own it and twice for the owner. -/
def claimThrice : Program Unit Bool :=
  .command (.declare { name := "A" }) fun _ => .command (.declare { name := "B" }) fun _ =>
    .command (.addRoot ⟨0⟩) fun _ => .request [] { decl := ⟨0⟩ } fun _ =>
      .command (.claim ⟨1⟩ ⟨5⟩) fun _ => .command (.claim ⟨1⟩ ⟨0⟩) fun _ =>
        .command (.claim ⟨1⟩ ⟨0⟩) .done

theorem claimThrice_hands : claimThrice.Hands [] :=
  fun _ _ _ => ⟨.inl rfl, fun _ _ _ _ => trivial⟩

/-- The machine of the three claims at its beginning. -/
def claimThriceBoot : Machine Unit Bool := .boot { digest := fun _ _ => default } () claimThrice

/-- Of the three claims the second is granted. -/
theorem claimsOnce_claimThrice : (twoWay.after 23 claimThriceBoot).Claims ⟨1⟩ ⟨5⟩ ∧
    ¬(twoWay.after 23 claimThriceBoot).Grants ⟨1⟩ ⟨5⟩ ∧
    (twoWay.after 24 claimThriceBoot).Grants ⟨1⟩ ⟨0⟩ ∧
    (twoWay.after 25 claimThriceBoot).Claims ⟨1⟩ ⟨0⟩ ∧
    ¬(twoWay.after 25 claimThriceBoot).Grants ⟨1⟩ ⟨0⟩ ∧
    twoWay.ClaimsOnce claimThriceBoot 26 ∧ twoWay.ClaimedOnce claimThriceBoot 26 := by
  have H : twoWay.ClaimsOnce claimThriceBoot 26 := Service.claimsOnce 26
  have hgrant : (twoWay.after 24 claimThriceBoot).Grants ⟨1⟩ ⟨0⟩ := ⟨⟨_, _, rfl⟩, rfl⟩
  have hm : claimThriceBoot.Handed := Service.boot_handed claimThrice_hands
  have honly {k : Nat} {a : ModuleId} (h : (twoWay.after k claimThriceBoot).Grants ⟨1⟩ a) : k = 24 :=
    H.once h hgrant
  exact ⟨⟨_, _, rfl⟩, fun h => absurd (honly h) (by decide), hgrant, ⟨_, _, rfl⟩,
    fun h => absurd (honly h) (by decide), H, H.handedOn twoWay_handsOn hm⟩

end Templates
