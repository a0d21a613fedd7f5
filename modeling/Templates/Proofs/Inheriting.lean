import Templates.Proofs.Claiming
import Templates.Proofs.Enclosing
import Templates.Proofs.Ownership
import Templates.Proofs.Parking

/-!
# Code that is needed further out

The code of an instance that no root module asked for is needed when that of an instance around it is,
and for one that is not complete none is needed (`Engine.CodeNeeded`). What is owed is more than that:
only the instance itself has to be complete, and an owner is looked for all the way out
(`Engine.needsCodegen_iff`). So code is owed for what a failed elaboration has made
(`not_followsRule_wavering`).

`Service.inheritsCode` says when it is more. As long as no instance around one that is complete has
failed, what is owed is what is needed.
-/

namespace Templates

variable {σ α : Type}

namespace Engine

variable {e : Engine} {i o t : InstanceId}

/-- The way out from `i` leads to `t`. -/
def Encloses (e : Engine) (t i : InstanceId) : Prop := ∃ o, e.outer? i = some o ∧ e.Around o t

/-- Code is needed for a complete instance that a root module asked for, and for one that lies inside
an instance whose code is needed. -/
inductive CodeNeeded (e : Engine) : InstanceId → Prop
  | asked {i : InstanceId} : e.isComplete i = true → (e.firstModule? i).isSome → CodeNeeded e i
  | inherited {i t : InstanceId} : e.isComplete i = true → e.Encloses t i → CodeNeeded e t →
    CodeNeeded e i

/-- The property follows the rule for the code that is needed. -/
def Rule (e : Engine) (P : InstanceId → Prop) : Prop :=
  ∀ i, P i ↔ e.isComplete i = true ∧ ((e.firstModule? i).isSome ∨ ∃ t, e.Encloses t i ∧ P t)

/-! ## Enclosing instances -/

theorem Around.trans (h : e.Around i o) (h' : e.Around o t) : e.Around i t := by
  induction h with
  | self => exact h'
  | outer ho _ ih => exact .outer ho (ih h')

theorem Encloses.around (h : e.Encloses t i) : e.Around i t :=
  let ⟨_, ho, ht⟩ := h
  .outer ho ht

theorem around_iff_eq_or_encloses : e.Around i t ↔ i = t ∨ e.Encloses t i := by
  constructor
  · intro h
    cases h with
    | self => exact .inl rfl
    | outer ho h => exact .inr ⟨_, ho, h⟩
  · rintro (rfl | h)
    · exact .self i
    · exact h.around

theorem Ordered.index_le_of_around (H : e.Ordered) (h : e.Around i t) : t.index ≤ i.index := by
  induction h with
  | self => exact Nat.le_refl _
  | outer ho _ ih => exact ih.trans (H ho).le

theorem Ordered.index_lt_of_encloses (H : e.Ordered) (h : e.Encloses t i) : t.index < i.index :=
  let ⟨_, ho, ht⟩ := h
  (H.index_le_of_around ht).trans_lt (H ho)

/-! ## The rule -/

namespace CodeNeeded

/-- The least solution of the rule. -/
theorem rule (e : Engine) : e.Rule e.CodeNeeded := by
  intro i
  constructor
  · intro h
    cases h with
    | asked hi hm => exact ⟨hi, .inl hm⟩
    | inherited hi ht h => exact ⟨hi, .inr ⟨_, ht, h⟩⟩
  · rintro ⟨hi, hm | ⟨t, ht, h⟩⟩
    · exact .asked hi hm
    · exact .inherited hi ht h

end CodeNeeded

/-- Nothing else follows the rule if every link leads to an older instance. -/
theorem Ordered.rule_iff (H : e.Ordered) {P : InstanceId → Prop} :
    e.Rule P ↔ ∀ i, P i ↔ e.CodeNeeded i := by
  constructor
  · intro h i
    -- On the number of the instance: those around it have smaller ones.
    induction hn : i.index using Nat.strong_induction_on generalizing i with
    | _ n ih =>
      subst hn
      rw [h i, CodeNeeded.rule e i]
      refine and_congr_right fun _ => or_congr_right (exists_congr fun t => ?_)
      exact and_congr_right fun ht => ih t.index (H.index_lt_of_encloses ht) t rfl
  · intro h
    obtain rfl : P = e.CodeNeeded := funext fun i => propext (h i)
    exact CodeNeeded.rule e

/-- Who asked is complete, and so is the instance itself. -/
theorem codeNeeded_iff : e.CodeNeeded i ↔ e.isComplete i = true ∧
    ∃ t, e.Around i t ∧ (e.firstModule? t).isSome ∧ e.isComplete t = true := by
  constructor
  · intro h
    induction h with
    | asked hi hm => exact ⟨hi, _, .self _, hm, hi⟩
    | inherited hi ht _ ih =>
      obtain ⟨-, u, hu, hm, hc⟩ := ih
      exact ⟨hi, u, ht.around.trans hu, hm, hc⟩
  · rintro ⟨hi, t, ht, hm, hc⟩
    obtain rfl | ht := around_iff_eq_or_encloses.mp ht
    · exact .asked hi hm
    · exact .inherited hi ht (.asked hc hm)

/-- Of those around a complete instance only one that was asked for matters. -/
theorem needsCodegen_iff : e.needsCodegen i = true ↔ e.isComplete i = true ∧
    ∃ t, e.Around i t ∧ (e.firstModule? t).isSome := by
  rw [needsCodegen, Bool.and_eq_true, codegenOwner_isSome_iff]

theorem needsCodegen_of_codeNeeded (h : e.CodeNeeded i) : e.needsCodegen i = true := by
  obtain ⟨hi, t, ht, hm, -⟩ := codeNeeded_iff.mp h
  exact needsCodegen_iff.mpr ⟨hi, t, ht, hm⟩

/-- Code is owed that is not needed exactly if nothing around the instance that was asked for is
complete. -/
theorem needsCodegen_and_not_codeNeeded_iff : e.needsCodegen i = true ∧ ¬e.CodeNeeded i ↔
    e.needsCodegen i = true ∧
      ∀ t, e.Around i t → (e.firstModule? t).isSome → e.isComplete t = false := by
  refine and_congr_right fun hi => ?_
  have hcomplete := (needsCodegen_iff.mp hi).1
  simp [codeNeeded_iff, hcomplete]

end Engine

namespace Service

/-- What code is owed for, and what it is needed for, when the run from `m₀` has made `n` steps. -/
structure InheritsCode (svc : Service σ) (m₀ : Machine σ α) (n : Nat) : Prop where
  /-- Code that is needed is owed. -/
  owed {i : InstanceId} : (svc.after n m₀).engine.CodeNeeded i →
    (svc.after n m₀).engine.needsCodegen i = true
  /-- More is owed for a complete instance if a root module needed one around it, but none that is
  complete now. -/
  beyond {i : InstanceId} : ((svc.after n m₀).engine.needsCodegen i = true ∧
      ¬(svc.after n m₀).engine.CodeNeeded i) ↔ (svc.after n m₀).engine.isComplete i = true ∧
    (∃ t, (svc.after n m₀).engine.Around i t ∧ ∃ k < n, svc.Needed (svc.after k m₀) t) ∧
    ∀ t, (svc.after n m₀).engine.Around i t → (∃ k < n, svc.Needed (svc.after k m₀) t) →
      (svc.after n m₀).engine.isComplete t = false
  /-- If only chains that were handed on are in use, the rule has one solution. -/
  rule : svc.HandsOn → m₀.Handed → ∀ {P : InstanceId → Prop}, (svc.after n m₀).engine.Rule P ↔
    ∀ i, P i ↔ (svc.after n m₀).engine.CodeNeeded i
  /-- Who needed the code of such an instance at the top has failed. -/
  errored : svc.HandsOn → m₀.Handed → (svc.after n m₀).AtTop → ∀ {i t : InstanceId},
    (svc.after n m₀).engine.needsCodegen i = true → ¬(svc.after n m₀).engine.CodeNeeded i →
    (svc.after n m₀).engine.Around i t → (∃ k < n, svc.Needed (svc.after k m₀) t) →
    i ≠ t ∧ ∃ x, (svc.after n m₀).engine.inst? t = some x ∧ x.state = .errored

variable {svc : Service σ} {config : EngineConfig} {s : σ} {p : Program σ α} {n : Nat}

/-- **Code that is needed is owed, and more only for what lies inside instances that are not
complete.** -/
theorem inheritsCode (n : Nat) : svc.InheritsCode (.boot config s p) n := by
  have hbeyond (i : InstanceId) :=
    (svc.after n (.boot config s p)).engine.needsCodegen_and_not_codeNeeded_iff (i := i)
  constructor
  case owed => exact Engine.needsCodegen_of_codeNeeded
  case beyond =>
    intro i
    rw [hbeyond, Engine.needsCodegen_iff, and_assoc]
    simp only [firstModule?_isSome_iff]
  case rule =>
    intro hsvc hm P
    exact (ordered_after hsvc (hm.program rfl) n).rule_iff
  case errored =>
    intro hsvc hm htop i t hi hnot hit ht
    have hasked := (firstModule?_isSome_iff svc t).mpr ht
    have hincomplete := ((hbeyond i).mp ⟨hi, hnot⟩).2 t hit hasked
    refine ⟨?_, ?_⟩
    · rintro rfl
      rw [(Engine.needsCodegen_iff.mp hi).1] at hincomplete
      cases hincomplete
    · obtain ⟨m, hm'⟩ := Option.isSome_iff_exists.mp hasked
      obtain ⟨x, hx, -⟩ := Option.bind_eq_some_iff.mp hm'
      have H : (svc.after n (.boot config s p)).activity.Sound :=
        sound_after hsvc (hm.program rfl) n
      obtain ⟨hstate, -⟩ := H.idle htop.work_eq hx
      refine ⟨x, hx, hstate.resolve_left fun hc => ?_⟩
      rw [Engine.isComplete_eq_true_iff.mpr ⟨x, hx, hc⟩] at hincomplete
      cases hincomplete

end Service

/-- A front end whose instances of the first template try out one of the second, and fail. -/
def wavering : Service Unit where
  evaluate _ _ := pure (.error ⟨"", {}⟩)
  openScope s := pure s
  declareSymbol _ _ _ := pure ()
  symbolName _ _ := ""
  elaborate c _ :=
    if (c.head?.map (·.decl)) = some ⟨0⟩ then
      .request c { decl := ⟨1⟩, gagged := true } fun _ => .done (.error ⟨"", {}⟩)
    else .done (.ok [])

theorem wavering_handsOn : wavering.HandsOn := by
  refine ⟨fun c i => ?_, fun _ => trivial⟩
  change Program.Hands c (if _ then _ else _)
  split
  · exact ⟨.inl rfl, fun _ => trivial⟩
  · trivial

theorem rootFirst_hands : rootFirst.Hands [] := fun _ _ _ => ⟨.inl rfl, fun _ => trivial⟩

/-- The second instance lies inside the first. -/
theorem around_wavering {t : InstanceId}
    (h : (wavering.after 17 rootFirstBoot).engine.Around ⟨1⟩ t) : t = ⟨1⟩ ∨ t = ⟨0⟩ := by
  have hinner : (wavering.after 17 rootFirstBoot).engine.outer? ⟨1⟩ = some ⟨0⟩ := rfl
  have houter : (wavering.after 17 rootFirstBoot).engine.outer? ⟨0⟩ = none := rfl
  cases h with
  | self => exact .inl rfl
  | outer ho h =>
    cases hinner.symm.trans ho
    cases h with
    | self => exact .inr rfl
    | outer ho _ => cases houter.symm.trans ho

theorem not_codeNeeded_wavering : ¬(wavering.after 17 rootFirstBoot).engine.CodeNeeded ⟨1⟩ := by
  intro h
  obtain ⟨-, t, ht, hm, hc⟩ := Engine.codeNeeded_iff.mp h
  obtain rfl | rfl := around_wavering ht
  · cases hm
  · cases hc

/-- The second instance is complete and no root module asked for it. It lies inside the first, which
the root module asked for, and which failed. So its code is not needed, but it is owed. -/
theorem not_followsRule_wavering : (wavering.after 17 rootFirstBoot).AtTop ∧
    (wavering.after 17 rootFirstBoot).engine.needsCodegen ⟨1⟩ = true ∧
    ¬(wavering.after 17 rootFirstBoot).engine.CodeNeeded ⟨1⟩ ∧
    ¬(wavering.after 17 rootFirstBoot).engine.Rule
      fun i => (wavering.after 17 rootFirstBoot).engine.needsCodegen i = true := by
  have ho : (wavering.after 17 rootFirstBoot).engine.Ordered :=
    Service.ordered_after wavering_handsOn rootFirst_hands 17
  exact ⟨⟨rfl, _, rfl⟩, rfl, not_codeNeeded_wavering,
    fun h => not_codeNeeded_wavering ((ho.rule_iff.mp h ⟨1⟩).mp rfl)⟩

/-- The code of the second instance is owed because the first has failed, and for nothing else. -/
theorem inheritsCode_wavering : wavering.InheritsCode rootFirstBoot 17 ∧
    ∃ x, (wavering.after 17 rootFirstBoot).engine.inst? ⟨0⟩ = some x ∧ x.state = .errored := by
  have H : wavering.InheritsCode rootFirstBoot 17 := Service.inheritsCode 17
  have hm : rootFirstBoot.Handed := Service.boot_handed rootFirst_hands
  obtain ⟨-, ⟨t, ht, hneeded⟩, -⟩ := H.beyond.mp ⟨rfl, not_codeNeeded_wavering⟩
  obtain ⟨hne, herrored⟩ := H.errored wavering_handsOn hm ⟨rfl, _, rfl⟩ rfl not_codeNeeded_wavering
    ht hneeded
  obtain rfl | rfl := around_wavering ht
  · exact absurd rfl hne
  · exact ⟨H, herrored⟩

end Templates
