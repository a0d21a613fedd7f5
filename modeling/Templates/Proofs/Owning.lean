import Templates.Proofs.Ownership

/-!
# The owner that a request leaves behind

A root module that gets an instance outside every gag is to be its owner if there is none yet. So it is
if the instance is new or comes from a cache. An instance in progress that the request finds on its
chain keeps the owner that it has, or none (`Service.owned_iff`): a reference to it leaves nothing
behind, though the same reference does so when the chain is not handed on
(`not_leavesOwner_echoing`).
-/

namespace Templates

variable {σ α : Type}

namespace Engine

variable {e e' : Engine} {i t : InstanceId}

theorem Around.of_outer? (h : e.Around i t) (ho : e'.outer? = e.outer?) : e'.Around i t := by
  induction h with
  | self i => exact .self i
  | outer hout _ ih => exact .outer ((congrFun ho _).trans hout) ih

theorem codegenOwner_congr (ho : e'.outer? = e.outer?) (hm : e'.firstModule? = e.firstModule?)
    (i : InstanceId) : (e'.codegenOwner i).isSome ↔ (e.codegenOwner i).isSome := by
  rw [codegenOwner_isSome_iff, codegenOwner_isSome_iff, hm]
  exact exists_congr fun t => and_congr_left fun _ => ⟨(·.of_outer? ho.symm), (·.of_outer? ho)⟩

end Engine

namespace Service

/-- In the next step a call is carried out that asks for what stands on its chain. -/
def FindsOnChain (svc : Service σ) (m : Machine σ α) : Prop :=
  ∃ call p, svc.Planning m call p ∧
    (call.chain.findAttempt? p.decl p.deduction.args p.enclosing).isSome

/-- A request of a root module outside every gag leaves an owner for the instance that it is answered
with. -/
def LeavesOwner (svc : Service σ) (m₀ : Machine σ α) : Prop :=
  ∀ ⦃k l role c q j⦄, svc.Gets m₀ k l role c q j → q.gagged = false →
    (svc.after k m₀).engine.isGagged = false → (svc.after k m₀).engine.isRoot q.module = true →
    ((svc.after (l + 1) m₀).engine.codegenOwner j).isSome

variable {svc : Service σ} {m m₀ : Machine σ α} {config : EngineConfig} {s : σ} {p : Program σ α}
  {k l : Nat} {role : Role} {c : Chain} {q : Request} {i j : InstanceId}

theorem Planning.unique {call call' : Call} {pl pl' : Plan} (h : svc.Planning m call pl)
    (h' : svc.Planning m call' pl') : call = call' ∧ pl = pl' := by
  obtain ⟨resolved, s, hc, hp⟩ := h
  obtain ⟨resolved', s', hc', hp'⟩ := h'
  rw [hc] at hc'
  cases hc'
  rw [hp] at hp'
  cases hp'
  exact ⟨rfl, rfl⟩

/-- Who finds the instance on the chain is answered at once and leaves no traces. Everyone else
does. -/
theorem Gets.takes_or_finds (h : svc.Gets m₀ k l role c q j) :
    (¬svc.FindsOnChain (svc.after (k + 2) m₀) ∧ k + 2 ≤ l ∧
      ∃ call : Call, call.request = q ∧ svc.takes (svc.after (k + 2) m₀) = some (call, j)) ∨
    svc.FindsOnChain (svc.after (k + 2) m₀) ∧ l = k + 2 ∧
      svc.takes (svc.after (k + 2) m₀) = none := by
  obtain ⟨r, resolved, w, ws, hplan, -, -, -, hle, hin, hw, ha⟩ := h.opened
  obtain ⟨pl, s, hp, hsource⟩ := exists_plan_of_answers hplan hle hin hw ha
  have hplanning : svc.Planning (svc.after (k + 2) m₀)
      (.opened (svc.after k m₀).engine c q) pl := by
    rw [hplan]
    exact ⟨resolved, s, rfl, hp⟩
  have htakes : svc.takes (svc.after (k + 2) m₀) =
      (r.engine.takes? (svc.symbolName s) q c pl).map (.opened (svc.after k m₀).engine c q, ·) := by
    rw [hplan]
    exact takes_plan hp
  cases hf : c.findAttempt? pl.decl pl.deduction.args pl.enclosing with
  | some attempt =>
    refine .inr ⟨⟨_, pl, hplanning, Option.isSome_of_eq_some hf⟩, ?_, ?_⟩
    · obtain ⟨hl, -⟩ | ⟨-, hnone, -⟩ := hsource
      · exact hl
      · have hnone : r.engine.answer? (svc.symbolName s) q c pl = none := hnone
        rw [Engine.answer?, hf] at hnone
        cases hnone
    · rw [htakes, Engine.takes?, hf]
      rfl
  | none =>
    refine .inl ⟨?_, hle, .opened (svc.after k m₀).engine c q, rfl, ?_⟩
    · rintro ⟨call, pl', hplanning', hfinds⟩
      obtain ⟨rfl, rfl⟩ := hplanning'.unique hplanning
      have hfinds : (c.findAttempt? pl'.decl pl'.deduction.args pl'.enclosing).isSome := hfinds
      rw [hf] at hfinds
      cases hfinds
    · obtain ⟨-, e, he⟩ | ⟨-, hnone, rfl, -⟩ := hsource
      · have he : r.engine.answer? (svc.symbolName s) q c pl = some (.ok j, e) := he
        rw [htakes, Engine.takes?, hf, he]
        rfl
      · have hnone : r.engine.answer? (svc.symbolName s) q c pl = none := hnone
        rw [htakes, Engine.takes?_of_answer?_eq_none hnone]
        rfl

/-- What leaves no traces leaves the owners as they were. -/
theorem step_codegenOwner (hl : m.engine.Linked) (h : svc.takes m = none) (i : InstanceId) :
    ((svc.step m).engine.codegenOwner i).isSome ↔ (m.engine.codegenOwner i).isSome := by
  refine Engine.codegenOwner_congr ?_ (funext fun j => ?_) i
  · obtain hkeeps | ⟨call, resolved, pl, s, hc, hp, ha, -⟩ := (step_steps m).keeps_or_creates hl
    · exact hkeeps.outer?
    · obtain ⟨r, _, ws⟩ := m
      cases hc
      rw [takes_plan hp, Engine.takes?_of_answer?_eq_none ha] at h
      cases h
  · have hleaves : svc.Leaves m (svc.step m).engine := step_leaves m
    cases hleaves with
    | same _ hsame => exact hsame.firstModule? j
    | take ht _ =>
      rw [h] at ht
      cases ht
    | claim _ _ he =>
      rw [he]
      exact Engine.claimCodegen_firstModule? ..

/-- **What a request of a root module leaves behind.** Outside every gag the instance that it is
answered with has an owner afterwards, unless the request found it on its chain and it had none
before. -/
theorem owned_iff (h : svc.Gets (.boot config s p) k l role c q j) (hq : q.gagged = false)
    (hg : (svc.after k (.boot config s p)).engine.isGagged = false)
    (hr : (svc.after k (.boot config s p)).engine.isRoot q.module = true) :
    ((svc.after (l + 1) (.boot config s p)).engine.codegenOwner j).isSome ↔
      ¬svc.FindsOnChain (svc.after (k + 2) (.boot config s p)) ∨
        ((svc.after k (.boot config s p)).engine.codegenOwner j).isSome := by
  obtain ⟨hinsts, hroots, hgag, -⟩ := h.planned
  obtain ⟨hfinds, hle, call, rfl, ht⟩ | ⟨hfinds, rfl, ht⟩ := h.takes_or_finds
  · refine ⟨fun _ => .inl hfinds, fun _ => Engine.codegenOwner_isSome_iff.mpr ⟨j, .self j, ?_⟩⟩
    have hroot : (svc.after (k + 2) (.boot config s p)).engine.isRoot call.request.module = true := by
      rwa [Engine.isRoot, hroots]
    rw [firstModule?_isSome_iff]
    exact ⟨k + 2, Nat.lt_succ_of_le hle, call, ht, (hgag hq).trans hg, hroot⟩
  · have hbefore : ((svc.after (k + 2) (.boot config s p)).engine.codegenOwner j).isSome ↔
        ((svc.after k (.boot config s p)).engine.codegenOwner j).isSome := by
      refine Engine.codegenOwner_congr (funext fun i => ?_) (funext fun i => ?_) j
      · rw [Engine.outer?, Engine.inst?, hinsts]
        rfl
      · rw [Engine.firstModule?, Engine.inst?, hinsts]
        rfl
    rw [after_succ, step_codegenOwner (linked_after svc _) ht, hbefore]
    exact (or_iff_right (not_not_intro hfinds)).symm

end Service

/-- A front end whose instances refer to themselves, for the first module. -/
def echoing : Service Unit where
  evaluate _ _ := pure (.error ⟨"", {}⟩)
  openScope s := pure s
  declareSymbol _ _ _ := pure ()
  symbolName _ _ := ""
  elaborate c _ := .request c { decl := ⟨0⟩, need := .reference } fun _ => .done (.ok [])

/-- A root module and a template. Another module asks for an instance. -/
def otherFirst : Program Unit (Except TemplateError InstanceId) :=
  .command (.addRoot ⟨0⟩) fun _ => .command (.declare { name := "A" }) fun _ =>
    .request [] { decl := ⟨0⟩, module := ⟨9⟩ } .done

/-- The machine of the request at its beginning. -/
def otherFirstBoot : Machine Unit (Except TemplateError InstanceId) :=
  .boot { digest := fun _ _ => default } () otherFirst

theorem echoing_handsOn : echoing.HandsOn :=
  ⟨fun _ _ => ⟨.inl rfl, fun _ => trivial⟩, fun _ => trivial⟩

theorem echoing_gets : ∃ call p c q,
    echoing.Gets otherFirstBoot 7 9 (.elaborate call p ⟨0⟩) c q ⟨0⟩ ∧ q.gagged = false ∧
      (echoing.after 7 otherFirstBoot).engine.isRoot q.module = true := by
  refine ⟨_, _, _, _, ⟨⟨_, rfl⟩, _, _, _, rfl, by decide, fun j hj hj' => ?_, rfl, rfl⟩, rfl, rfl⟩
  interval_cases j <;> exact ⟨[], rfl⟩

/-- The instance refers to itself on behalf of a root module, with the chain that it was given. The
reference is answered with the instance, and the instance has no owner, also at the end. -/
theorem not_leavesOwner_echoing : echoing.HandsOn ∧ otherFirst.Hands [] ∧
    ¬echoing.LeavesOwner otherFirstBoot ∧ (echoing.after 12 otherFirstBoot).AtTop ∧
    (echoing.after 12 otherFirstBoot).engine.codegenOwner ⟨0⟩ = none := by
  refine ⟨echoing_handsOn, fun _ _ => ⟨.inl rfl, fun _ => trivial⟩, fun h => ?_, ⟨rfl, _, rfl⟩, rfl⟩
  obtain ⟨call, p, c, q, hgets, hq, hr⟩ := echoing_gets
  cases h hgets hq rfl hr

/-- The root module asks for the instance itself before the instance refers to itself. So it has an
owner when the reference is answered, though the reference finds it on its chain. -/
theorem owned_iff_echoing : ∃ call p c q,
    echoing.Gets rootFirstBoot 8 10 (.elaborate call p ⟨0⟩) c q ⟨0⟩ ∧ q.gagged = false ∧
      (echoing.after 8 rootFirstBoot).engine.isGagged = false ∧
      (echoing.after 8 rootFirstBoot).engine.isRoot q.module = true ∧
      ((echoing.after 11 rootFirstBoot).engine.codegenOwner ⟨0⟩).isSome := by
  have hgets : ∃ call p c q, echoing.Gets rootFirstBoot 8 10 (.elaborate call p ⟨0⟩) c q ⟨0⟩ ∧
      q.gagged = false ∧ (echoing.after 8 rootFirstBoot).engine.isRoot q.module = true := by
    refine ⟨_, _, _, _, ⟨⟨_, rfl⟩, _, _, _, rfl, by decide, fun j hj hj' => ?_, rfl, rfl⟩, rfl, rfl⟩
    interval_cases j <;> exact ⟨[], rfl⟩
  obtain ⟨call, p, c, q, hgets, hq, hr⟩ := hgets
  exact ⟨call, p, c, q, hgets, hq, rfl, hr, (Service.owned_iff hgets hq rfl hr).mpr (.inr rfl)⟩

end Templates
