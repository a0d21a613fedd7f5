import Templates.Proofs.Engine.Faithful
import Templates.Proofs.Machine.Calls

/-!
# Where instances come from

An instance is made in the step in which its call is planned, for the plan and the request of that call
(`Service.exists_planning`). The arguments that a call is planned with are those that were resolved for
it in the step before (`Service.screened_after`).
-/

namespace Templates

variable {σ α : Type}

/-- A call is only planned with arguments that have no error in them. -/
def Machine.Screened (m : Machine σ α) : Prop :=
  ∀ ⦃call resolved⦄, m.control = .stage (.plan call resolved) →
    ∀ a ∈ resolved, a.containsError = false

/-- A request resolves to its arguments if there is no error in them. -/
theorem Semantics.resolveRequest_eq_ok {sem : Semantics σ} {q : Request} {s s' : σ}
    {resolved : List Arg} (h : sem.resolveRequest q s = (.ok resolved, s')) :
    sem.resolveArgs q.scope q.args s = (.ok resolved, s') ∧
      ∀ a ∈ resolved, a.containsError = false := by
  rw [resolveRequest, bind_run] at h
  rcases hres : sem.resolveArgs q.scope q.args s with ⟨f | as, s₁⟩ <;> rw [hres] at h
  · cases h
  · dsimp only at h
    split at h
    · cases h
    · next hany =>
      cases h
      exact ⟨rfl, by simpa using hany⟩

namespace Service

variable {svc : Service σ} {m : Machine σ α} {config : EngineConfig} {s : σ} {p : Program σ α}
  {n : Nat} {i : InstanceId} {x : Instance} {call : Call} {pl : Plan}

/-- A call is planned in the step after its arguments were resolved. -/
theorem resolved_of_plan {resolved : List Arg}
    (h : (svc.step m).control = .stage (.plan call resolved)) :
    m.control = .stage (.resolve call) ∧
      ∃ s, svc.resolveRequest call.request m.run.service = (.ok resolved, s) := by
  have hs : svc.Steps m.run m.waiting m.control (svc.step m) := step_steps m
  obtain ⟨r, c, ws⟩ := m
  generalize hm : svc.step ⟨r, c, ws⟩ = m at hs h
  cases hs with
  | unresolved | refuse | answer | finish | undeclared => cases ws <;> cases h
  | request =>
    rw [openCall_eq] at h
    cases h
  | @resolve call resolved s =>
    cases h
    have hm := congrArg Machine.control hm
    rw [step_resolve] at hm
    rcases hres : svc.resolveRequest call.request r.service with ⟨err | as, s₁⟩ <;> rw [hres] at hm
    · cases ws <;> cases hm
    · dsimp only at hm
      split at hm
      · cases ws <;> cases hm
      · cases hm
        exact ⟨rfl, _, rfl⟩
  | _ => cases h

variable (svc) in
theorem screened_after (n : Nat) : (svc.after n (.boot config s p)).Screened := by
  cases n with
  | zero => exact fun _ _ h => nomatch h
  | succ n =>
    rw [after_succ]
    intro call resolved h
    obtain ⟨-, s, hs⟩ := resolved_of_plan h
    exact (Semantics.resolveRequest_eq_ok hs).2

theorem Planning.screened (h : svc.Planning (svc.after n (.boot config s p)) call pl) :
    ∀ a ∈ pl.resolved, a.containsError = false := by
  obtain ⟨resolved, s, hc, hplan⟩ := h
  rw [(Engine.plan_eq_ok hplan).1]
  exact screened_after svc n hc

/-- The plan is one for a request for a declared template. -/
theorem Planning.plans (h : svc.Planning (svc.after n (.boot config s p)) call pl) :
    (svc.after n (.boot config s p)).engine.Plans svc.toSemantics call.request pl := by
  obtain ⟨resolved, s, hc, hplan⟩ := h
  exact ⟨planned_after svc n hc, resolved, _, congrArg Prod.fst hplan⟩

/-- Every instance was made for the plan of a call. -/
theorem exists_planning (hx : (svc.after n (.boot config s p)).engine.origins i = some x) :
    ∃ k < n, ∃ call pl, svc.Planning (svc.after k (.boot config s p)) call pl ∧
      i = ⟨(svc.after k (.boot config s p)).engine.insts.size⟩ ∧
      x = (svc.after k (.boot config s p)).engine.made call.request call.chain pl := by
  induction n with
  | zero => cases (Engine.origins_eq_none_iff.mpr (Nat.zero_le _)).symm.trans hx
  | succ n ih =>
    rw [after_succ] at hx
    obtain hkeep | ⟨call, resolved, pl, s', hc, hplan, -, he⟩ :=
      (step_steps (svc.after n (.boot config s p))).keeps_or_creates (linked_after svc n)
    · rw [hkeep.origins] at hx
      obtain ⟨k, hk, h⟩ := ih hx
      exact ⟨k, Nat.lt_succ_of_lt hk, h⟩
    · rw [he, Engine.origins_create] at hx
      by_cases hi : i = ⟨(svc.after n (.boot config s p)).engine.insts.size⟩
      · rw [hi, Arena.put_self] at hx
        exact ⟨n, Nat.lt_succ_self n, call, pl, ⟨resolved, s', hc, hplan⟩, hi,
          (Option.some.inj hx).symm⟩
      · rw [Arena.put_of_ne hi] at hx
        obtain ⟨k, hk, h⟩ := ih hx
        exact ⟨k, Nat.lt_succ_of_lt hk, h⟩

end Service

end Templates
