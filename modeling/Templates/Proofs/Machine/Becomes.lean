import Templates.Proofs.Engine.Keeps
import Templates.Proofs.Machine.Adequacy
import Templates.Proofs.Machine.Steps

/-!
# What becomes of the engine in a run

Of the engine alone there are two kinds of steps: it keeps what it has, or it makes an instance for a
plan (`Engine.Becomes`). This holds for every front end, whatever chains it makes requests with
(`Service.Steps.becomes`).
-/

namespace Templates

variable {σ α : Type}

namespace Engine

/-- A request for a declared template has the plan in this engine. -/
def Plans (e : Engine) (sem : Semantics σ) (q : Request) (p : Plan) : Prop :=
  q.decl.index < e.decls.size ∧ ∃ resolved s, (e.plan sem q resolved s).1 = .ok p

/-- What can become of an engine in a step. -/
inductive Becomes (sem : Semantics σ) (e : Engine) : Engine → Prop
  | keep {e'} : e.Keeps e' → e.Becomes sem e'
  /-- An instance is made for a plan that no cached instance fits. -/
  | create {q c p} : e.Plans sem q p → e.lookup p.decl p.deduction.args p.enclosing = none →
    e.Becomes sem (e.create q c p).2

theorem Becomes.grows {sem : Semantics σ} {e e' : Engine} (h : e.Becomes sem e') :
    e.Grows e' := by
  cases h with
  | keep h => exact h.toGrows
  | create => exact create_grows ..

/-- An instance remains the one that was made. -/
theorem Becomes.origins {sem : Semantics σ} {e e' : Engine} (h : e.Becomes sem e') {i : InstanceId}
    {x : Instance} (hx : e.origins i = some x) : e'.origins i = some x := by
  cases h with
  | keep h => rwa [h.origins]
  | create =>
    rw [origins_create, Arena.put_of_ne, hx]
    intro hi
    have hnew : e.origins ⟨e.insts.size⟩ = none := origins_eq_none_iff.mpr (Nat.le_refl _)
    rw [hi, hnew] at hx
    cases hx

end Engine

namespace Machine

/-- A plan is only made for a template that is declared. -/
def Planned (m : Machine σ α) : Prop :=
  ∀ ⦃call resolved⦄, m.control = .stage (.plan call resolved) →
    call.request.decl.index < m.engine.decls.size

/-- Nothing has happened yet. -/
def boot (config : EngineConfig) (s : σ) (p : Program σ α) : Machine σ α :=
  .start p ⟨{ config }, s⟩

end Machine

namespace Service

variable {svc : Service σ} {r : Run σ} {ws : List (Waiting σ α)} {call : Call} {e : Engine}
  {a : Except TemplateError InstanceId} {c : Control σ α} {m : Machine σ α}

theorem closeGag_quiet (e : Engine) (mark : Option GagMark) : e.Quiet (closeGag e mark) := by
  cases mark with
  | none => exact .refl e
  | some mark => exact .of_eq rfl rfl rfl

/-! ## Planned calls -/

theorem Steps.planned (h : svc.Steps r ws c m) : m.Planned := by
  cases h with
  | unresolved | refuse | answer | finish | undeclared =>
    cases ws <;> exact fun _ _ h => nomatch h
  | resolve hd =>
    rintro _ _ ⟨⟩
    exact hd
  | request =>
    rw [openCall_eq]
    exact fun _ _ h => nomatch h
  | _ => exact fun _ _ h => nomatch h

/-! ## Steps -/

theorem giveAnswer_keeps (he : r.engine.Keeps e) {s : σ} :
    r.engine.Keeps (giveAnswer ⟨e, s⟩ call a ws).engine := by
  cases ws with
  | nil => exact he
  | cons w ws => exact he.trans (closeGag_quiet e call.mark).keeps

theorem openCall_quiet {c : Chain} {q : Request} :
    r.engine.Quiet (openCall r c q ws).engine := by
  obtain ⟨_, h⟩ := r.engine.opened_frame q
  rw [openCall_eq, h]
  exact .of_eq rfl rfl rfl

/-- The engine keeps what it has in a step, or it makes an instance for a planned call. -/
theorem Steps.keeps_or_creates (hl : r.engine.Linked) (h : svc.Steps r ws c m) :
    r.engine.Keeps m.engine ∨ ∃ call resolved p s, c = .stage (.plan call resolved) ∧
      r.engine.plan svc.toSemantics call.request resolved r.service = (.ok p, s) ∧
      r.engine.answer? (svc.symbolName s) call.request call.chain p = none ∧
      m.engine = (r.engine.create call.request call.chain p).2 := by
  cases h with
  | create h ha => exact .inr ⟨_, _, _, _, rfl, h, ha, rfl⟩
  | unresolved | refuse => exact .inl (giveAnswer_keeps (Engine.reject_quiet ..).keeps)
  | undeclared => cases ws <;> exact .inl (.refl _)
  | answer _ ha => exact .inl (giveAnswer_keeps (Engine.answer?_keeps ha))
  | openScope =>
    refine .inl (Engine.Keeps.modifyInst ?_)
    exact fun _ => rfl
  | finish => exact .inl (giveAnswer_keeps (.refl _))
  | release | wake => exact .inl (Engine.release_keeps ..)
  | suspend => exact .inl (Engine.complete_keeps ..)
  | complete => exact .inl ((Engine.complete_keeps ..).trans (Engine.takeDeferred_keeps ..))
  | fail h =>
    obtain rfl := congrArg Prod.snd h
    exact .inl ((Engine.fail_keeps ..).trans (Engine.takeDeferred_keeps ..))
  | settle h =>
    subst h
    exact .inl ((Engine.settle_keeps ..).trans (Engine.takeDeferred_keeps ..))
  | command hc => exact .inl (Command.run_quiet hl _ hc).keeps
  | request => exact .inl openCall_quiet.keeps
  | resolve | elaborate | resume | done | halt | read | service | dangling | unasked =>
    exact .inl (.refl _)

/-- The engine keeps what it has in a step, or an instance is made. -/
theorem Steps.becomes (hl : r.engine.Linked) (hp : (⟨r, c, ws⟩ : Machine σ α).Planned)
    (h : svc.Steps r ws c m) : r.engine.Becomes svc.toSemantics m.engine := by
  obtain h | ⟨call, resolved, p, s, rfl, hplan, ha, he⟩ := h.keeps_or_creates hl
  · exact .keep h
  · rw [he]
    exact .create ⟨hp rfl, _, _, congrArg Prod.fst hplan⟩ (Engine.answer?_eq_none_iff.mp ha).2.1

/-! ## Runs -/

/-- The step after a moment. -/
theorem steps_after {m₀ : Machine σ α} {n : Nat} (h : svc.after n m₀ = ⟨r, c, ws⟩) :
    svc.Steps r ws c (svc.after (n + 1) m₀) := by
  rw [after_succ, h]
  exact step_steps ⟨r, c, ws⟩

variable (svc) {config : EngineConfig} {s : σ} {p : Program σ α}

theorem planned_after (n : Nat) : (svc.after n (.boot config s p)).Planned := by
  cases n with
  | zero => exact fun _ _ h => nomatch h
  | succ n =>
    rw [after_succ]
    exact (step_steps _).planned

theorem linked_after (n : Nat) : (svc.after n (.boot config s p)).engine.Linked := by
  induction n with
  | zero => exact .init config
  | succ n ih =>
    rw [after_succ]
    exact ((step_steps _).becomes ih (planned_after svc n)).grows.linked ih

/-- What holds of a new engine and is preserved holds in every run. -/
theorem engine_always {P : Engine → Prop} (hboot : P { config })
    (hstep : ∀ e e', e.Linked → P e → e.Becomes svc.toSemantics e' → P e') (n : Nat) :
    P (svc.after n (.boot config s p)).engine := by
  induction n with
  | zero => exact hboot
  | succ n ih =>
    have hl : (svc.after n (.boot config s p)).engine.Linked := linked_after svc n
    rw [after_succ]
    exact hstep _ _ hl ih ((step_steps _).becomes hl (planned_after svc n))

theorem config_after (n : Nat) : (svc.after n (.boot config s p)).engine.config = config := by
  refine engine_always svc (P := fun e => e.config = config) rfl ?_ n
  intro e e' _ he h
  rw [← he]
  exact h.grows.config

theorem grows_after {k n : Nat} (hk : k ≤ n) :
    (svc.after k (.boot config s p)).engine.Grows (svc.after n (.boot config s p)).engine := by
  induction n, hk using Nat.le_induction with
  | base => exact .refl _
  | succ n _ ih =>
    rw [after_succ]
    exact ih.trans ((step_steps _).becomes (linked_after svc n) (planned_after svc n)).grows

theorem origins_after {k n : Nat} (hk : k ≤ n) {i : InstanceId} {x : Instance}
    (hx : (svc.after k (.boot config s p)).engine.origins i = some x) :
    (svc.after n (.boot config s p)).engine.origins i = some x := by
  induction n, hk using Nat.le_induction with
  | base => exact hx
  | succ n _ ih =>
    rw [after_succ]
    exact ((step_steps _).becomes (linked_after svc n) (planned_after svc n)).origins ih

end Service

end Templates
