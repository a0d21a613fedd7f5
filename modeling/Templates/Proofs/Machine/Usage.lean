import Templates.Proofs.Engine.Usage
import Templates.Proofs.Machine.Becomes

/-!
# Who has asked for an instance in a run

A call leaves its traces on an instance when it makes it or finds it in a cache (`Service.takes`). So
an instance has an owner of its own exactly if a root module has got it so outside every gag
(`Service.firstModule?_isSome_iff`), and what is left on an instance changes in one direction only
(`Service.later_after`). This holds for every front end, whatever chains it makes requests with.
-/

namespace Templates

variable {σ α : Type}

/-- What the first traces can become, when the second list has the roots. -/
structure Usage.Later (roots : List ModuleId) (u v : Usage) : Prop where
  gagged : v.gagged = true → u.gagged = true
  claimed : u.claimed = true → v.claimed = true
  firstModule : v.firstModule = u.firstModule ∨
    u.firstModule = none ∧ ∃ m ∈ roots, v.firstModule = some m

namespace Engine

/-- Instances stay, and their traces change in one direction. -/
structure Later (e e' : Engine) : Prop where
  roots : e.roots ⊆ e'.roots
  usage {i : InstanceId} {u : Usage} :
    e.usage? i = some u → ∃ v, e'.usage? i = some v ∧ u.Later e'.roots v

variable {e e' e'' : Engine} {i : InstanceId}

namespace Later

@[refl] theorem refl (e : Engine) : e.Later e :=
  ⟨List.Subset.refl _, fun {_ u} hu => ⟨u, hu, id, id, .inl rfl⟩⟩

@[trans] theorem trans (h : e.Later e') (h' : e'.Later e'') : e.Later e'' where
  roots := List.Subset.trans h.roots h'.roots
  usage hu := by
    obtain ⟨v, hv, huv⟩ := h.usage hu
    obtain ⟨w, hw, hvw⟩ := h'.usage hv
    refine ⟨w, hw, fun h => huv.gagged (hvw.gagged h), fun h => hvw.claimed (huv.claimed h), ?_⟩
    obtain hfirst | ⟨hnone, m, hm, hfirst⟩ := hvw.firstModule
    · rw [hfirst]
      refine huv.firstModule.imp_right fun ⟨hnone, m, hm, hfirst⟩ => ⟨hnone, m, ?_, hfirst⟩
      exact h'.roots hm
    · obtain hsame | ⟨-, m', -, hset⟩ := huv.firstModule
      · exact .inr ⟨hsame ▸ hnone, m, hm, hfirst⟩
      · rw [hset] at hnone
        cases hnone

/-- No instance goes. -/
theorem insts_size_le (h : e.Later e') : e.insts.size ≤ e'.insts.size := by
  by_contra hlt
  have hthere : e.usage? ⟨e'.insts.size⟩ ≠ none := fun hnone =>
    hlt (usage?_eq_none_iff.mp hnone)
  obtain ⟨u, hu⟩ := Option.ne_none_iff_exists'.mp hthere
  obtain ⟨v, hv, -⟩ := h.usage hu
  have hgone : e'.usage? ⟨e'.insts.size⟩ = none := usage?_eq_none_iff.mpr (Nat.le_refl _)
  rw [hgone] at hv
  cases hv

end Later

theorem SameUsage.later (h : e.SameUsage e') : e.Later e' :=
  ⟨h.roots, fun {i u} hu => ⟨u, (h.usage i).trans hu, id, id, .inl rfl⟩⟩

theorem Uses.later {q : Request} (h : e.Uses q i e') : e.Later e' := by
  refine ⟨h.roots ▸ List.Subset.refl _, fun {j u} hu => ?_⟩
  rw [h.usage]
  split
  · next hj =>
    subst hj
    refine ⟨_, rfl, ?_⟩
    rw [hu, Option.getD_some]
    refine ⟨fun h => (Bool.and_eq_true_iff.mp h).1, id, ?_⟩
    cases hfirst : u.firstModule with
    | some m => exact .inl (by rw [used, hfirst, Option.some_or])
    | none =>
      cases ho : e.offered q.module with
      | none => exact .inl (by rw [used, hfirst, ho, Option.none_or])
      | some m =>
        obtain ⟨rfl, -, hroot⟩ := offered_eq_some ho
        refine .inr ⟨rfl, q.module, ?_, by rw [used, hfirst, ho, Option.none_or]⟩
        rw [h.roots]
        exact List.contains_iff_mem.mp hroot
  · exact ⟨u, hu, id, id, .inl rfl⟩

theorem claimCodegen_later (i : InstanceId) (m : ModuleId) : e.Later (e.claimCodegen i m).2 := by
  obtain ⟨hroots, husage⟩ := e.claimCodegen_usage i m
  refine ⟨hroots ▸ List.Subset.refl _, fun {j u} hu => ?_⟩
  obtain h | h := husage j
  · exact ⟨u, h.trans hu, id, id, .inl rfl⟩
  · refine ⟨{ u with claimed := true }, ?_, id, fun _ => rfl, .inl rfl⟩
    rw [h, hu]
    rfl

theorem claimCodegen_firstModule? (i j : InstanceId) (m : ModuleId) :
    (e.claimCodegen i m).2.firstModule? j = e.firstModule? j := by
  rw [firstModule?_eq, firstModule?_eq]
  obtain h | h := (e.claimCodegen_usage i m).2 j
  · rw [h]
  · rw [h, Option.bind_map]
    rfl

end Engine

/-- In the next step a program claims the code of the instance for the module. -/
def Machine.Claims (m : Machine σ α) (i : InstanceId) (a : ModuleId) : Prop :=
  ∃ role k, m.control = .program role (.command (.claim i a) k)

namespace Service

variable {svc : Service σ} {m : Machine σ α} {call : Call} {i : InstanceId}

/-- The call that is answered with an instance in the next step, or makes one, and the instance. What
a call finds on its chain does not count. -/
def takes (svc : Service σ) (m : Machine σ α) : Option (Call × InstanceId) :=
  match m.control with
  | .stage (.plan call resolved) =>
    match m.engine.plan svc.toSemantics call.request resolved m.run.service with
    | (.error _, _) => none
    | (.ok p, s) => (m.engine.takes? (svc.symbolName s) call.request call.chain p).map (call, ·)
  | _ => none

/-- In the next step a root module gets the instance, outside every gag. -/
def Needed (svc : Service σ) (m : Machine σ α) (i : InstanceId) : Prop :=
  ∃ call, svc.takes m = some (call, i) ∧ m.engine.isGagged = false ∧
    m.engine.isRoot call.request.module = true

/-- What a step means for the traces of requests. -/
inductive Leaves (svc : Service σ) (m : Machine σ α) (e : Engine) : Prop
  | same : svc.takes m = none → m.engine.SameUsage e → Leaves svc m e
  | take {call : Call} {i : InstanceId} : svc.takes m = some (call, i) →
    m.engine.Uses call.request i e → Leaves svc m e
  | claim {i : InstanceId} {a : ModuleId} : m.Claims i a → svc.takes m = none →
    e = (m.engine.claimCodegen i a).2 → Leaves svc m e

theorem closeGag_insts (e : Engine) (mark : Option GagMark) :
    (closeGag e mark).insts = e.insts ∧ (closeGag e mark).roots = e.roots := by
  cases mark <;> exact ⟨rfl, rfl⟩

theorem usage?_congr {e e' : Engine} (h : e'.insts = e.insts) (i : InstanceId) :
    e'.usage? i = e.usage? i := by
  rw [Engine.usage?, Engine.inst?, h]
  rfl

section

variable {r : Run σ} {ws : List (Waiting σ α)} {c : Control σ α} {e : Engine} {s : σ}

theorem giveAnswer_insts {a : Except TemplateError InstanceId} :
    (giveAnswer ⟨e, s⟩ call a ws).engine.insts = e.insts ∧
      (giveAnswer ⟨e, s⟩ call a ws).engine.roots = e.roots := by
  cases ws with
  | nil => exact ⟨rfl, rfl⟩
  | cons w ws => exact closeGag_insts e call.mark

theorem giveAnswer_usage {a : Except TemplateError InstanceId} :
    e.SameUsage (giveAnswer ⟨e, s⟩ call a ws).engine := by
  have h : (giveAnswer ⟨e, s⟩ call a ws).engine.insts = e.insts ∧ _ := giveAnswer_insts
  exact .of_insts (h.2 ▸ List.Subset.refl _) h.1

theorem openCall_usage {chain : Chain} {q : Request} :
    r.engine.SameUsage (openCall r chain q ws).engine := by
  obtain ⟨_, h⟩ := r.engine.opened_frame q
  rw [openCall_eq, h]
  exact .of_insts (List.Subset.refl _) rfl

theorem takes_plan {resolved : List Arg} {p : Plan}
    (hp : r.engine.plan svc.toSemantics call.request resolved r.service = (.ok p, s)) :
    svc.takes (⟨r, .stage (.plan call resolved), ws⟩ : Machine σ α) =
      (r.engine.takes? (svc.symbolName s) call.request call.chain p).map (call, ·) := by
  simp only [takes, hp]

theorem Steps.leaves (h : svc.Steps r ws c m) : svc.Leaves ⟨r, c, ws⟩ m.engine := by
  cases h with
  | unresolved => exact .same rfl ((Engine.reject_usage _).trans giveAnswer_usage)
  | undeclared => cases ws <;> exact .same rfl (.refl _)
  | @refuse call resolved err s hp =>
    refine .same ?_ ((Engine.reject_usage _).trans giveAnswer_usage)
    simp only [takes, hp]
  | @answer call resolved p s a e hp ha =>
    obtain ⟨hnone, hsame⟩ | ⟨i, hi, -, huses⟩ := Engine.answer?_usage ha
    · exact .same (by rw [takes_plan hp, hnone]; rfl) (hsame.trans giveAnswer_usage)
    · refine .take ((takes_plan hp).trans (by rw [hi]; rfl)) ⟨?_, fun j => ?_⟩
      · exact giveAnswer_insts.2.trans huses.roots
      · exact (usage?_congr giveAnswer_insts.1 j).trans (huses.usage j)
  | @create call resolved p s hp ha =>
    refine .take ?_ Engine.create_uses
    rw [takes_plan hp, Engine.takes?_of_answer?_eq_none ha]
    rfl
  | openScope =>
    refine .same rfl (.modifyInst ?_)
    exact fun _ => rfl
  | finish => exact .same rfl giveAnswer_usage
  | release | wake => exact .same rfl (Engine.release_usage _)
  | suspend => exact .same rfl (Engine.complete_usage ..)
  | complete =>
    exact .same rfl ((Engine.complete_usage ..).trans (Engine.takeDeferred_usage _))
  | fail hf =>
    obtain rfl := congrArg Prod.snd hf
    exact .same rfl ((Engine.fail_usage ..).trans (Engine.takeDeferred_usage _))
  | settle hs =>
    subst hs
    exact .same rfl ((Engine.settle_usage ..).trans (Engine.takeDeferred_usage _))
  | @command role c k hc =>
    obtain h | ⟨i, a, rfl⟩ := c.run_usage (e := r.engine)
    · exact .same rfl h
    · exact .claim ⟨role, k, rfl⟩ rfl rfl
  | request => exact .same rfl openCall_usage
  | resolve | elaborate | resume | done | halt | read | service | dangling | unasked =>
    exact .same rfl (.refl _)

end

theorem step_leaves (m : Machine σ α) : svc.Leaves m (svc.step m).engine := (step_steps m).leaves

theorem Leaves.later {e : Engine} (h : svc.Leaves m e) : m.engine.Later e := by
  cases h with
  | same _ h => exact h.later
  | take _ h => exact h.later
  | claim _ _ h =>
    rw [h]
    exact Engine.claimCodegen_later ..

/-- An instance gets an owner of its own when a root module gets it outside every gag. -/
theorem Leaves.firstModule?_isSome_iff {e : Engine} (h : svc.Leaves m e) (i : InstanceId) :
    (e.firstModule? i).isSome ↔ (m.engine.firstModule? i).isSome ∨ svc.Needed m i := by
  unfold Needed
  cases h with
  | same ht h => simp [h.firstModule?, ht]
  | claim _ ht h => simp [h, Engine.claimCodegen_firstModule?, ht]
  | @take call j ht h =>
    rw [h.firstModule?, ht]
    by_cases hij : i = j
    · subst hij
      rw [if_pos rfl, Option.isSome_or, Bool.or_eq_true, Engine.offered_isSome_iff]
      simp
    · rw [if_neg hij]
      simp [Ne.symm hij]

/-! ## Runs -/

section

variable (svc) {config : EngineConfig} {s : σ} {p : Program σ α} {n : Nat}

theorem firstModule?_isSome_iff (i : InstanceId) :
    ((svc.after n (.boot config s p)).engine.firstModule? i).isSome ↔
      ∃ k < n, svc.Needed (svc.after k (.boot config s p)) i := by
  induction n with
  | zero => simp [Engine.firstModule?, Engine.inst?, after, Machine.boot, Machine.start]
  | succ n ih =>
    rw [after_succ, (step_leaves _).firstModule?_isSome_iff, ih]
    simp only [Nat.lt_succ_iff_lt_or_eq, or_and_right, exists_or, exists_eq_left]

theorem later_after {m₀ : Machine σ α} {k : Nat} (hk : k ≤ n) :
    (svc.after k m₀).engine.Later (svc.after n m₀).engine := by
  induction n, hk using Nat.le_induction with
  | base => exact .refl _
  | succ n _ ih =>
    rw [after_succ]
    exact ih.trans (step_leaves _).later

end

end Service

end Templates
