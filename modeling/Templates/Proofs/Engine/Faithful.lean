import Templates.Proofs.Engine.Plans
import Templates.Proofs.Matching.Kinds

/-!
# Instances and their declarations

An instance has the name of its declaration, and its arguments are what the declaration makes of the
resolved ones (`Engine.Genuine`). Declarations stay as they are, so this remains true of an instance
for the whole run (`Engine.Faithful`).
-/

namespace Templates

variable {σ α : Type}

namespace Engine

/-- The instance has what its declaration makes of the arguments. -/
structure Genuine (e : Engine) (sem : Semantics σ) (x : Instance) : Prop where
  declared : x.decl.index < e.decls.size
  name : x.name = (e.decl x.decl).name
  matched : ∃ receiver, e.Matched sem x.resolved receiver x.decl ⟨x.level, x.deduced⟩

structure Faithful (e : Engine) (sem : Semantics σ) : Prop where
  accepted {d : DeclId} : d.index < e.decls.size → (e.decl d).Accepted
  genuine {i : InstanceId} {x : Instance} : e.origins i = some x → e.Genuine sem x

variable {e e' : Engine} {sem : Semantics σ} {x : Instance}

theorem Genuine.grows (H : e.Genuine sem x) (h : e.Grows e') : e'.Genuine sem x where
  declared := H.declared.trans_le h.decls
  name := H.name.trans (congrArg Decl.name (h.decl H.declared)).symm
  matched := by
    obtain ⟨receiver, s, hs⟩ := H.matched
    exact ⟨receiver, s, by rwa [h.decl H.declared]⟩

theorem Genuine.takes (H : e.Genuine sem x) :
    List.Forall₂ (fun p a => p.kind.takes a = true) (e.decl x.decl).params x.deduced := by
  obtain ⟨receiver, s, hs⟩ := H.matched
  exact Semantics.matchDecl_takes hs

namespace Faithful

theorem init (config : EngineConfig) : Faithful { config } sem where
  accepted hd := absurd hd (Nat.not_lt_zero _)
  genuine hx := by
    rw [origins_eq_none_iff.mpr (Nat.zero_le _)] at hx
    cases hx

theorem accepted_grows (H : e.Faithful sem) (h : e.Grows e') {d : DeclId}
    (hd : d.index < e'.decls.size) : (e'.decl d).Accepted := by
  rcases Nat.lt_or_ge d.index e.decls.size with hlt | hge
  · rw [h.decl hlt]
    exact H.accepted hlt
  · exact h.accepted hd hge

theorem becomes (H : e.Faithful sem) (hl : e.Linked) (h : e.Becomes sem e') :
    e'.Faithful sem := by
  refine ⟨H.accepted_grows h.grows, fun {i x} hx => Genuine.grows ?_ h.grows⟩
  cases h with
  | keep h =>
    rw [h.origins] at hx
    exact H.genuine hx
  | @create q c p hp =>
    rw [origins_create] at hx
    by_cases hi : i = ⟨e.insts.size⟩
    · subst hi
      rw [Arena.put_self] at hx
      cases hx
      exact ⟨hp.decl_lt hl, rfl, q.receiver, hp.planned.matched⟩
    · rw [Arena.put_of_ne hi] at hx
      exact H.genuine hx

/-- Instances of a declaration with the same arguments up to sequences have the same arguments. -/
theorem deduced_eq (H : e.Faithful sem) {i j : InstanceId} {y : Instance}
    (hx : e.inst? i = some x) (hy : e.inst? j = some y) (hd : x.decl = y.decl)
    (h : Arg.flatten x.deduced = Arg.flatten y.deduced) : x.deduced = y.deduced := by
  have hgx := H.genuine (origins_eq_some hx)
  have hgy := (H.genuine (origins_eq_some hy)).takes
  refine (H.accepted hgx.declared).flatten_inj hgx.takes ?_ h
  change List.Forall₂ _ (e.decl x.decl).params y.deduced
  rw [hd]
  exact hgy

end Faithful

end Engine

theorem Service.faithful_after (svc : Service σ) {config : EngineConfig} {s : σ} {p : Program σ α}
    (n : Nat) : (svc.after n (.boot config s p)).engine.Faithful svc.toSemantics :=
  engine_always svc (P := fun e => e.Faithful svc.toSemantics) (.init config)
    (fun _ _ hl H h => H.becomes hl h) n

end Templates
