import Templates.Proofs.Engine.Links
import Templates.Proofs.Machine.Becomes

/-!
# What a plan is

The declaration of a plan belongs to the overload set that was asked for, and the arguments of the
plan are what matching has deduced for it.
-/

namespace Templates.Engine

variable {σ : Type} {sem : Semantics σ} {e : Engine} {d id : DeclId} {args : List Arg}
  {receiver : Option Ty} {m : ModuleId} {s : σ}

/-! ## Overload sets -/

theorem overloads_lt (H : e.Linked) (hd : d.index < e.decls.size) (h : id ∈ e.overloads d) :
    id.index < e.decls.size :=
  (linked_iff_closed.mp H).overloadsFrom (H.rootOf hd) e.decls.size id h

/-! ## The declaration that is chosen -/

/-- The declaration of the engine accepts the arguments. -/
def Matched (e : Engine) (sem : Semantics σ) (args : List Arg) (receiver : Option Ty)
    (id : DeclId) (ded : Deduction) : Prop :=
  ∃ s, (sem.matchDecl (e.decl id) args receiver .instantiate s).1 = .ok ded

theorem of_mem_matchOverloads {ids : List DeclId} {c : Candidate} {deduced : List Arg}
    (h : (c, deduced) ∈ (e.matchOverloads sem args receiver m ids s).1.matched) :
    c.id ∈ ids ∧ c.decl = e.decl c.id ∧
      e.Matched sem args receiver c.id ⟨c.level, deduced⟩ := by
  induction ids generalizing s with
  | nil => cases h
  | cons id ids ih =>
    unfold matchOverloads at h
    dsimp only at h
    split at h
    · exact (ih h).imp_left (List.mem_cons_of_mem id)
    · simp only [bind, StateT.bind, pure] at h
      rcases hd : sem.matchDecl (e.decl id) args receiver .instantiate s with ⟨why | ded, s'⟩
      · rw [hd] at h
        exact (ih h).imp_left (List.mem_cons_of_mem id)
      · rw [hd] at h
        obtain h | h := List.mem_cons.mp h
        · cases h
          exact ⟨List.mem_cons_self, rfl, s, congrArg Prod.fst hd⟩
        · exact (ih h).imp_left (List.mem_cons_of_mem id)

theorem select_ok {ded : Deduction}
    (h : (e.select sem d args receiver m s).1 = .ok (id, ded)) :
    id ∈ e.overloads d ∧ e.Matched sem args receiver id ded := by
  unfold select at h
  simp only [bind, StateT.bind] at h
  rcases hm : e.matchOverloads sem args receiver m (e.overloads d) s with ⟨ms, s'⟩
  rw [hm] at h
  dsimp only at h
  rcases hb : sem.selectBest (ms.matched.map (·.1)) s' with ⟨i | ⟨i, j⟩ | -, s''⟩ <;> rw [hb] at h
  · cases hc : ms.matched[i]? with
    | none =>
      simp only [hc] at h
      cases h
    | some c =>
      simp only [hc] at h
      cases h
      obtain rfl : _ = ms := congrArg Prod.fst hm
      exact (of_mem_matchOverloads (List.mem_of_getElem? hc)).imp_right And.right
  · cases hi : ms.matched[i]? <;> cases hj : ms.matched[j]? <;> simp only [hi, hj] at h <;> cases h
  · cases h

/-! ## Plans -/

/-- What a plan says of its declaration and its arguments. -/
structure Planned (e : Engine) (sem : Semantics σ) (q : Request) (p : Plan) : Prop where
  overload : p.decl ∈ e.overloads q.decl
  matched : e.Matched sem p.resolved q.receiver p.decl p.deduction

/-- A plan is made by choosing a declaration and finding its scope. Mixin templates are left to
mixins. -/
theorem plan_run {q : Request} {resolved : List Arg} : e.plan sem q resolved s =
    match e.select sem q.decl resolved q.receiver q.module s with
    | (.error why, s) =>
      (.error (e.selectionError { names := sem.symbolName s } q.decl resolved q.span why), s)
    | (.ok (id, ded), s) =>
      (if (e.decl id).flags.mixinOnly && q.mixin.isNone then
        .error (.mixinOnly (e.decl id).name q.span)
      else (e.scopeOf sem s q resolved ded.args).map (⟨resolved, id, ded, ·⟩), s) := by
  unfold plan
  simp only [bind, StateT.bind, get, getThe, MonadStateOf.get, StateT.get, pure]
  rcases e.select sem q.decl resolved q.receiver q.module s with ⟨why | ⟨id, ded⟩, s'⟩
  · rfl
  · dsimp only
    split <;> rfl

/-- What goes into a plan. -/
theorem plan_eq_ok {q : Request} {resolved : List Arg} {p : Plan} {s' : σ}
    (h : e.plan sem q resolved s = (.ok p, s')) : p.resolved = resolved ∧
      e.select sem q.decl resolved q.receiver q.module s = (.ok (p.decl, p.deduction), s') ∧
      e.scopeOf sem s' q resolved p.deduction.args = .ok p.enclosing := by
  rw [plan_run] at h
  rcases hs : e.select sem q.decl resolved q.receiver q.module s with ⟨why | ⟨id, ded⟩, s₁⟩ <;>
    rw [hs] at h
  · cases h
  · obtain ⟨hp, rfl⟩ := Prod.mk.inj h
    split at hp
    · cases hp
    · cases hscope : e.scopeOf sem s₁ q resolved ded.args <;> rw [hscope] at hp <;> cases hp
      exact ⟨rfl, rfl, hscope⟩

theorem Plans.planned {q : Request} {p : Plan} (h : e.Plans sem q p) : e.Planned sem q p := by
  obtain ⟨-, resolved, s, h⟩ := h
  obtain ⟨rfl, hs, -⟩ := plan_eq_ok (Prod.ext h rfl)
  obtain ⟨hid, hmatch⟩ := select_ok (congrArg Prod.fst hs)
  exact ⟨hid, hmatch⟩

theorem Plans.decl_lt {q : Request} {p : Plan} (h : e.Plans sem q p) (H : e.Linked) :
    p.decl.index < e.decls.size := overloads_lt H h.1 h.planned.overload

end Templates.Engine
