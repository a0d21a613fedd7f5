import Templates.Ty.Queries
import Templates.Proofs.Deduction.Derivation

/-!
# What deduction has found

A pattern with the deduced bindings put in is the type that was taken apart, up to `const`
(`Deduce.ty_sound`). Of the constants among the arguments of an instance deduction compares nothing
but the constant, and a sequence there is spliced by substitution, so that neither the types of these
constants nor sequences are recovered.
-/

namespace Templates

/-! ## Types up to `const` -/

def Ty.isConst : Ty → Bool
  | .const _ => true
  | _ => false

mutual

/-- No instance has a sequence among its arguments. -/
def Ty.isFlat : Ty → Bool
  | .const t | .ptr t | .array t | .staticArray t _ => t.isFlat
  | .inst _ args => Arg.areFlat args
  | .basic _ | .named _ | .param _ | .standIn _ | .error => true

/-- Not a sequence, and no instance inside has one among its arguments. -/
def Arg.isFlat : Arg → Bool
  | .type t => t.isFlat
  | .value _ _ | .symbol _ => true
  | .tuple _ => false

def Arg.areFlat : List Arg → Bool
  | [] => true
  | a :: as => a.isFlat && Arg.areFlat as

end

mutual

/-- The type without `const` and without the types of the constants among the arguments of
instances. -/
def Ty.bare : Ty → Ty
  | .const t => t.bare
  | .ptr t => .ptr t.bare
  | .array t => .array t.bare
  | .staticArray t d => .staticArray t.bare d
  | .inst r args => .inst r (Arg.bareList args)
  | .basic b => .basic b
  | .named s => .named s
  | .param i => .param i
  | .standIn p => .standIn p
  | .error => .error

def Arg.bare : Arg → Arg
  | .type t => .type t.bare
  | .value _ c => .value .error c
  | .symbol s => .symbol s
  | .tuple elems => .tuple (Arg.bareList elems)

def Arg.bareList : List Arg → List Arg
  | [] => []
  | a :: as => a.bare :: Arg.bareList as

end

@[simp] theorem Ty.bare_constant (t : Ty) : t.constant.bare = t.bare := by cases t <;> rfl

theorem Arg.bareList_append (as bs : List Arg) :
    Arg.bareList (as ++ bs) = Arg.bareList as ++ Arg.bareList bs := by
  induction as with
  | nil => rfl
  | cons a as ih => simp [Arg.bareList, ih]

theorem Arg.flatten_of_areFlat {as : List Arg} (h : Arg.areFlat as = true) : Arg.flatten as = as := by
  induction as with
  | nil => rfl
  | cons a as ih =>
    simp only [Arg.areFlat, Bool.and_eq_true] at h
    rw [Arg.flatten, List.flatMap_cons, ← Arg.flatten, ih h.2]
    cases a with
    | tuple => cases h.1
    | _ => rfl

/-- Sequences are spliced alike when all arguments are replaced and the elements of a sequence are
replaced one by one. -/
theorem Arg.flatten_map {f : Arg → Arg} (h : ∀ a, (f a).leaves = a.leaves.map f) (as : List Arg) :
    flatten (as.map f) = (flatten as).map f := by
  simp only [flatten, List.flatMap_map, List.map_flatMap, h]

theorem Bindings.splice_of_leaf {b : Bindings} {i : ParamIdx} {a : Arg} (h : b.get? i = some a)
    (ha : a.isLeaf = true) : b.splice i = [a] := by
  rw [splice, h]
  cases a with
  | tuple => cases ha
  | _ => rfl

theorem Arg.subst_type {b : Bindings} {t : Ty} (h : ∀ i, t ≠ .param i) :
    Arg.subst b (.type t) = [.type (t.subst b)] := by
  cases t with
  | param i => exact absurd rfl (h i)
  | _ => rfl

namespace Deduce

variable {ps : List Param} {b c e : Bindings} {l : Level} {i : ParamIdx}

/-! ## Single places -/

theorem tyParam_eq_some {t : Ty} (h : tyParam ps i t b = some c) :
    ∃ k, kind? ps i = some k ∧ k.takes (.type t) = true ∧ b.unify i (.type t) = some c := by
  unfold tyParam at h
  split at h
  · next hk => exact ⟨_, hk, rfl, h⟩
  · next hk => exact ⟨_, hk, rfl, h⟩
  · cases h

theorem argParam_eq_some {a : Arg} (h : argParam ps i a b = some c) : a.isLeaf = true ∧
    ∃ k, kind? ps i = some k ∧ k.takes a = true ∧ b.unify i a = some c := by
  unfold argParam at h
  split at h
  case h_5 => cases h
  all_goals
    next hk => exact ⟨rfl, _, hk, rfl, h⟩

theorem dim_eq_some {d n : Dim} (h : dim ps d n b = some c) : (n = d ∧ n.mentions = [] ∧ c = b) ∨
    ∃ i p x, n = .param i ∧ kind? ps i = some (.value p) ∧ lengthConst? d = some x ∧
      b.unify i (.value (lengthTy p) x) = some c := by
  cases n with
  | param i =>
    unfold dim at h
    dsimp only at h
    split at h
    · next p x hp hx => exact .inr ⟨i, p, x, rfl, hp, hx, h⟩
    · cases h
  | known | standIn =>
    simp only [dim, Option.ite_none_right_eq_some, Option.some.injEq] at h
    exact .inl ⟨h.1.symm, rfl, h.2.symm⟩

theorem templateRef_eq_some {r q : TemplateRef} (h : templateRef ps r q b = some c) :
    (q = r ∧ q.mentions = [] ∧ c = b) ∨
    ∃ i p s, q = .param i ∧ r = .symbol s ∧ kind? ps i = some (.symbol p) ∧
      b.unify i (.symbol s) = some c := by
  cases r with
  | param => cases q <;> cases h
  | symbol s =>
    cases q with
    | symbol t =>
      simp only [templateRef, Option.ite_none_right_eq_some, Option.some.injEq] at h
      exact .inl ⟨congrArg TemplateRef.symbol h.1.symm, rfl, h.2.symm⟩
    | param i =>
      unfold templateRef at h
      dsimp only at h
      split at h
      · next p hp => exact .inr ⟨i, p, s, rfl, rfl, hp, h⟩
      · cases h

theorem dim_binds {d n : Dim} (h : dim ps d n b = some c) : Bindings.Binds n.mentions b c := by
  obtain ⟨-, -, rfl⟩ | ⟨i, p, x, rfl, -, -, h⟩ := dim_eq_some h
  · exact .refl _ _
  · exact Bindings.unify_binds h

theorem dim_fills {d n : Dim} (h : dim ps d n b = some c) : Bindings.Fills ps b c := by
  obtain ⟨-, -, rfl⟩ | ⟨i, p, x, rfl, hp, -, h⟩ := dim_eq_some h
  · exact .refl _ _
  · exact Bindings.unify_fills hp rfl h

theorem dim_subst {d n : Dim} (h : dim ps d n b = some c) (hc : c.Le e) : n.subst e = d := by
  obtain ⟨rfl, hn, -⟩ | ⟨i, p, x, rfl, -, hx, h⟩ := dim_eq_some h
  · cases n with
    | param => cases hn
    | known | standIn => rfl
  · have hi := hc (Bindings.get?_unify h)
    unfold Dim.subst
    dsimp only
    rw [hi]
    cases d with
    | known n =>
      cases hx
      dsimp only
      rw [if_pos ⟨Int.natCast_nonneg _, Nat.le_of_lt_succ n.toNat_lt⟩]
      simp
    | param => cases hx
    | standIn =>
      cases hx
      rfl

theorem templateRef_binds {r q : TemplateRef} (h : templateRef ps r q b = some c) :
    Bindings.Binds q.mentions b c := by
  obtain ⟨-, -, rfl⟩ | ⟨i, p, s, rfl, rfl, -, h⟩ := templateRef_eq_some h
  · exact .refl _ _
  · exact Bindings.unify_binds h

theorem templateRef_fills {r q : TemplateRef} (h : templateRef ps r q b = some c) :
    Bindings.Fills ps b c := by
  obtain ⟨-, -, rfl⟩ | ⟨i, p, s, rfl, rfl, hp, h⟩ := templateRef_eq_some h
  · exact .refl _ _
  · exact Bindings.unify_fills hp rfl h

theorem templateRef_subst {r q : TemplateRef} (h : templateRef ps r q b = some c) (hc : c.Le e) :
    q.subst e = r := by
  obtain ⟨rfl, hq, -⟩ | ⟨i, p, s, rfl, rfl, -, h⟩ := templateRef_eq_some h
  · cases q with
    | param => cases hq
    | symbol => rfl
  · rw [TemplateRef.subst, hc (Bindings.get?_unify h)]

/-! ## Derivations -/

namespace Goal

/-- The parameters that the pattern mentions. -/
def mentions : Goal → List ParamIdx
  | .ty _ pat => pat.mentions
  | .arg _ pat => pat.mentions
  | .args _ pats => Arg.mentionsList pats

def isFlat : Goal → Bool
  | .ty t _ => t.isFlat
  | .arg a _ => a.isFlat
  | .args as _ => Arg.areFlat as

/-- The pattern with the bindings put in is what was taken apart, up to `const`. -/
def Holds (e : Bindings) : Goal → Prop
  | .ty t pat => (pat.subst e).bare = t.bare
  | .arg a pat => Arg.bareList (pat.subst e) = [a.bare]
  | .args as pats => Arg.bareList (Arg.substList e pats) = Arg.bareList as

end Goal

theorem Derives.binds {g : Goal} (h : Derives ps g b l c) : Bindings.Binds g.mentions b c := by
  induction h with
  | param h =>
    obtain ⟨k, -, -, h⟩ := tyParam_eq_some h
    exact Bindings.unify_binds h
  | argParam h =>
    obtain ⟨-, k, -, -, h⟩ := argParam_eq_some h
    exact Bindings.unify_binds h
  | const _ ih | unqualify _ _ _ ih | ptr _ ih | array _ ih | type _ _ ih => exact ih
  | basic | named | standIn | value | symbol | tuple | nil => exact .refl _ _
  | staticArray _ hd ih =>
    refine (ih.trans (dim_binds hd)).mono fun j hj => ?_
    exact List.mem_append.mpr (List.mem_append.mp hj).symm
  | inst hr _ ih => exact (templateRef_binds hr).trans ih
  | soak hi h =>
    obtain ⟨rfl, -⟩ := soaking?_eq_some hi
    exact Bindings.unify_binds h
  | cons _ _ _ iha ihas => exact iha.trans ihas

theorem Derives.fills {g : Goal} (h : Derives ps g b l c) : Bindings.Fills ps b c := by
  induction h with
  | param h =>
    obtain ⟨k, hk, ht, h⟩ := tyParam_eq_some h
    exact Bindings.unify_fills hk ht h
  | argParam h =>
    obtain ⟨-, k, hk, ha, h⟩ := argParam_eq_some h
    exact Bindings.unify_fills hk ha h
  | const _ ih | unqualify _ _ _ ih | ptr _ ih | array _ ih | type _ _ ih => exact ih
  | basic | named | standIn | value | symbol | tuple | nil => exact .refl _ _
  | staticArray _ hd ih => exact ih.trans (dim_fills hd)
  | inst hr _ ih => exact (templateRef_fills hr).trans ih
  | soak hi h => exact Bindings.unify_fills (soaking?_eq_some hi).2 rfl h
  | cons _ _ _ iha ihas => exact iha.trans ihas

theorem Derives.holds {g : Goal} (h : Derives ps g b l c) (hc : c.Le e) (hg : g.isFlat = true) :
    g.Holds e := by
  induction h with
  | @param t i _ _ h =>
    obtain ⟨k, -, -, h⟩ := tyParam_eq_some h
    change (Ty.subst e (.param i)).bare = t.bare
    rw [Ty.subst, hc (Bindings.get?_unify h)]
  | @argParam a i _ _ h =>
    obtain ⟨ha, k, -, -, h⟩ := argParam_eq_some h
    change Arg.bareList (Bindings.splice e i) = [a.bare]
    rw [Bindings.splice_of_leaf (hc (Bindings.get?_unify h)) ha]
    rfl
  | @const t p _ _ _ _ ih =>
    change (p.subst e).constant.bare = t.bare
    rw [Ty.bare_constant]
    exact ih hc hg
  | unqualify _ _ _ ih => exact ih hc hg
  | basic | named | standIn | value | symbol | nil => rfl
  | ptr _ ih => exact congrArg Ty.ptr (ih hc hg)
  | array _ ih => exact congrArg Ty.array (ih hc hg)
  | @staticArray t p d n _ _ _ _ _ hd ih =>
    change Ty.staticArray (p.subst e).bare (n.subst e) = .staticArray t.bare d
    rw [dim_subst hd hc, ih ((dim_binds hd).le.trans hc) hg]
  | @inst r q as pats _ _ _ _ hr h ih =>
    change Ty.inst (q.subst e) (Arg.bareList (Arg.substList e pats)) = .inst r (Arg.bareList as)
    rw [templateRef_subst hr (h.binds.le.trans hc), ih hc hg]
  | @type t p _ _ _ hi _ ih =>
    change Arg.bareList (Arg.subst e (.type p)) = [.type t.bare]
    rw [Arg.subst_type hi, ← ih hc hg]
    rfl
  | tuple => cases hg
  | @soak as p i _ _ hi h =>
    obtain ⟨rfl, -⟩ := soaking?_eq_some hi
    change Arg.bareList (Bindings.splice e i ++ []) = _
    rw [Bindings.splice, hc (Bindings.get?_unify h), List.append_nil]
    exact congrArg Arg.bareList (Arg.flatten_of_areFlat hg)
  | @cons a as p pats _ _ _ _ _ _ _ has iha ihas =>
    obtain ⟨hga, hgas⟩ := Bool.and_eq_true_iff.mp hg
    change Arg.bareList (p.subst e ++ Arg.substList e pats) = a.bare :: Arg.bareList as
    rw [Arg.bareList_append, iha (has.binds.le.trans hc) hga, ihas hc hgas]
    rfl

theorem ty_binds {t pat : Ty} (h : ty ps t pat b = some (l, c)) :
    Bindings.Binds pat.mentions b c :=
  (run_eq_some_iff (g := .ty t pat).mp h).binds

theorem ty_fills {t pat : Ty} (h : ty ps t pat b = some (l, c)) : Bindings.Fills ps b c :=
  (run_eq_some_iff (g := .ty t pat).mp h).fills

/-- The pattern with what was deduced is the type, up to `const`. -/
theorem ty_sound {t pat : Ty} (h : ty ps t pat b = some (l, c)) (hc : c.Le e)
    (ht : t.isFlat = true) : (pat.subst e).bare = t.bare :=
  (run_eq_some_iff (g := .ty t pat).mp h).holds hc ht

end Deduce

end Templates
