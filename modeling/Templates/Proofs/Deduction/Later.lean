import Templates.Proofs.Deduction.Sound

/-!
# Deduction and later bindings

What was deduced is deduced again where more parameters are bound (`Deduce.ty_again`), and a pattern
that is closed by some bindings stays as it is (`Ty.subst_of_le`). Of the parameters deduction knows
no more than their forms, not their specializations and defaults (`Deduce.SameForms.ty`).
-/

namespace Templates

variable {ps qs : List Param} {b c e : Bindings} {l : Level} {i : ParamIdx}

/-! ## Patterns that are closed -/

theorem Ty.mentions_constant (t : Ty) : t.constant.mentions = t.mentions := by cases t <;> rfl

theorem Ty.hasParams_eq_false {t : Ty} : t.hasParams = false ↔ t.mentions = [] := by
  rw [hasParams, Bool.not_eq_false', List.isEmpty_iff]

theorem Arg.mentionsList_append (as bs : List Arg) :
    Arg.mentionsList (as ++ bs) = Arg.mentionsList as ++ Arg.mentionsList bs := by
  simp only [mentionsList_eq_flatMap, List.flatMap_append]

theorem Dim.subst_of_le {n : Dim} (hb : b.Le e) (hm : (n.subst b).mentions = []) :
    n.subst e = n.subst b := by
  cases n with
  | known | standIn => rfl
  | param i =>
    cases hi : b.get? i with
    | none =>
      rw [subst, hi] at hm
      cases hm
    | some a => rw [subst, subst, hi, hb hi]

theorem TemplateRef.subst_of_le {r : TemplateRef} (hb : b.Le e) (hm : (r.subst b).mentions = []) :
    r.subst e = r.subst b := by
  cases r with
  | symbol => rfl
  | param i =>
    cases hi : b.get? i with
    | none =>
      rw [subst, hi] at hm
      cases hm
    | some a => rw [subst, subst, hi, hb hi]

theorem Bindings.splice_of_le (hb : b.Le e) (hm : Arg.mentionsList (b.splice i) = []) :
    e.splice i = b.splice i := by
  cases hi : b.get? i with
  | none =>
    rw [splice, hi] at hm
    cases hm
  | some a => rw [splice, splice, hi, hb hi]

/-- What no longer mentions a parameter does not change when more parameters are bound. -/
theorem subst_of_le (hb : b.Le e) :
    (∀ t : Ty, (t.subst b).mentions = [] → t.subst e = t.subst b) ∧
    (∀ a : Arg, Arg.mentionsList (a.subst b) = [] → a.subst e = a.subst b) ∧
    (∀ as : List Arg, Arg.mentionsList (Arg.substList b as) = [] →
      Arg.substList e as = Arg.substList b as) := by
  refine Ty.induct ?basic ?named ?const ?ptr ?array ?staticArray ?inst ?param ?standIn ?error
    ?type ?value ?symbol ?tuple ?nil ?cons
  case basic | named | standIn | symbol => exact fun _ _ => rfl
  case error | nil => exact fun _ => rfl
  case value => exact fun _ _ _ _ => rfl
  case tuple => exact fun _ _ _ => rfl
  case const =>
    intro t ih hm
    rw [Ty.subst, Ty.mentions_constant] at hm
    exact congrArg Ty.constant (ih hm)
  case ptr => exact fun t ih hm => congrArg Ty.ptr (ih hm)
  case array => exact fun t ih hm => congrArg Ty.array (ih hm)
  case staticArray =>
    intro t d ih hm
    obtain ⟨hd, ht⟩ := List.append_eq_nil_iff.mp hm
    rw [Ty.subst, Ty.subst, ih ht, Dim.subst_of_le hb hd]
  case inst =>
    intro r as ih hm
    obtain ⟨hr, has⟩ := List.append_eq_nil_iff.mp hm
    rw [Ty.subst, Ty.subst, ih has, TemplateRef.subst_of_le hb hr]
  case param =>
    intro i hm
    cases hi : b.get? i with
    | none =>
      rw [Ty.subst, hi] at hm
      cases hm
    | some a => rw [Ty.subst, Ty.subst, hi, hb hi]
  case type =>
    intro t ih hm
    by_cases ht : ∃ i, t = .param i
    · obtain ⟨i, rfl⟩ := ht
      exact Bindings.splice_of_le hb hm
    · have ht : ∀ i, t ≠ .param i := not_exists.mp ht
      rw [Arg.subst_type ht] at hm ⊢
      rw [Arg.subst_type ht, ih (List.append_eq_nil_iff.mp hm).1]
  case cons =>
    intro a as iha ihas hm
    rw [Arg.substList, Arg.mentionsList_append] at hm
    obtain ⟨ha, has⟩ := List.append_eq_nil_iff.mp hm
    rw [Arg.substList, Arg.substList, iha ha, ihas has]

theorem Ty.subst_of_le {t : Ty} (hb : b.Le e) (ht : (t.subst b).hasParams = false) :
    t.subst e = t.subst b :=
  (Templates.subst_of_le hb).1 t (hasParams_eq_false.mp ht)

/-! ## The same deduction with later bindings -/

namespace Deduce

theorem tyParam_of_takes {k : ParamKind} {t : Ty} (hk : kind? ps i = some k)
    (ht : k.takes (.type t) = true) (b : Bindings) : tyParam ps i t b = b.unify i (.type t) := by
  unfold tyParam
  rw [hk]
  cases k with
  | type | this => rfl
  | value | symbol | tuple => cases ht

theorem argParam_of_takes {k : ParamKind} {a : Arg} (hk : kind? ps i = some k)
    (ha : a.isLeaf = true) (ht : k.takes a = true) (b : Bindings) :
    argParam ps i a b = b.unify i a := by
  unfold argParam
  rw [hk]
  cases a with
  | tuple => cases ha
  | type | value | symbol => cases k <;> first | rfl | cases ht

theorem tyParam_again {t : Ty} (h : tyParam ps i t b = some c) (hc : c.Le e) :
    tyParam ps i t e = some e := by
  obtain ⟨k, hk, ht, hu⟩ := tyParam_eq_some h
  rw [tyParam_of_takes hk ht]
  exact Bindings.unify_self (hc (Bindings.get?_unify hu))

theorem argParam_again {a : Arg} (h : argParam ps i a b = some c) (hc : c.Le e) :
    argParam ps i a e = some e := by
  obtain ⟨ha, k, hk, ht, hu⟩ := argParam_eq_some h
  rw [argParam_of_takes hk ha ht]
  exact Bindings.unify_self (hc (Bindings.get?_unify hu))

theorem dim_again {d n : Dim} (h : dim ps d n b = some c) (hc : c.Le e) :
    dim ps d n e = some e := by
  obtain ⟨rfl, hn, -⟩ | ⟨i, p, x, rfl, hp, hx, hu⟩ := dim_eq_some h
  · cases n with
    | param => cases hn
    | known | standIn => exact if_pos rfl
  · simp only [dim, hp, hx]
    exact Bindings.unify_self (hc (Bindings.get?_unify hu))

theorem templateRef_again {r q : TemplateRef} (h : templateRef ps r q b = some c) (hc : c.Le e) :
    templateRef ps r q e = some e := by
  obtain ⟨rfl, hq, -⟩ | ⟨i, p, s, rfl, rfl, hp, hu⟩ := templateRef_eq_some h
  · cases q with
    | param => cases hq
    | symbol => exact if_pos rfl
  · simp only [templateRef, hp]
    exact Bindings.unify_self (hc (Bindings.get?_unify hu))

theorem Derives.again {g : Goal} (h : Derives ps g b l c) (hc : c.Le e) : Derives ps g e l e := by
  induction h with
  | param h => exact .param (tyParam_again h hc)
  | argParam h => exact .argParam (argParam_again h hc)
  | const _ ih => exact .const (ih hc)
  | unqualify hi hq _ ih => exact .unqualify hi hq (ih hc)
  | basic => exact .basic
  | named => exact .named
  | standIn => exact .standIn
  | value => exact .value
  | symbol => exact .symbol
  | tuple => exact .tuple
  | nil => exact .nil
  | ptr _ ih => exact .ptr (ih hc)
  | array _ ih => exact .array (ih hc)
  | staticArray _ hd ih => exact .staticArray (ih ((dim_binds hd).le.trans hc)) (dim_again hd hc)
  | inst hr h ih => exact .inst (templateRef_again hr (h.binds.le.trans hc)) (ih hc)
  | type hi _ ih => exact .type hi (ih hc)
  | soak hi h => exact .soak hi (Bindings.unify_self (hc (Bindings.get?_unify h)))
  | cons hi _ has iha ihas => exact .cons hi (iha (has.binds.le.trans hc)) (ihas hc)

/-- A deduction can be repeated wherever its bindings still hold, and binds nothing new then. -/
theorem ty_again {t pat : Ty} (h : ty ps t pat b = some (l, c)) (hc : c.Le e) :
    ty ps t pat e = some (l, e) :=
  ((run_eq_some_iff (g := .ty t pat).mp h).again hc).run

end Deduce

/-! ## Forms -/

namespace ParamKind

variable {k k' : ParamKind}

/-- A kind without its specialization and default. -/
def form : ParamKind → ParamForm
  | .type _ => .type
  | .this _ => .this
  | .value p => .value p.ty
  | .symbol _ => .symbol
  | .tuple => .tuple

theorem takes_of_form (h : k.form = k'.form) (a : Arg) : k.takes a = k'.takes a := by
  cases k <;> cases k' <;> first | (cases a <;> rfl) | cases h

theorem isThis_of_form (h : k.form = k'.form) : k.isThis = k'.isThis := by
  cases k <;> cases k' <;> first | rfl | cases h

theorem eq_tuple_of_form (h : tuple.form = k.form) : k = tuple := by
  cases k <;> first | rfl | cases h

theorem exists_value_of_form {p : ValueParam} (h : (value p).form = k.form) :
    ∃ q, k = value q ∧ q.ty = p.ty := by
  cases k with
  | value q => exact ⟨q, rfl, (ParamForm.value.inj h).symm⟩
  | _ => cases h

theorem exists_symbol_of_form {p : SymbolParam} (h : (symbol p).form = k.form) :
    ∃ q, k = symbol q := by
  cases k with
  | symbol q => exact ⟨q, rfl⟩
  | _ => cases h

end ParamKind

namespace Deduce

/-- The parameters of the two lists have the same forms. -/
def SameForms (ps qs : List Param) : Prop := ps.map (·.kind.form) = qs.map (·.kind.form)

namespace SameForms

theorem symm (h : SameForms ps qs) : SameForms qs ps := Eq.symm h

theorem kind? {k : ParamKind} (h : SameForms ps qs) (hk : Deduce.kind? ps i = some k) :
    ∃ k', Deduce.kind? qs i = some k' ∧ k.form = k'.form := by
  have hi : (Deduce.kind? ps i).map ParamKind.form = (Deduce.kind? qs i).map ParamKind.form := by
    simpa [Deduce.kind?, Function.comp_def] using congrArg (·[i.index]?) h
  rw [hk] at hi
  obtain ⟨k', hk', hform⟩ := Option.map_eq_some_iff.mp hi.symm
  exact ⟨k', hk', hform.symm⟩

theorem dim {d n : Dim} (h : SameForms ps qs) (hd : Deduce.dim ps d n b = some c) :
    Deduce.dim qs d n b = some c := by
  obtain ⟨rfl, hn, rfl⟩ | ⟨i, p, x, rfl, hp, hx, hu⟩ := dim_eq_some hd
  · cases n with
    | param => cases hn
    | known | standIn => exact if_pos rfl
  · obtain ⟨k', hk', hform⟩ := h.kind? hp
    obtain ⟨q, rfl, hq⟩ := ParamKind.exists_value_of_form hform
    simp only [Deduce.dim, hk', hx]
    rwa [lengthTy, hq]

theorem templateRef {r q : TemplateRef} (h : SameForms ps qs)
    (hr : Deduce.templateRef ps r q b = some c) : Deduce.templateRef qs r q b = some c := by
  obtain ⟨rfl, hq, rfl⟩ | ⟨i, p, s, rfl, rfl, hp, hu⟩ := templateRef_eq_some hr
  · cases q with
    | param => cases hq
    | symbol => exact if_pos rfl
  · obtain ⟨k', hk', hform⟩ := h.kind? hp
    obtain ⟨q, rfl⟩ := ParamKind.exists_symbol_of_form hform
    simpa only [Deduce.templateRef, hk'] using hu

theorem soaking? (h : SameForms ps qs) (p : Arg) : Deduce.soaking? ps p = Deduce.soaking? qs p := by
  have soaks {ps qs : List Param} (h : SameForms ps qs) {i : ParamIdx}
      (hi : Deduce.soaking? ps p = some i) : Deduce.soaking? qs p = some i := by
    obtain ⟨rfl, hk⟩ := soaking?_eq_some hi
    obtain ⟨k', hk', hform⟩ := h.kind? hk
    obtain rfl := ParamKind.eq_tuple_of_form hform
    simp only [Deduce.soaking?, hk']
  exact Option.ext fun i => ⟨soaks h, soaks h.symm⟩

/-- Deduction reads no more of a parameter than its form. -/
theorem derives {g : Goal} (h : SameForms ps qs) (hd : Derives ps g b l c) : Derives qs g b l c := by
  induction hd with
  | param hp =>
    obtain ⟨k, hk, ht, hu⟩ := tyParam_eq_some hp
    obtain ⟨k', hk', hform⟩ := h.kind? hk
    refine .param ?_
    rwa [tyParam_of_takes hk' (ParamKind.takes_of_form hform _ ▸ ht)]
  | argParam hp =>
    obtain ⟨ha, k, hk, ht, hu⟩ := argParam_eq_some hp
    obtain ⟨k', hk', hform⟩ := h.kind? hk
    refine .argParam ?_
    rwa [argParam_of_takes hk' ha (ParamKind.takes_of_form hform _ ▸ ht)]
  | const _ ih => exact .const ih
  | unqualify hi hq _ ih => exact .unqualify hi hq ih
  | basic => exact .basic
  | named => exact .named
  | standIn => exact .standIn
  | value => exact .value
  | symbol => exact .symbol
  | tuple => exact .tuple
  | nil => exact .nil
  | ptr _ ih => exact .ptr ih
  | array _ ih => exact .array ih
  | staticArray _ hd ih => exact .staticArray ih (h.dim hd)
  | inst hr _ ih => exact .inst (h.templateRef hr) ih
  | type hi _ ih => exact .type hi ih
  | soak hi hu => exact .soak (h.soaking? _ ▸ hi) hu
  | cons hi _ _ iha ihas => exact .cons (h.soaking? _ ▸ hi) iha ihas

theorem ty (h : SameForms ps qs) (t pat : Ty) : Deduce.ty ps t pat = Deduce.ty qs t pat := by
  funext b
  refine Option.ext fun ⟨l, c⟩ => ?_
  rw [show Deduce.ty ps t pat b = (Goal.ty t pat).run ps b from rfl,
    show Deduce.ty qs t pat b = (Goal.ty t pat).run qs b from rfl, run_eq_some_iff, run_eq_some_iff]
  exact ⟨h.derives, h.symm.derives⟩

end SameForms

end Deduce

end Templates
