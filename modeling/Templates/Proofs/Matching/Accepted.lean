import Templates.Proofs.Matching

/-!
# Parameter lists that are accepted

What `Decl.finalize?` has looked at holds of the declaration as the engine keeps it: only the first
parameter can be `this`, and a parameter is marked exactly if an earlier pattern mentions it.
-/

namespace Templates

namespace Decl

/-- The marks of a parameter list do not count for its check. -/
structure Marks (ps qs : List Param) : Prop where
  checked : paramsError? ps = none
  marked : qs = ps.zipIdx.map fun (p, i) => { p with dependent := isDependent ps i }

variable {d : Decl} {ps qs : List Param} {i : Nat} {p : Param}

theorem mem_take {n : Nat} (hi : d.params[i]? = some p) (hin : i < n) : p ∈ d.params.take n :=
  List.mem_of_getElem? (by rw [List.getElem?_take, if_pos hin, hi])

theorem Accepted.marks (H : d.Accepted) : ∃ ps, Marks ps d.params := by
  obtain ⟨d₀, h⟩ := H
  unfold finalize? at h
  split at h
  · cases h
  · next hnone =>
    cases h
    exact ⟨d₀.params, hnone, rfl⟩

namespace Marks

theorem getElem? (H : Marks ps qs) (hi : qs[i]? = some p) :
    ∃ q, ps[i]? = some q ∧ p = { q with dependent := isDependent ps i } := by
  rw [H.marked, List.getElem?_map, List.getElem?_zipIdx] at hi
  obtain ⟨⟨q, k⟩, hq, rfl⟩ := Option.map_eq_some_iff.mp hi
  obtain ⟨q', hq', h⟩ := Option.map_eq_some_iff.mp hq
  cases h
  exact ⟨q, hq', by simp⟩

theorem shape (H : Marks ps qs) (hi : ps[i]? = some p) : shapeError? ps p i = none :=
  List.findSome?_eq_none_iff.mp (Option.or_eq_none_iff.mp H.checked).1 (p, i)
    (List.mem_zipIdx_iff_getElem?.mpr hi)

/-- Marking changes no pattern. -/
theorem patternRefs (H : Marks ps qs) :
    qs.map (fun p => p.kind.patternRefs) = ps.map fun p => p.kind.patternRefs := by
  rw [H.marked, List.map_map]
  refine List.ext_getElem? fun n => ?_
  rw [List.getElem?_map, List.getElem?_zipIdx, List.getElem?_map]
  cases ps[n]? <;> rfl

end Marks

namespace Accepted

/-- The receiver goes to the first parameter. -/
theorem this_first (H : d.Accepted) (hi : d.params[i]? = some p) (hp : p.isThis = true) :
    i = 0 := by
  obtain ⟨ps, H⟩ := H.marks
  obtain ⟨q, hq, rfl⟩ := H.getElem? hi
  have hshape := H.shape hq
  unfold shapeError? at hshape
  split at hshape
  · cases hshape
  · split at hshape
    · cases hshape
    · next h => exact Decidable.not_not.mp fun hne => h ⟨hp, hne⟩

/-- A parameter is marked if an earlier pattern mentions it, and only then. -/
theorem dependent_iff (H : d.Accepted) (hi : d.params[i]? = some p) : p.dependent = true ↔
    ∃ q ∈ d.params.take i, ⟨i⟩ ∈ q.kind.patternRefs := by
  obtain ⟨ps, H⟩ := H.marks
  obtain ⟨q, hq, rfl⟩ := H.getElem? hi
  have hrefs : ((d.params.take i).map fun p => p.kind.patternRefs) =
      (ps.take i).map fun p => p.kind.patternRefs := by
    rw [List.map_take, H.patternRefs, List.map_take]
  have hex (l : List Param) : (∃ q ∈ l, (⟨i⟩ : ParamIdx) ∈ q.kind.patternRefs) ↔
      ∃ r ∈ l.map (fun p => p.kind.patternRefs), ⟨i⟩ ∈ r := by simp
  rw [hex, hrefs, ← hex]
  simp [isDependent]

/-- No pattern mentions the first parameter before. -/
theorem first_independent (H : d.Accepted) (hi : d.params[0]? = some p) : p.dependent = false := by
  rw [Bool.eq_false_iff, ne_eq, H.dependent_iff hi]
  rintro ⟨q, hq, -⟩
  cases hq

/-- If there is a `this` parameter, it is the first and no other is. -/
theorem this_cases (H : d.Accepted) : (∀ p ∈ d.params, p.isThis = false) ∨
    ∃ p q ps, d.params = p :: ps ∧ p.kind = .this q ∧ p.dependent = false ∧
      ∀ q ∈ ps, q.isThis = false := by
  by_cases hthis : ∀ p ∈ d.params, p.isThis = false
  · exact .inl hthis
  · push Not at hthis
    obtain ⟨p, hp, hthis⟩ := hthis
    rw [ne_eq, Bool.not_eq_false] at hthis
    obtain ⟨i, hi⟩ := List.mem_iff_getElem?.mp hp
    obtain rfl := H.this_first hi hthis
    obtain ⟨ps, hps⟩ := List.head?_eq_some_iff.mp (List.head?_eq_getElem?.trans hi)
    have hkind : ∃ q, p.kind = .this q := by
      rw [Param.isThis] at hthis
      cases hkind : p.kind with
      | this q => exact ⟨q, rfl⟩
      | _ => cases hkind ▸ hthis
    obtain ⟨q, hkind⟩ := hkind
    refine .inr ⟨p, q, ps, hps, hkind, H.first_independent hi, fun r hr => ?_⟩
    obtain ⟨j, hj⟩ := List.mem_iff_getElem?.mp hr
    refine Bool.eq_false_iff.mpr fun hr => Nat.succ_ne_zero j (H.this_first ?_ hr)
    rw [hps, List.getElem?_cons_succ, hj]

end Accepted

end Decl

/-- A pattern refers to the parameters that it mentions. -/
theorem ParamKind.mem_patternRefs {k : ParamKind} {j : ParamIdx} :
    j ∈ k.patternRefs ↔ ∃ t, k.pattern? = some t ∧ j ∈ t.mentions := by
  unfold patternRefs
  cases k.pattern? with
  | none => simp
  | some t => simp [Ty.paramRefs]

/-! ## Parameters as they are written -/

def Param.ofType (name : String) (spec default : Option Ty) : Param :=
  { name, kind := .type { spec, default } }

def Param.ofValue (name : String) (ty : Ty) (spec : Option ExprId) : Param :=
  { name, kind := .value { ty, spec } }

def Param.ofSymbol (name : String) (spec : Option SymbolId) (type : Option Ty) : Param :=
  { name, kind := .symbol { specSymbol := spec, specType := type } }

def Param.ofTuple (name : String) : Param := { name, kind := .tuple }

end Templates
