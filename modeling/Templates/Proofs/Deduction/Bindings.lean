import Templates.Deduce

/-!
# Bindings grow

While arguments are matched no binding is taken back or replaced (`Bindings.Le`), each part of a
pattern binds only the parameters that it mentions (`Bindings.Binds`), and a parameter takes
arguments of its kind only (`Bindings.Fills`).
-/

namespace Templates

/-- An argument of the parameter's kind. -/
def ParamKind.takes : ParamKind → Arg → Bool
  | .type _, .type _ | .this _, .type _ | .value _, .value _ _ | .symbol _, .symbol _
  | .tuple, .tuple _ => true
  | _, _ => false

namespace Bindings

variable {b c e : Bindings} {i j : ParamIdx} {a : Arg} {is js : List ParamIdx}

/-- What is bound in `b` is bound in `c` to the same argument. -/
def Le (b c : Bindings) : Prop := ∀ ⦃i a⦄, b.get? i = some a → c.get? i = some a

theorem Le.refl (b : Bindings) : b.Le b := fun _ _ h => h

theorem Le.trans (h : b.Le c) (h' : c.Le e) : b.Le e := fun _ _ hi => h' (h hi)

/-- Bindings come to those that there are. -/
structure Extends (b c : Bindings) : Prop where
  length : c.length = b.length
  le : b.Le c

theorem Extends.refl (b : Bindings) : b.Extends b := ⟨rfl, .refl b⟩

theorem Extends.trans (h : b.Extends c) (h' : c.Extends e) : b.Extends e :=
  ⟨h'.length.trans h.length, h.le.trans h'.le⟩

/-- Bindings for some of the parameters `is` come to those that there are. -/
structure Binds (is : List ParamIdx) (b c : Bindings) : Prop extends b.Extends c where
  only {j : ParamIdx} : j ∉ is → c.get? j = b.get? j

namespace Binds

theorem refl (is : List ParamIdx) (b : Bindings) : Binds is b b := ⟨.refl b, fun _ => rfl⟩

theorem trans (h : Binds is b c) (h' : Binds js c e) : Binds (is ++ js) b e where
  toExtends := h.toExtends.trans h'.toExtends
  only hj := by
    rw [List.mem_append, not_or] at hj
    rw [h'.only hj.2, h.only hj.1]

theorem mono (h : Binds is b c) (hs : is ⊆ js) : Binds js b c :=
  ⟨h.toExtends, fun hj => h.only fun hi => hj (hs hi)⟩

end Binds

/-! ## One binding -/

theorem get?_set (hi : i.index < b.length) (j : ParamIdx) :
    get? (b.set i.index (some a)) j = if j = i then some a else b.get? j := by
  unfold get?
  by_cases hj : j = i
  · subst hj
    rw [if_pos rfl, List.getElem?_set_self hi]
    rfl
  · have hne : i.index ≠ j.index := fun h => hj (congrArg ParamIdx.mk h.symm)
    rw [if_neg hj, List.getElem?_set_ne hne]

theorem unify_eq_some_iff : b.unify i a = some c ↔ i.index < b.length ∧
    (b.get? i = none ∧ c = b.set i.index (some a) ∨ b.get? i = some a ∧ c = b) := by
  unfold unify get?
  rcases h : b[i.index]? with _ | _ | old
  · simpa using fun hlt => absurd hlt (Nat.not_lt.mpr (List.getElem?_eq_none_iff.mp h))
  · obtain ⟨hlt, -⟩ := List.getElem?_eq_some_iff.mp h
    simp [hlt, eq_comm]
  · obtain ⟨hlt, -⟩ := List.getElem?_eq_some_iff.mp h
    simp [hlt, eq_comm (a := b)]

theorem get?_unify (h : b.unify i a = some c) : c.get? i = some a := by
  obtain ⟨hi, ⟨-, rfl⟩ | ⟨h, rfl⟩⟩ := unify_eq_some_iff.mp h
  · rw [get?_set hi, if_pos rfl]
  · exact h

theorem get?_of_unify (h : b.unify i a = some c) : b.get? i = none ∨ b.get? i = some a := by
  obtain ⟨-, ⟨h, -⟩ | ⟨h, -⟩⟩ := unify_eq_some_iff.mp h
  · exact .inl h
  · exact .inr h

theorem exists_unify (hi : i.index < b.length) (h : b.get? i = none ∨ b.get? i = some a) :
    ∃ c, b.unify i a = some c := by
  obtain h | h := h
  · exact ⟨_, unify_eq_some_iff.mpr ⟨hi, .inl ⟨h, rfl⟩⟩⟩
  · exact ⟨_, unify_eq_some_iff.mpr ⟨hi, .inr ⟨h, rfl⟩⟩⟩

theorem unify_self (h : b.get? i = some a) : b.unify i a = some b := by
  refine unify_eq_some_iff.mpr ⟨Nat.lt_of_not_le fun hi => ?_, .inr ⟨h, rfl⟩⟩
  rw [get?, List.getElem?_eq_none hi] at h
  cases h

theorem get?_map (f : Arg → Arg) (b : Bindings) (i : ParamIdx) :
    get? (b.map (Option.map f)) i = (b.get? i).map f := by
  unfold get?
  rw [List.getElem?_map]
  rcases b[i.index]? with _ | _ | a <;> rfl

/-- Arguments that are equal stay equal when all of them are replaced. -/
theorem unify_map (f : Arg → Arg) (h : b.unify i a = some c) :
    unify (b.map (Option.map f)) i (f a) = some (c.map (Option.map f)) := by
  obtain ⟨hi, h⟩ := unify_eq_some_iff.mp h
  refine unify_eq_some_iff.mpr ⟨by rwa [List.length_map], ?_⟩
  rw [get?_map]
  obtain ⟨hn, rfl⟩ | ⟨hs, rfl⟩ := h
  · exact .inl ⟨by rw [hn]; rfl, List.map_set⟩
  · exact .inr ⟨by rw [hs]; rfl, rfl⟩

theorem unify_binds (h : b.unify i a = some c) : Binds [i] b c := by
  obtain ⟨hi, ⟨hn, rfl⟩ | ⟨-, rfl⟩⟩ := unify_eq_some_iff.mp h
  · refine ⟨⟨List.length_set, fun j x hj => ?_⟩, fun hj => ?_⟩
    · rw [get?_set hi, if_neg, hj]
      rintro rfl
      rw [hn] at hj
      cases hj
    · rw [get?_set hi, if_neg fun h => hj (List.mem_singleton.mpr h)]
  · exact .refl _ _

/-! ## Kinds -/

variable {ps : List Param} {k : ParamKind}

/-- Each parameter that is bound has an argument of its kind. -/
def Kinded (ps : List Param) (b : Bindings) : Prop :=
  ∀ ⦃i k a⦄, Deduce.kind? ps i = some k → b.get? i = some a → k.takes a = true

theorem Kinded.free (ps : List Param) (n : Nat) : Kinded ps (.free n) := by
  intro i k a _ ha
  rw [get?, Bindings.free, List.getElem?_replicate] at ha
  split at ha <;> cases ha

/-- Bindings of the right kinds come to those that there are. -/
structure Fills (ps : List Param) (b c : Bindings) : Prop extends b.Extends c where
  fresh {i : ParamIdx} {a : Arg} : c.get? i = some a →
    b.get? i = some a ∨ ∃ k, Deduce.kind? ps i = some k ∧ k.takes a = true

theorem Fills.refl (ps : List Param) (b : Bindings) : Fills ps b b := ⟨.refl b, .inl⟩

theorem Fills.trans (h : Fills ps b c) (h' : Fills ps c e) : Fills ps b e :=
  ⟨h.toExtends.trans h'.toExtends, fun he => (h'.fresh he).elim h.fresh .inr⟩

theorem Fills.kinded (h : Fills ps b c) (H : b.Kinded ps) : c.Kinded ps := by
  intro i k a hk ha
  rcases h.fresh ha with hb | ⟨k', hk', ht⟩
  · exact H hk hb
  · rw [hk] at hk'
    cases hk'
    exact ht

theorem unify_fills (hk : Deduce.kind? ps i = some k) (ha : k.takes a = true)
    (h : b.unify i a = some c) : Fills ps b c := by
  refine ⟨(unify_binds h).toExtends, fun {j a'} ha' => ?_⟩
  by_cases hj : j = i
  · subst hj
    rw [get?_unify h] at ha'
    cases ha'
    exact .inr ⟨k, hk, ha⟩
  · rw [(unify_binds h).only fun hm => hj (List.mem_singleton.mp hm)] at ha'
    exact .inl ha'

end Bindings

end Templates
