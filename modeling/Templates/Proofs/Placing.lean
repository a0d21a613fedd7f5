import Templates.Field
import Mathlib.Order.Bounds.Basic
import Mathlib.Data.List.Induction

/-!
# Fields in an aggregate

Fields are offered to an aggregate one after the other, and those that are refused leave it as it is.
Whatever was offered, the fields that were taken lie as they should, what becomes of the next one
depends on where it would end, and the padded size is the least that suits them all
(`AggregateLayout.laysOut`).
-/

namespace Templates

/-- The alignment that counts: `0` counts as `1`. -/
def FieldLayout.step (l : FieldLayout) : Nat := max l.align 1

theorem FieldLayout.step_pos (l : FieldLayout) : 0 < l.step := Nat.le_max_right ..

/-- Rounding up gives the least multiple. -/
theorem isLeast_roundUp {n a : Nat} (h : 0 < a) : IsLeast {m | a ∣ m ∧ n ≤ m} (roundUp n a) :=
  ⟨⟨dvd_roundUp n a, le_roundUp h⟩, fun _ hm => roundUp_le h hm.1 hm.2⟩

namespace PlacedField

variable {ps : List PlacedField} {p : PlacedField}

/-- The first offset after the field. -/
def stop (p : PlacedField) : Nat := p.offset + p.size

/-- Where the last of the fields ends. -/
def lastStop (ps : List PlacedField) : Nat := (ps.getLast?.map stop).getD 0

/-- The greatest of the ends. -/
def maxStop (ps : List PlacedField) : Nat := (ps.map stop).foldl max 0

@[simp] theorem lastStop_concat (ps : List PlacedField) (p : PlacedField) :
    lastStop (ps ++ [p]) = p.stop := by simp [lastStop]

@[simp] theorem maxStop_concat (ps : List PlacedField) (p : PlacedField) :
    maxStop (ps ++ [p]) = max (maxStop ps) p.stop := by simp [maxStop]

theorem stop_le_maxStop (h : p ∈ ps) : p.stop ≤ maxStop ps := by
  induction ps using List.reverseRecOn with
  | nil => cases h
  | append_singleton ps p' ih =>
    rw [maxStop_concat]
    rcases List.mem_append.mp h with h | h
    · exact (ih h).trans (Nat.le_max_left ..)
    · cases List.mem_singleton.mp h
      exact Nat.le_max_right ..

end PlacedField

namespace AggregateLayout

open PlacedField

variable {u : Bool} {a : AggregateLayout} {fs gs : List (String × FieldLayout)}
  {f : String × FieldLayout} {l : FieldLayout} {ps : List PlacedField} {o : Nat}

/-! ## Where fields lie -/

/-- The offset that a field gets after others: the start of a union, and in a struct the least multiple
of its alignment at which the last one has ended. -/
def IsPlace (u : Bool) (ps : List PlacedField) (l : FieldLayout) (o : Nat) : Prop :=
  if u then o = 0 else IsLeast {m | l.step ∣ m ∧ lastStop ps ≤ m} o

/-- Each field has its place after those before it. -/
inductive Laid (u : Bool) : List (String × FieldLayout) → List PlacedField → Prop
  | nil : Laid u [] []
  | concat {fs : List (String × FieldLayout)} {ps : List PlacedField} {f : String × FieldLayout}
    {o : Nat} : Laid u fs ps → IsPlace u ps f.2 o →
    Laid u (fs ++ [f]) (ps ++ [⟨f.1, o, f.2.size⟩])

theorem IsPlace.lastStop_le (h : IsPlace false ps l o) : lastStop ps ≤ o := h.1.2

namespace Laid

/-- In a struct no field ends after the last one. -/
theorem maxStop_eq (h : Laid false fs ps) : maxStop ps = lastStop ps := by
  induction h with
  | nil => rfl
  | concat _ hp ih =>
    rw [maxStop_concat, lastStop_concat, ih]
    exact Nat.max_eq_right (hp.lastStop_le.trans (Nat.le_add_right ..))

/-- The fields of a struct are in order and do not overlap. -/
theorem pairwise (h : Laid false fs ps) : ps.Pairwise fun p p' => p.stop ≤ p'.offset := by
  induction h with
  | nil => exact .nil
  | @concat _ ps f o hlaid hp ih =>
    rw [List.pairwise_append]
    refine ⟨ih, List.pairwise_singleton .., fun p hmem p' hmem' => ?_⟩
    cases List.mem_singleton.mp hmem'
    calc p.stop ≤ maxStop ps := stop_le_maxStop hmem
      _ = lastStop ps := hlaid.maxStop_eq
      _ ≤ o := hp.lastStop_le

/-- The fields of a union start at its start. -/
theorem offset_eq_zero (h : Laid true fs ps) : ∀ p ∈ ps, p.offset = 0 := by
  induction h with
  | nil => nofun
  | concat _ hp ih =>
    intro p hmem
    rcases List.mem_append.mp hmem with hmem | hmem
    · exact ih p hmem
    · cases List.mem_singleton.mp hmem
      exact hp

end Laid

/-! ## Calls -/

/-- The offset that the next field gets if it is taken. -/
def nextOffset (a : AggregateLayout) (l : FieldLayout) : Nat :=
  if a.isUnion then 0 else roundUp a.offset l.step

/-- The aggregate with one field more. -/
def withField (a : AggregateLayout) (f : String × FieldLayout) : AggregateLayout :=
  let stop := a.nextOffset f.2 + f.2.size
  { a with
    offset := if a.isUnion then a.offset else stop
    size := max a.size stop
    alignment := max a.alignment f.2.step
    fields := a.fields ++ [⟨f.1, a.nextOffset f.2, f.2.size⟩] }

theorem place_eq (a : AggregateLayout) (f : String × FieldLayout) : a.place f.1 f.2 =
    if maxWord32 < a.nextOffset f.2 + f.2.size then
      .error (.fieldTooLarge a.fields.length f.2.size)
    else .ok (a.nextOffset f.2, a.withField f) := rfl

/-- The aggregate after a field was offered to it. -/
def offer (a : AggregateLayout) (f : String × FieldLayout) : AggregateLayout :=
  match a.place f.1 f.2 with
  | .ok (_, b) => b
  | .error _ => a

/-- The aggregate after fields were offered to it one after the other. -/
def offerAll (a : AggregateLayout) (fs : List (String × FieldLayout)) : AggregateLayout :=
  fs.foldl offer a

/-- Those of the fields that are taken when they are offered one after the other. -/
def taken (a : AggregateLayout) : List (String × FieldLayout) → List (String × FieldLayout)
  | [] => []
  | f :: fs =>
    match a.place f.1 f.2 with
    | .ok (_, b) => f :: b.taken fs
    | .error _ => a.taken fs

/-- A call either takes the field or fails and changes nothing. -/
theorem offer_cases (a : AggregateLayout) (f : String × FieldLayout) :
    (a.nextOffset f.2 + f.2.size ≤ maxWord32 ∧ a.offer f = a.withField f ∧
      ∀ fs, a.taken (f :: fs) = f :: (a.offer f).taken fs) ∨
    (maxWord32 < a.nextOffset f.2 + f.2.size ∧ a.offer f = a ∧
      ∀ fs, a.taken (f :: fs) = a.taken fs) := by
  rcases Nat.lt_or_ge maxWord32 (a.nextOffset f.2 + f.2.size) with hlarge | hfits
  · have hplace := (a.place_eq f).trans (if_pos hlarge)
    exact .inr ⟨hlarge, by simp [offer, hplace], fun fs => by simp [taken, hplace]⟩
  · have hplace := (a.place_eq f).trans (if_neg (Nat.not_lt.mpr hfits))
    exact .inl ⟨hfits, by simp [offer, hplace], fun fs => by simp [taken, offer, hplace]⟩

/-! ## What an aggregate says -/

/-- What an aggregate says about the fields that were taken. -/
structure Holds (u : Bool) (a : AggregateLayout) (fs : List (String × FieldLayout)) : Prop where
  isUnion : a.isUnion = u
  laid : Laid u fs a.fields
  offset : u = false → a.offset = lastStop a.fields
  size : a.size = maxStop a.fields
  size_le : a.size ≤ maxWord32
  step_le : ∀ f ∈ fs, f.2.step ≤ a.alignment
  alignment : a.alignment = 1 ∨ ∃ f ∈ fs, f.2.step = a.alignment

theorem holds_empty (u : Bool) : Holds u { isUnion := u } [] where
  isUnion := rfl
  laid := .nil
  offset _ := rfl
  size := rfl
  size_le := Nat.zero_le _
  step_le := by simp
  alignment := .inl rfl

namespace Holds

theorem isPlace_nextOffset (H : Holds u a fs) (l : FieldLayout) :
    IsPlace u a.fields l (a.nextOffset l) := by
  unfold IsPlace nextOffset
  rw [H.isUnion]
  cases u with
  | true => rfl
  | false =>
    rw [← H.offset rfl]
    exact isLeast_roundUp l.step_pos

theorem withField (H : Holds u a fs) (hfits : a.nextOffset f.2 + f.2.size ≤ maxWord32) :
    Holds u (a.withField f) (fs ++ [f]) where
  isUnion := H.isUnion
  laid := H.laid.concat (H.isPlace_nextOffset f.2)
  offset hu := by
    subst hu
    simp [AggregateLayout.withField, H.isUnion, stop]
  size := by simp [AggregateLayout.withField, H.size, stop]
  size_le := Nat.max_le.mpr ⟨H.size_le, hfits⟩
  step_le g hg := by
    rcases List.mem_append.mp hg with hg | hg
    · exact (H.step_le g hg).trans (Nat.le_max_left ..)
    · cases List.mem_singleton.mp hg
      exact Nat.le_max_right ..
  alignment := by
    change max a.alignment f.2.step = 1 ∨ ∃ g ∈ fs ++ [f], g.2.step = max a.alignment f.2.step
    rcases Nat.le_total f.2.step a.alignment with hle | hle
    · rw [Nat.max_eq_left hle]
      refine H.alignment.imp_right fun ⟨g, hg, hstep⟩ => ⟨g, List.mem_append_left _ hg, hstep⟩
    · rw [Nat.max_eq_right hle]
      exact .inr ⟨f, by simp, rfl⟩

theorem offerAll (H : Holds u a gs) (fs : List (String × FieldLayout)) :
    Holds u (a.offerAll fs) (gs ++ a.taken fs) := by
  induction fs generalizing a gs with
  | nil => simpa [taken, AggregateLayout.offerAll] using H
  | cons f fs ih =>
    change Holds u ((a.offer f).offerAll fs) _
    obtain ⟨hfits, hoffer, htaken⟩ | ⟨-, hoffer, htaken⟩ := a.offer_cases f
    · rw [htaken, List.append_cons, hoffer]
      exact ih (H.withField hfits)
    · rw [htaken, hoffer]
      exact ih H

theorem one_le_alignment (H : Holds u a fs) : 1 ≤ a.alignment := by
  obtain h | ⟨f, -, h⟩ := H.alignment
  · exact h.ge
  · exact h ▸ f.2.step_pos

/-- Where all alignments are powers of two, the greatest is a multiple of them all. -/
theorem alignment_dvd_iff (H : Holds u a fs) (hpow : ∀ f ∈ fs, f.2.step.isPowerOfTwo) (m : Nat) :
    a.alignment ∣ m ↔ ∀ f ∈ fs, f.2.step ∣ m := by
  constructor
  · intro hm f hf
    refine Nat.dvd_trans ?_ hm
    obtain ⟨i, hi⟩ := hpow f hf
    have hle := H.step_le f hf
    obtain ha | ⟨g, hg, ha⟩ := H.alignment
    · rw [Nat.le_antisymm (hle.trans ha.le) f.2.step_pos]
      exact Nat.one_dvd _
    · obtain ⟨j, hj⟩ := hpow g hg
      rw [hi, ← ha, hj] at hle ⊢
      exact Nat.pow_dvd_pow 2 ((Nat.pow_le_pow_iff_right (Nat.lt_succ_self 1)).mp hle)
  · intro hm
    obtain ha | ⟨g, hg, ha⟩ := H.alignment
    · rw [ha]
      exact Nat.one_dvd _
    · exact ha ▸ hm g hg

theorem paddedSize_eq (H : Holds u a fs) : a.paddedSize =
    if maxWord32 < roundUp a.size a.alignment then
      .error (.paddingOverflow a.size a.alignment)
    else .ok (roundUp a.size a.alignment) := by
  unfold paddedSize
  rw [Nat.max_eq_left H.one_le_alignment]

end Holds

/-- The layout of an aggregate that has taken fields, and what it does next. -/
structure LaysOut (u : Bool) (a : AggregateLayout) (fs : List (String × FieldLayout)) : Prop where
  laid : Laid u fs a.fields
  /-- The fields of a struct are in order and do not overlap, those of a union start at its start. -/
  ordered : if u then ∀ p ∈ a.fields, p.offset = 0
    else a.fields.Pairwise fun p p' => p.stop ≤ p'.offset
  size : a.size = if u then maxStop a.fields else lastStop a.fields
  size_le : a.size ≤ maxWord32
  /-- A field is refused if it would end beyond the widest offset. -/
  place : ∀ f, ∃ o, IsPlace u a.fields f.2 o ∧
    if maxWord32 < o + f.2.size then
      a.place f.1 f.2 = .error (.fieldTooLarge a.fields.length f.2.size) ∧ a.offer f = a
    else a.place f.1 f.2 = .ok (o, a.offer f)
  /-- The padded size suits every field that was taken. -/
  padded : (∀ f ∈ fs, f.2.step.isPowerOfTwo) →
    ∃ n, IsLeast {m | (∀ f ∈ fs, f.2.step ∣ m) ∧ a.size ≤ m} n ∧
      a.paddedSize = if maxWord32 < n then .error (.paddingOverflow a.size a.alignment) else .ok n

theorem Holds.layout (H : Holds u a fs) : LaysOut u a fs where
  laid := H.laid
  ordered := by
    cases u with
    | true => exact H.laid.offset_eq_zero
    | false => exact H.laid.pairwise
  size := by
    cases u with
    | true => exact H.size
    | false => exact H.size.trans H.laid.maxStop_eq
  size_le := H.size_le
  place f := by
    refine ⟨_, H.isPlace_nextOffset f.2, ?_⟩
    rw [a.place_eq f]
    obtain ⟨hfits, hoffer, -⟩ | ⟨hlarge, hoffer, -⟩ := a.offer_cases f
    · simp [Nat.not_lt.mpr hfits, hoffer]
    · simp [hlarge, hoffer]
  padded hpow := by
    refine ⟨roundUp a.size a.alignment, ?_, H.paddedSize_eq⟩
    simpa only [H.alignment_dvd_iff hpow] using isLeast_roundUp (n := a.size) H.one_le_alignment

/-- **How fields lie.** Whatever fields are offered to an empty aggregate, those that are taken are laid
out one after the other in a struct, and at the start in a union. -/
theorem laysOut (fs : List (String × FieldLayout)) :
    LaysOut false (struct.offerAll fs) (struct.taken fs) ∧
      LaysOut true (union.offerAll fs) (union.taken fs) :=
  ⟨((holds_empty false).offerAll fs).layout, ((holds_empty true).offerAll fs).layout⟩

example :
    let fs := [("a", ⟨1, 1, false⟩), ("b", ⟨maxWord32, 1, false⟩), ("c", ⟨4, 4, false⟩)]
    (struct.offerAll fs).fields = [⟨"a", 0, 1⟩, ⟨"c", 4, 4⟩] ∧
      (struct.offerAll fs).paddedSize.toOption = some 8 := by decide

end AggregateLayout
end Templates
