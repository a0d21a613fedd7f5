import Templates.Field
import Mathlib.Algebra.BigOperators.Group.List.Basic

/-!
# The size of a type

A type is an element, repeated by the static arrays around it. The layout of a field follows from the
element and from the lengths of the arrays, up to the widest size (`FieldLayout.sizes`).
-/

namespace Templates

theorem BasicTy.size_mem {b : BasicTy} (hb : b ≠ .void) : b.size ∈ [1, 2, 4, 8] := by
  cases b with
  | void => exact absurd rfl hb
  | _ => decide

namespace Ty

/-- The type below qualifiers and static arrays. -/
def element : Ty → Ty
  | .const t | .staticArray t _ => t.element
  | t => t

/-- The lengths of the static arrays around the element, the outermost first. -/
def dims : Ty → List Dim
  | .const t => t.dims
  | .staticArray t d => d :: t.dims
  | _ => []

/-- The size of an element. A dynamic array is a pointer and a length, and `void` has no values. -/
def elementSize? : Ty → Option Nat
  | .basic .void => none
  | .basic b => some b.size
  | .ptr _ => some 8
  | .array _ => some 16
  | _ => none

/-- The type holds elements of `s` bytes in static arrays of the lengths `ns`. -/
def HasExtent (t : Ty) (ns : List UInt64) (s : Nat) : Prop :=
  t.dims = ns.map .known ∧ t.element.elementSize? = some s

variable {t : Ty} {d : Dim} {ns : List UInt64} {s : Nat}

theorem elementSize?_basic {b : BasicTy} (hb : b ≠ .void) :
    (Ty.basic b).elementSize? = some b.size := by
  cases b with
  | void => exact absurd rfl hb
  | _ => rfl

theorem hasExtent_of_dims (hd : t.dims = []) (ht : t.element = t) :
    t.HasExtent ns s ↔ ns = [] ∧ t.elementSize? = some s := by
  rw [HasExtent, hd, ht, eq_comm, List.map_eq_nil_iff]

theorem hasExtent_staticArray : (Ty.staticArray t d).HasExtent ns s ↔
    ∃ n ns', d = .known n ∧ ns = n :: ns' ∧ t.HasExtent ns' s := by
  rw [HasExtent, dims, eq_comm, List.map_eq_cons_iff]
  constructor
  · rintro ⟨⟨n, ns', rfl, rfl, hns⟩, hs⟩
    exact ⟨n, ns', rfl, rfl, hns.symm, hs⟩
  · rintro ⟨n, ns', rfl, rfl, hns, hs⟩
    exact ⟨⟨n, ns', rfl, rfl, hns.symm⟩, hs⟩

theorem elementSize?_pos (h : t.elementSize? = some s) : 1 ≤ s := by
  cases t with
  | basic b => cases b <;> cases h <;> decide
  | ptr | array => cases h; decide
  | _ => cases h

end Ty

/-- The number of elements in arrays of these lengths. -/
def elementCount (ns : List UInt64) : Nat := (ns.map UInt64.toNat).prod

theorem elementCount_cons (n : UInt64) (ns : List UInt64) :
    elementCount (n :: ns) = n.toNat * elementCount ns := by simp [elementCount]

theorem one_le_elementCount {ns : List UInt64} (h : ∀ n ∈ ns, 1 ≤ n.toNat) :
    1 ≤ elementCount ns := by
  induction ns with
  | nil => exact Nat.le_refl 1
  | cons n ns ih =>
    rw [elementCount_cons]
    exact Nat.mul_pos (h n List.mem_cons_self) (ih fun m hm => h m (List.mem_cons_of_mem n hm))

namespace FieldLayout

variable {t : Ty} {l l' : FieldLayout} {n s : Nat} {ns : List UInt64}

/-- The layout suits a field of the type. -/
structure Suits (l : FieldLayout) (t : Ty) : Prop where
  hasPointers : l.hasPointers = t.hasPointers
  align : l.align ∈ [1, 2, 4, 8]
  align_dvd : l.align ∣ l.size
  size : ∃ ns s, t.HasExtent ns s ∧ l.size = elementCount ns * s
  size_le : l.size ≤ maxWord32

theorem repeated?_eq_some_iff : l.repeated? n = some l' ↔
    n ≤ maxWord32 ∧ l.size * n ≤ maxWord32 ∧ l' = { l with size := l.size * n } := by
  unfold repeated?
  split <;> grind

namespace Suits

/-- A scalar is aligned to its size. -/
theorem basic {b : BasicTy} (hb : b ≠ .void) : Suits ⟨b.size, b.size, false⟩ (.basic b) where
  hasPointers := rfl
  align := BasicTy.size_mem hb
  align_dvd := Nat.dvd_refl _
  size := ⟨[], b.size, ⟨rfl, Ty.elementSize?_basic hb⟩, (Nat.one_mul _).symm⟩
  size_le := by cases b <;> decide

theorem pointer (t : Ty) : Suits .pointer (.ptr t) where
  hasPointers := rfl
  align := by decide
  align_dvd := by decide
  size := ⟨[], 8, ⟨rfl, rfl⟩, rfl⟩
  size_le := by decide

theorem slice (t : Ty) : Suits .slice (.array t) where
  hasPointers := rfl
  align := by decide
  align_dvd := by decide
  size := ⟨[], 16, ⟨rfl, rfl⟩, rfl⟩
  size_le := by decide

theorem const (H : l.Suits t) : l.Suits (.const t) where
  hasPointers := H.hasPointers
  align := H.align
  align_dvd := H.align_dvd
  size := H.size
  size_le := H.size_le

theorem repeated {n : UInt64} (H : l.Suits t) (h : l.repeated? n.toNat = some l') :
    l'.Suits (.staticArray t (.known n)) := by
  obtain ⟨-, hle, rfl⟩ := repeated?_eq_some_iff.mp h
  obtain ⟨ns, s, ⟨hdims, hs⟩, hsize⟩ := H.size
  refine ⟨H.hasPointers, H.align, H.align_dvd.mul_right _, ⟨n :: ns, s, ⟨?_, hs⟩, ?_⟩, hle⟩
  · rw [Ty.dims, hdims, List.map_cons]
  · rw [elementCount_cons, Nat.mul_assoc, ← hsize, Nat.mul_comm]

end Suits

theorem suits_of_ofTy? (h : ofTy? t = some l) : l.Suits t := by
  fun_induction ofTy? t generalizing l with
  | case2 b hb =>
    cases h
    exact .basic hb
  | case3 t ih => exact (ih h).const
  | case4 t =>
    cases h
    exact .pointer t
  | case5 t =>
    cases h
    exact .slice t
  | case6 t n ih =>
    obtain ⟨l₀, hl₀, hl⟩ := Option.bind_eq_some_iff.mp h
    exact (ih hl₀).repeated hl
  | _ => cases h

/-- No array is larger than the whole, so each of them fits if the whole does. -/
theorem exists_of_hasExtent (ht : t.HasExtent ns s) (hpos : ∀ n ∈ ns, 1 ≤ n.toNat)
    (hfits : elementCount ns * s ≤ maxWord32) :
    ∃ l, ofTy? t = some l ∧ l.size = elementCount ns * s := by
  fun_induction ofTy? t generalizing ns with
  | case2 b hb =>
    obtain ⟨rfl, hs⟩ := (Ty.hasExtent_of_dims rfl rfl).mp ht
    rw [Ty.elementSize?_basic hb, Option.some_inj] at hs
    exact ⟨_, rfl, hs.trans (Nat.one_mul s).symm⟩
  | case3 t ih => exact ih ht hpos hfits
  | case4 | case5 =>
    obtain ⟨rfl, hs⟩ := (Ty.hasExtent_of_dims rfl rfl).mp ht
    cases hs
    exact ⟨_, rfl, rfl⟩
  | case6 t n ih =>
    obtain ⟨m, ns, hm, rfl, hinner⟩ := Ty.hasExtent_staticArray.mp ht
    cases hm
    have hn : 1 ≤ n.toNat := hpos n List.mem_cons_self
    replace hpos : ∀ m ∈ ns, 1 ≤ m.toNat := fun m hm => hpos m (List.mem_cons_of_mem n hm)
    have hrest : 1 ≤ elementCount ns * s :=
      Nat.mul_pos (one_le_elementCount hpos) (Ty.elementSize?_pos hinner.2)
    rw [elementCount_cons, Nat.mul_assoc] at hfits ⊢
    obtain ⟨l, hl, hsize⟩ := ih hinner hpos (Nat.le_trans (Nat.le_mul_of_pos_left _ hn) hfits)
    rw [hl, Option.bind_some]
    rw [← hsize, Nat.mul_comm] at hfits ⊢
    rw [← hsize] at hrest
    -- The length itself fits, for what it multiplies is not zero.
    have hlength : n.toNat ≤ maxWord32 := Nat.le_trans (Nat.le_mul_of_pos_left _ hrest) hfits
    exact ⟨_, repeated?_eq_some_iff.mpr ⟨hlength, hfits, rfl⟩, rfl⟩
  | case7 t d hd =>
    obtain ⟨n, -, rfl, -⟩ := Ty.hasExtent_staticArray.mp ht
    exact absurd rfl (hd n)
  | _ =>
    obtain ⟨-, hs⟩ := (Ty.hasExtent_of_dims rfl rfl).mp ht
    cases hs

/-- **The layout of a field agrees with its type.** It has pointers if the type has, and its size is that
of all elements together. There is one if the element has a size, the lengths are known and none of them
is zero, and the whole fits. -/
theorem sizes (t : Ty) :
    (∀ l, ofTy? t = some l → l.Suits t) ∧
      ∀ ns s, t.HasExtent ns s → (∀ n ∈ ns, 1 ≤ n.toNat) → elementCount ns * s ≤ maxWord32 →
        (ofTy? t).isSome := by
  refine ⟨fun l => suits_of_ofTy?, fun ns s ht hpos hfits => ?_⟩
  obtain ⟨l, hl, -⟩ := exists_of_hasExtent ht hpos hfits
  exact Option.isSome_of_eq_some hl

/-- An array of no elements has no layout if one element of it is too large. -/
example : ofTy? (.staticArray (.staticArray .int (.known 0x40000000)) (.known 0)) = none ∧
    ofTy? (.staticArray (.const (.staticArray .int (.known 0x3FFFFFFF))) (.known 1)) =
      some ⟨0xFFFFFFFC, 4, false⟩ := by decide

end FieldLayout
end Templates
