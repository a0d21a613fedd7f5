import Templates.Width
import Templates.Ty.Queries

/-!
# Fields and aggregates

The size and alignment of a field follow from its type on a 64-bit target. Fields are placed in an
aggregate one after the other, or all at the start of a union. Every offset and size is a 32-bit
word; a field that would end beyond is refused.
-/

namespace Templates

/-- The size and alignment of a field in bytes. -/
structure FieldLayout where
  size : Nat
  align : Nat
  hasPointers : Bool := false
  deriving DecidableEq, Inhabited, Repr

namespace FieldLayout

def pointer : FieldLayout := ⟨8, 8, true⟩

/-- A pointer and a length. -/
def slice : FieldLayout := ⟨16, 8, true⟩

/-- So many fields in a row, if they fit. -/
def repeated? (l : FieldLayout) (n : Nat) : Option FieldLayout :=
  if n ≤ maxWord32 ∧ l.size * n ≤ maxWord32 then some { l with size := l.size * n } else none

/-- The layout of a field, unless the size of its type is not known here. -/
def ofTy? : Ty → Option FieldLayout
  | .basic .void => none
  | .basic b => some ⟨b.size, b.size, false⟩
  | .const t => ofTy? t
  | .ptr _ => some pointer
  | .array _ => some slice
  | .staticArray t (.known n) => (ofTy? t).bind fun l => l.repeated? n.toNat
  | .staticArray _ _ | .named _ | .inst _ _ | .param _ | .standIn _ | .error => none

end FieldLayout

/-- The least multiple of `a` that is at least `n`. -/
def roundUp (n a : Nat) : Nat := (n + a - 1) / a * a

theorem le_roundUp {n a : Nat} (h : 0 < a) : n ≤ roundUp n a := by
  have hd := Nat.div_add_mod (n + a - 1) a
  have hm := Nat.mod_lt (n + a - 1) h
  rw [Nat.mul_comm] at hd
  unfold roundUp
  omega

theorem dvd_roundUp (n a : Nat) : a ∣ roundUp n a := Nat.dvd_mul_left _ _

theorem roundUp_le {n a m : Nat} (h : 0 < a) (hd : a ∣ m) (hm : n ≤ m) : roundUp n a ≤ m := by
  obtain ⟨k, rfl⟩ := hd
  unfold roundUp
  have hk : (n + a - 1) / a ≤ k := by
    rw [← Nat.lt_succ_iff, Nat.div_lt_iff_lt_mul h, Nat.succ_mul, Nat.mul_comm]
    omega
  calc (n + a - 1) / a * a ≤ k * a := Nat.mul_le_mul_right a hk
    _ = a * k := Nat.mul_comm k a

/-- A field with its place in an aggregate. -/
structure PlacedField where
  name : String
  offset : Nat
  size : Nat
  deriving DecidableEq, Inhabited, Repr

inductive LayoutError
  | fieldTooLarge (index size : Nat)
  | paddingOverflow (size alignment : Nat)
  deriving DecidableEq, Inhabited, Repr

def LayoutError.message : LayoutError → String
  | .fieldTooLarge i n =>
    "field #" ++ toString i ++ " of " ++ toString n ++ " bytes does not fit in the aggregate"
  | .paddingOverflow n a =>
    "aggregate of " ++ toString n ++ " bytes cannot be padded to alignment " ++ toString a

structure AggregateLayout where
  /-- The next free offset of a struct. -/
  offset : Nat := 0
  size : Nat := 0
  alignment : Nat := 1
  isUnion : Bool := false
  fields : List PlacedField := []
  deriving DecidableEq, Inhabited, Repr

namespace AggregateLayout

def struct : AggregateLayout := {}

def union : AggregateLayout := { isUnion := true }

/-- Places one field and gives its offset. An alignment of `0` counts as `1`. -/
def place (a : AggregateLayout) (name : String) (l : FieldLayout) :
    Except LayoutError (Nat × AggregateLayout) :=
  let align := max l.align 1
  let offset := if a.isUnion then 0 else roundUp a.offset align
  let stop := offset + l.size
  if maxWord32 < stop then .error (.fieldTooLarge a.fields.length l.size)
  else
    .ok (offset,
      { a with
        offset := if a.isUnion then a.offset else stop
        size := max a.size stop
        alignment := max a.alignment align
        fields := a.fields ++ [⟨name, offset, l.size⟩] })

/-- Places fields in order. The first that is refused ends it; those before it stay. -/
def placeAll (a : AggregateLayout) : List (String × FieldLayout) →
    Except LayoutError Unit × AggregateLayout
  | [] => (.ok (), a)
  | (name, l) :: rest =>
    match a.place name l with
    | .ok (_, a) => a.placeAll rest
    | .error e => (.error e, a)

/-- The size with the padding that an array of the aggregate needs. -/
def paddedSize (a : AggregateLayout) : Except LayoutError Nat :=
  let align := max a.alignment 1
  let size := roundUp a.size align
  if maxWord32 < size then .error (.paddingOverflow a.size align) else .ok size

end AggregateLayout
end Templates
