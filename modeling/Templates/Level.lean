/-!
# Match levels

How well an argument list fits a declaration. A list fits as well as its worst argument.
-/

namespace Templates

/-- The levels, weakest first. -/
inductive Level
  | noMatch
  /-- Needs an implicit conversion. -/
  | convert
  /-- Needs a conversion of `const`. -/
  | constant
  | exact
  deriving DecidableEq, Inhabited, Repr

namespace Level

def rank : Level → Nat
  | noMatch => 0
  | convert => 1
  | constant => 2
  | exact => 3

instance : LE Level := ⟨fun a b => a.rank ≤ b.rank⟩
instance : LT Level := ⟨fun a b => a.rank < b.rank⟩
instance (a b : Level) : Decidable (a ≤ b) := inferInstanceAs (Decidable (a.rank ≤ b.rank))
instance (a b : Level) : Decidable (a < b) := inferInstanceAs (Decidable (a.rank < b.rank))
instance : Min Level := ⟨fun a b => if a ≤ b then a else b⟩
instance : Max Level := ⟨fun a b => if a ≤ b then b else a⟩

def text : Level → String
  | noMatch => "no match"
  | convert => "match with conversions"
  | constant => "match with const conversion"
  | exact => "exact match"

theorem min_comm (a b : Level) : min a b = min b a := by cases a <;> cases b <;> rfl

theorem min_assoc (a b c : Level) : min (min a b) c = min a (min b c) := by
  cases a <;> cases b <;> cases c <;> rfl

@[simp] theorem min_exact (a : Level) : min a exact = a := by cases a <;> rfl

@[simp] theorem exact_min (a : Level) : min exact a = a := by cases a <;> rfl

theorem le_antisymm {a b : Level} : a ≤ b → b ≤ a → a = b := by
  cases a <;> cases b <;> decide

end Level
end Templates
