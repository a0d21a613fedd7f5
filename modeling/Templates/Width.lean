/-!
# Machine widths

Offsets, sizes and handles are unsigned 32-bit words and integer constants are signed 128-bit
words. Arithmetic is done in `Nat` and `Int`; an operation that can leave its width asks here.
-/

namespace Templates

/-- The largest unsigned 32-bit word. -/
def maxWord32 : Nat := 0xFFFFFFFF

/-- The largest unsigned 64-bit word. -/
def maxWord64 : Nat := 0xFFFFFFFFFFFFFFFF

/-- The least number above the signed 128-bit words. -/
def int128Bound : Int := 0x80000000000000000000000000000000

/-- `n` as an integer constant, if it is a signed 128-bit word. -/
def int128? (n : Int) : Option Int :=
  if -int128Bound ≤ n ∧ n < int128Bound then some n else none

end Templates
