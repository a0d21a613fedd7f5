import Templates.Width

/-!
# Source spans

A span is a pair of byte offsets into one file. Offsets are 32-bit words; `Span.ofRange` is the way
in for wider offsets.
-/

namespace Templates

/-- The bytes from `start` up to `stop`. -/
structure Span where
  start : Nat := 0
  stop : Nat := 0
  deriving DecidableEq, Inhabited, Repr

/-- An offset that does not fit a span. -/
inductive SpanError
  | startTooLarge (offset : Nat)
  | stopTooLarge (offset : Nat)
  deriving DecidableEq, Repr

namespace SpanError

def message : SpanError → String
  | .startTooLarge n => "span start " ++ toString n ++ " exceeds u32::MAX"
  | .stopTooLarge n => "span end " ++ toString n ++ " exceeds u32::MAX"

end SpanError

namespace Span

/-- The span of generated code. -/
def generated : Span := {}

/-- The start is looked at first. -/
def ofRange (start stop : Nat) : Except SpanError Span :=
  if maxWord32 < start then .error (.startTooLarge start)
  else if maxWord32 < stop then .error (.stopTooLarge stop)
  else .ok ⟨start, stop⟩

/-- The number of bytes, for a span whose ends are in order. -/
def length? (s : Span) : Option Nat :=
  if s.start ≤ s.stop then some (s.stop - s.start) else none

def isEmpty (s : Span) : Bool := s.start = s.stop

def isGenerated (s : Span) : Bool := s.start = 0 ∧ s.stop = 0

/-- The smallest span that covers both. -/
def merge (a b : Span) : Span := ⟨min a.start b.start, max a.stop b.stop⟩

/-- The written form `start..stop`. -/
def text (s : Span) : String := toString s.start ++ ".." ++ toString s.stop

theorem merge_comm (a b : Span) : a.merge b = b.merge a := by
  simp [merge, Nat.min_comm, Nat.max_comm]

theorem merge_assoc (a b c : Span) : (a.merge b).merge c = a.merge (b.merge c) := by
  simp [merge, Nat.min_assoc, Nat.max_assoc]

@[simp] theorem merge_self (a : Span) : a.merge a = a := by simp [merge]

end Span
end Templates
