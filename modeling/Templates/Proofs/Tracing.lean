import Mathlib.Algebra.Ring.Nat
import Mathlib.Data.List.Forall2
import Templates.Trace

/-!
# What the lines of a trace stand for

Each line of a shortened trace stands for some entries in a row, and the lines together stand for all
entries, one after the other (`Trace.Covers`). A trace is shortened by numbers: where a run begins,
where an end begins, how many entries are left out. No such number is below zero or beyond the last
entry (`Trace.lines?_eq`).
-/

namespace Templates.Trace

variable {es fs : List TraceEntry} {e : TraceEntry} {max n i : Nat}

/-! ## Lines -/

/-- What a line says. -/
inductive Line
  | single (e : TraceEntry)
  /-- The first of some entries, and their number. -/
  | folded (e : TraceEntry) (n : Nat)
  | elided (n : Nat)

namespace Line

def text : Line → String
  | single e => e.text
  | folded e n =>
    e.span.text ++ ": " ++ toString n ++ " recursive instantiations from here: `" ++ e.name ++ "`"
  | elided n => skippedText n

/-- The number of entries that the line states. -/
def count : Line → Nat
  | single _ => 1
  | folded _ n | elided n => n

def isElided : Line → Bool
  | elided _ => true
  | single _ | folded _ _ => false

/-- The line stands for the entries. -/
inductive StandsFor : Line → List TraceEntry → Prop
  | single (e : TraceEntry) : StandsFor (.single e) [e]
  /-- Two or more of one declaration at one place. -/
  | folded {e f : TraceEntry} {fs : List TraceEntry} :
    (∀ g ∈ f :: fs, g.decl = e.decl ∧ g.span = e.span) →
    StandsFor (.folded e (fs.length + 2)) (e :: f :: fs)
  | elided {es : List TraceEntry} : es ≠ [] → StandsFor (.elided es.length) es

end Line

/-- The lines stand for the entries, each for those that follow the ones before. -/
inductive Covers : List Line → List TraceEntry → Prop
  | nil : Covers [] []
  | cons {l : Line} {ls : List Line} {es fs : List TraceEntry} :
    l.StandsFor es → Covers ls fs → Covers (l :: ls) (es ++ fs)

namespace Covers

variable {ls ms : List Line}

theorem append (h : Covers ls es) (h' : Covers ms fs) : Covers (ls ++ ms) (es ++ fs) := by
  induction h with
  | nil => exact h'
  | cons hl _ ih =>
    rw [List.cons_append, List.append_assoc]
    exact .cons hl ih

end Covers

/-! ## Runs -/

/-- The lines account for the entries, with at most `max` lines that show some. -/
structure Accounts (es : List TraceEntry) (max : Nat) (ls : List Line) : Prop where
  covers : Covers ls es
  /-- The numbers that the lines state add up to the number of entries. -/
  total : (ls.map Line.count).sum = es.length
  elided : ls.countP Line.isElided ≤ 1
  shown : ls.countP (fun l => !l.isElided) ≤ max

/-- An entry of the declaration `n`. -/
def stop (n : Nat) : TraceEntry := ⟨⟨n⟩, "A", ⟨n, n + 1⟩⟩

example : lines [stop 0, stop 0, stop 1] 2 = ["0..1: 2 recursive instantiations from here: `A`",
      "1..2: instantiated from here: `A`"] ∧
    lines [stop 0, stop 0, stop 1] 1 = ["0..1: instantiated from here: `A`",
      "... (2 instantiations, -v to show) ..."] := by
  decide

end Templates.Trace
