import Templates.Diagnostic.Basic

/-!
# The diagnostic queue

The queue keeps diagnostics in the order they are added. Inside a gagged region errors are only
counted. Outside, an error over the limit or equal in place and beginning to the last kept error is
dropped; the first error over the limit leaves one diagnostic that says so.
-/

namespace Templates

/-- A limit of `0` is none. -/
structure QueueConfig where
  errorLimit : Nat := 20
  deduplicate : Bool := true
  deriving DecidableEq, Inhabited, Repr

/-- Keeps every error. -/
def QueueConfig.unlimited : QueueConfig := { errorLimit := 0, deduplicate := false }

/-- The gagged errors counted when a region was opened. -/
structure GagMark where
  before : Nat
  deriving DecidableEq, Inhabited, Repr

/-- Says that a positive number of errors was kept. Only a count gives one. -/
structure ErrorProof where
  count : Nat
  count_pos : 0 < count

namespace ErrorProof

def ofCount? (n : Nat) : Option ErrorProof := if h : 0 < n then some ⟨n, h⟩ else none

def text (_ : ErrorProof) : String := "error(s) emitted"

theorem isSome_ofCount? (n : Nat) : (ofCount? n).isSome = decide (0 < n) := by
  unfold ofCount?
  split <;> simp_all

end ErrorProof

/-- What makes two errors count as the same: the primary span and the beginning of the message. -/
structure ErrorKey where
  span : Option Span
  beginning : String
  deriving DecidableEq, Inhabited, Repr

/-- The characters of a message that count for sameness. -/
def ErrorKey.width : Nat := 30

def Diagnostic.key (d : Diagnostic) : ErrorKey :=
  ⟨d.primarySpan?, String.ofList (d.message.toList.take ErrorKey.width)⟩

structure DiagnosticQueue where
  config : QueueConfig := {}
  /-- The queued diagnostics, oldest first. -/
  queued : Array Diagnostic := #[]
  /-- The errors kept since the queue was last emptied. -/
  errorCount : Nat := 0
  /-- The errors swallowed by gags since the queue was made. -/
  gaggedCount : Nat := 0
  gagDepth : Nat := 0
  lastError : Option ErrorKey := none
  limitReported : Bool := false
  deriving DecidableEq, Inhabited, Repr

namespace DiagnosticQueue

def isGagged (q : DiagnosticQueue) : Bool := 0 < q.gagDepth

def limitReached (q : DiagnosticQueue) : Bool :=
  0 < q.config.errorLimit && q.config.errorLimit ≤ q.errorCount

def hasErrors (q : DiagnosticQueue) : Option ErrorProof :=
  ErrorProof.ofCount? q.errorCount

/-- The diagnostic that stands for every error over the limit. -/
def overLimit (limit : Nat) (span : Span) : Diagnostic where
  code := .tooManyErrors
  message := "aborting due to " ++ toString limit ++ " previous errors"
  labels := [⟨span, "error limit reached here", true⟩]

/-- Adds a diagnostic and says whether it was kept. The gag is looked at first, then the limit, then
the last error. -/
def add (q : DiagnosticQueue) (d : Diagnostic) : Bool × DiagnosticQueue :=
  if q.isGagged then
    (false, if d.isError then { q with gaggedCount := q.gaggedCount + 1 } else q)
  else if !d.isError then
    (true, { q with queued := q.queued.push d })
  else if q.limitReached then
    if q.limitReported then (false, q)
    else
      (false, { q with
        limitReported := true
        queued := q.queued.push
          (overLimit q.config.errorLimit (d.primarySpan?.getD .generated)) })
  else if q.config.deduplicate && q.lastError = some d.key then (false, q)
  else
    (true, { q with
      lastError := some d.key
      errorCount := q.errorCount + 1
      queued := q.queued.push d })

/-- Opens a gagged region. -/
def pushGag (q : DiagnosticQueue) : GagMark × DiagnosticQueue :=
  (⟨q.gaggedCount⟩, { q with gagDepth := q.gagDepth + 1 })

/-- Closes a gagged region and says how many errors it swallowed. -/
def popGag (q : DiagnosticQueue) (m : GagMark) : Nat × DiagnosticQueue :=
  (q.gaggedCount - m.before, { q with gagDepth := q.gagDepth - 1 })

/-- Empties the queue. Gags stay open. -/
def flush (q : DiagnosticQueue) : List Diagnostic × DiagnosticQueue :=
  (q.queued.toList,
    { q with queued := #[], errorCount := 0, lastError := none, limitReported := false })

/-! ## What an operation does -/

/-- What `add` can do with a diagnostic, and whether it is kept then. -/
inductive Adds (q : DiagnosticQueue) (d : Diagnostic) : Bool → DiagnosticQueue → Prop
  | counted : q.isGagged = true → d.isError = true →
    Adds q d false { q with gaggedCount := q.gaggedCount + 1 }
  | muted : q.isGagged = true → d.isError = false → Adds q d false q
  | remarked : q.isGagged = false → d.isError = false →
    Adds q d true { q with queued := q.queued.push d }
  /-- The first error over the limit leaves the notice. -/
  | exceeded : q.isGagged = false → d.isError = true → q.limitReached = true →
    q.limitReported = false →
    Adds q d false { q with
      limitReported := true
      queued := q.queued.push
        (overLimit q.config.errorLimit (d.primarySpan?.getD .generated)) }
  | dropped : q.isGagged = false → d.isError = true → q.limitReached = true →
    q.limitReported = true → Adds q d false q
  | repeated : q.isGagged = false → d.isError = true → q.limitReached = false →
    q.config.deduplicate = true → q.lastError = some d.key → Adds q d false q
  | kept : q.isGagged = false → d.isError = true → q.limitReached = false →
    (q.config.deduplicate = true → q.lastError ≠ some d.key) →
    Adds q d true { q with
      lastError := some d.key
      errorCount := q.errorCount + 1
      queued := q.queued.push d }

theorem adds (q : DiagnosticQueue) (d : Diagnostic) : q.Adds d (q.add d).1 (q.add d).2 := by
  unfold add
  cases hg : q.isGagged with
  | true =>
    cases hd : d.isError with
    | true => exact .counted hg hd
    | false => exact .muted hg hd
  | false =>
    cases hd : d.isError with
    | false => exact .remarked hg hd
    | true =>
      cases hl : q.limitReached with
      | true =>
        cases hr : q.limitReported with
        | true => exact .dropped hg hd hl hr
        | false => exact .exceeded hg hd hl hr
      | false =>
        by_cases hk : q.config.deduplicate = true ∧ q.lastError = some d.key
        · simpa [hk] using Adds.repeated hg hd hl hk.1 hk.2
        · simpa [hk] using Adds.kept hg hd hl fun hc he => hk ⟨hc, he⟩

variable {q q' : DiagnosticQueue} {d : Diagnostic} {b : Bool}

theorem limitReached_iff :
    q.limitReached = true ↔ 0 < q.config.errorLimit ∧ q.config.errorLimit ≤ q.errorCount := by
  simp [limitReached]

theorem limitReached_eq_false_iff : q.limitReached = false ↔
    (0 < q.config.errorLimit → q.errorCount < q.config.errorLimit) := by
  rw [← Bool.not_eq_true, limitReached_iff, not_and, Nat.not_le]

theorem hasErrors_isSome_iff : q.hasErrors.isSome ↔ 0 < q.errorCount := by
  rw [hasErrors, ErrorProof.isSome_ofCount?, decide_eq_true_iff]

theorem adds_of_eq (h : q.add d = (b, q')) : q.Adds d b q' := by
  have := q.adds d
  rwa [h] at this

/-- When a diagnostic is kept. -/
theorem Adds.kept_iff (h : q.Adds d b q') : b = true ↔ q.isGagged = false ∧
    (d.isError = true → q.limitReached = false ∧
      (q.config.deduplicate = true → q.lastError ≠ some d.key)) := by
  cases h <;> simp_all

@[simp] theorem config_add (q : DiagnosticQueue) (d : Diagnostic) :
    (q.add d).2.config = q.config := by
  rcases h : q.add d with ⟨b, q'⟩
  cases adds_of_eq h <;> rfl

@[simp] theorem gagDepth_add (q : DiagnosticQueue) (d : Diagnostic) :
    (q.add d).2.gagDepth = q.gagDepth := by
  rcases h : q.add d with ⟨b, q'⟩
  cases adds_of_eq h <;> rfl

theorem gaggedCount_le_add (q : DiagnosticQueue) (d : Diagnostic) :
    q.gaggedCount ≤ (q.add d).2.gaggedCount := by
  rcases h : q.add d with ⟨b, q'⟩
  cases adds_of_eq h with
  | counted => exact Nat.le_succ _
  | _ => exact Nat.le_refl _

end DiagnosticQueue
end Templates
