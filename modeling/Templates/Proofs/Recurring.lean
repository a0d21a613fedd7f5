import Templates.Proofs.Queueing

/-!
# Errors that recur

A queue that drops repeated errors drops an error that comes twice in a row. The limit is looked at
first: where the first of the two is the last that the limit admits, the second leaves the notice that
there are too many errors (`DiagnosticQueue.recurs_iff`), though there is only one
(`DiagnosticQueue.not_recursQuietly_single`).
-/

namespace Templates.DiagnosticQueue

variable {cfg : QueueConfig} {q : DiagnosticQueue} {d d' : Diagnostic} {h : List Event}

/-- An error that was kept can be added again and nothing happens. -/
def RecursQuietly (cfg : QueueConfig) : Prop :=
  ∀ ⦃h q d⦄, History cfg h q → q.isGagged = false → d.isError = true → (q.add d).1 = true →
    ((q.add d).2.add d).2 = (q.add d).2

/-- What becomes of an error that is the same as the last one. -/
theorem add_recurring (hg : q.isGagged = false) (hd : d.isError = true)
    (hc : q.config.deduplicate = true) (hlast : q.lastError = some d.key) :
    (q.add d).1 = false ∧
      ((q.add d).2 = q ↔ (q.limitReached = true → q.limitReported = true)) ∧
      ((q.add d).2.limitReported = true ↔ q.limitReached = true ∨ q.limitReported = true) := by
  rcases h : q.add d with ⟨b, q'⟩
  cases adds_of_eq h with
  | counted hgag | muted hgag => simp [hg] at hgag
  | remarked _ hn => simp [hd] at hn
  | exceeded _ _ hl hr =>
    refine ⟨rfl, iff_of_false (fun he => ?_) (by simp [hl, hr]), by simp [hl]⟩
    have : true = q.limitReported := congrArg limitReported he
    simp [hr] at this
  | dropped _ _ hl hr => simp [hl, hr]
  | repeated _ _ hl => simp [hl]
  | kept _ _ _ hk => exact absurd hlast (hk hc)

/-- The queue after an error was kept. -/
theorem add_kept (hd : d.isError = true) (hk : (q.add d).1 = true) :
    q.isGagged = false ∧ q.limitReached = false ∧ (q.add d).2 = { q with
      lastError := some d.key
      errorCount := q.errorCount + 1
      queued := q.queued.push d } := by
  rcases h : q.add d with ⟨b, q'⟩
  rw [h] at hk
  cases hk
  cases adds_of_eq h with
  | remarked _ hn => simp [hd] at hn
  | kept hg _ hl => exact ⟨hg, hl, rfl⟩

/-- **An error that comes twice.** The second one is dropped. It leaves the queue as it is exactly if
the first one does not reach the limit. If it does, the second one is reported as one too many. -/
theorem recurs_iff (H : History cfg h q) (hc : cfg.deduplicate = true) (hd : d.isError = true)
    (hk : (q.add d).1 = true) (hd' : d'.isError = true) (hr : d.Resembles d') :
    ((q.add d).2.add d').1 = false ∧
      (((q.add d).2.add d').2 = (q.add d).2 ↔ (errors (kept h)).length + 1 ≠ cfg.errorLimit) ∧
      (((q.add d).2.add d').2.limitReported = true ↔
        (errors (kept h)).length + 1 = cfg.errorLimit) := by
  obtain ⟨hg, hl, hq⟩ := add_kept hd hk
  have hlimit : (q.add d).2.limitReached = true ↔
      (errors (kept h)).length + 1 = cfg.errorLimit := by
    have hle := limitReached_eq_false_iff.mp hl
    rw [limitReached_iff, hq, ← H.records.errorCount, ← H.config_eq]
    change 0 < q.config.errorLimit ∧ q.config.errorLimit ≤ q.errorCount + 1 ↔ _
    omega
  have hgag : (q.add d).2.isGagged = false := by
    rw [hq]
    exact hg
  have hdedup : (q.add d).2.config.deduplicate = true := by rw [config_add, H.config_eq, hc]
  have hlast : (q.add d).2.lastError = some d'.key := by
    rw [hq, ← Diagnostic.key_eq_key_iff.mpr hr]
  have hkept : (q.add d).2.limitReported = false := by
    rw [hq]
    exact H.records.not_reported hl
  simpa [hkept, hlimit] using add_recurring hgag hd' hdedup hlast

/-- One error at most. -/
def single : QueueConfig := { errorLimit := 1 }

/-- An error comes twice and no other comes, and the queue says that there are too many. -/
theorem not_recursQuietly_single : single.deduplicate = true ∧ ¬RecursQuietly single := by
  refine ⟨rfl, fun hquiet => ?_⟩
  have hsame := hquiet .made rfl (d := fault 1) rfl rfl
  have : true = false := congrArg limitReported hsame
  cases this

/-- The second of two errors reaches the limit. Coming again, it leaves the notice. -/
theorem recurs_iff_narrow : narrow.deduplicate = true ∧
    ∃ h q, History narrow h q ∧ errors (kept h) = [fault 1] ∧ (q.add (fault 2)).1 = true ∧
      ((q.add (fault 2)).2.add (fault 2)).1 = false ∧
      ((q.add (fault 2)).2.add (fault 2)).2.limitReported = true := by
  have H := (@History.made narrow).add (fault 1)
  have herror : (fault 2).isError = true := rfl
  have hrecurs := recurs_iff H rfl herror rfl herror ⟨rfl, rfl⟩
  exact ⟨rfl, _, _, H, rfl, rfl, hrecurs.1, hrecurs.2.2.mpr rfl⟩

end Templates.DiagnosticQueue
