import Templates.Proofs.Queueing.History

/-!
# What a queue holds

Whatever was done with a queue, its fields account for the diagnostics that were kept since it was
last emptied, and what it does with the next call follows from these (`DiagnosticQueue.accounts`).
-/

namespace Templates.DiagnosticQueue

variable {cfg : QueueConfig} {q : DiagnosticQueue} {d : Diagnostic} {ds : List Diagnostic}
  {h : List Event}

/-- The state of a queue after a history, and what it does next. -/
structure Accounts (cfg : QueueConfig) (h : List Event) (q : DiagnosticQueue) : Prop
    extends q.Records (kept h) where
  config : q.config = cfg
  /-- Whether errors are there can be read off the queue. The notice is an error too. -/
  hasErrors_iff : q.hasErrors.isSome ↔ ∃ d ∈ q.queued, d.isError = true
  /-- Outside gags warnings and notes are kept, whatever the limit is. -/
  keeps : ∀ d : Diagnostic, d.isError = false → ((q.add d).1 = true ↔ q.isGagged = false)
  /-- Outside gags an error is kept below the limit if it differs from the last one. -/
  keepsError : ∀ d : Diagnostic, d.isError = true → ((q.add d).1 = true ↔ q.isGagged = false ∧
    (0 < cfg.errorLimit → (errors (kept h)).length < cfg.errorLimit) ∧
    (cfg.deduplicate = true → ∀ last ∈ (errors (kept h)).getLast?, ¬last.Resembles d))
  /-- No error is kept once the limit is reached. -/
  full : 0 < cfg.errorLimit → (errors (kept h)).length = cfg.errorLimit →
    ∀ d : Diagnostic, d.isError = true → (q.add d).1 = false
  gaggedCount_le : ∀ e q', q.Step e q' → q.gaggedCount ≤ q'.gaggedCount
  /-- The errors gagged before a region was opened are among all gagged errors. -/
  before_le : ∀ m, .gagOpened m ∈ h → m.before ≤ q.gaggedCount

namespace Records

/-- The last error counts as the same as `d` if it resembles `d`. -/
theorem lastError_eq_iff (H : q.Records ds) :
    q.lastError = some d.key ↔ ∃ last ∈ (errors ds).getLast?, last.Resembles d := by
  simp [H.lastError, Diagnostic.key_eq_key_iff]

theorem keepsError (H : q.Records ds) (hd : d.isError = true) :
    (q.add d).1 = true ↔ q.isGagged = false ∧
      (0 < q.config.errorLimit → (errors ds).length < q.config.errorLimit) ∧
      (q.config.deduplicate = true → ∀ last ∈ (errors ds).getLast?, ¬last.Resembles d) := by
  rw [(q.adds d).kept_iff, limitReached_eq_false_iff, H.errorCount, ne_eq, H.lastError_eq_iff]
  simp [hd]

theorem errorCount_pos_iff (H : q.Records ds) :
    0 < q.errorCount ↔ ∃ d ∈ ds, d.isError = true := by
  rw [H.errorCount, List.length_pos_iff_exists_mem]
  simp [errors]

/-- Where the notice is, errors were kept. -/
theorem pos_of_reported (H : q.Records ds) (hr : q.limitReported = true) : 0 < q.errorCount := by
  have := limitReached_iff.mp (H.limitReached hr)
  omega

theorem exists_isError_iff (H : q.Records ds) :
    (∃ d ∈ q.queued, d.isError = true) ↔ 0 < q.errorCount := by
  rw [H.errorCount_pos_iff]
  cases hr : q.limitReported with
  | false => simp [← H.unreported hr]
  | true =>
    obtain ⟨before, after, span, -, hq, -⟩ := H.reported hr
    refine iff_of_true ?_ (H.errorCount_pos_iff.mp (H.pos_of_reported hr))
    refine ⟨overLimit q.config.errorLimit span, ?_, rfl⟩
    simp [← Array.mem_toList_iff, hq]

end Records

/-- **What a queue holds.** After every history the queue holds the diagnostics that were kept since
it was last emptied, with one notice among them if an error came after the limit. Its count is the
number of errors among them and stays within the limit. -/
theorem accounts (H : History cfg h q) : Accounts cfg h q where
  toRecords := H.records
  config := H.config_eq
  hasErrors_iff := hasErrors_isSome_iff.trans H.records.exists_isError_iff.symm
  keeps d hd := by simp [(q.adds d).kept_iff, hd]
  keepsError d hd := H.config_eq ▸ H.records.keepsError hd
  full hp hfull d hd := by
    rw [← Bool.not_eq_true, H.records.keepsError hd, H.config_eq]
    rintro ⟨-, hlt, -⟩
    exact absurd hfull (hlt hp).ne
  gaggedCount_le _ _ hs := hs.gaggedCount_le
  before_le _ hm := H.before_le hm

/-! ## A history that reaches its limit -/

/-- Two errors at most. -/
def narrow : QueueConfig := { errorLimit := 2 }

def fault (n : Nat) : Diagnostic := { code := .noOverload, labels := [⟨⟨n, n⟩, "", true⟩] }

def remark : Diagnostic := { code := .noOverload, severity := .note }

/-- The first error is repeated, a mark is used twice, the second error reaches the limit, and after the
third a note is added. -/
theorem accounts_narrow : ∃ h q, History narrow h q ∧ q.limitReported = true ∧
    kept h = [fault 1, fault 2, remark] ∧
    q.queued.toList = [fault 1, fault 2, overLimit 2 ⟨3, 3⟩, remark] ∧ q.gaggedCount = 1 ∧
    Accounts narrow h q := by
  have Hopen := ((((@History.made narrow).add (fault 1)).add (fault 1)).openGag).add (fault 2)
  have Hclosed := (Hopen.closeGag (.tail _ (.head _))).closeGag (.tail _ (.tail _ (.head _)))
  have H := ((Hclosed.add (fault 2)).add (fault 3)).add remark
  exact ⟨_, _, H, rfl, rfl, rfl, rfl, accounts H⟩

end Templates.DiagnosticQueue
