import Templates.Diagnostic.Queue
import Mathlib.Data.List.Chain

/-!
# Histories of a queue

A history lists the calls to a queue with what they answered. `DiagnosticQueue.Records` says how the
fields of a queue follow from the diagnostics that were kept since it was last emptied; each call
preserves it, and so it holds after every history (`DiagnosticQueue.History.records`).
-/

namespace Templates

/-- The errors have the same primary span and the same first 30 characters. -/
def Diagnostic.Resembles (d d' : Diagnostic) : Prop :=
  d.primarySpan? = d'.primarySpan? ∧ d.message.toList.take 30 = d'.message.toList.take 30

theorem Diagnostic.key_eq_key_iff {d d' : Diagnostic} : d.key = d'.key ↔ d.Resembles d' := by
  simp [key, Resembles, ErrorKey.width, String.ofList_inj]

namespace DiagnosticQueue

variable {cfg : QueueConfig} {q q' : DiagnosticQueue} {d : Diagnostic} {b : Bool}

/-! ## Calls -/

/-- A call to a queue with what it answers. -/
inductive Event
  | added (d : Diagnostic) (kept : Bool)
  | gagOpened (m : GagMark)
  | gagClosed (m : GagMark) (swallowed : Nat)
  | flushed (ds : List Diagnostic)

/-- One call. -/
inductive Step (q : DiagnosticQueue) : Event → DiagnosticQueue → Prop
  | add (d : Diagnostic) : Step q (.added d (q.add d).1) (q.add d).2
  | openGag : Step q (.gagOpened q.pushGag.1) q.pushGag.2
  | closeGag (m : GagMark) : Step q (.gagClosed m (q.popGag m).1) (q.popGag m).2
  | flush : Step q (.flushed q.flush.1) q.flush.2

/-- A gag is closed with a mark that was handed out, be it of another gag or used before. -/
def Event.Follows (h : List Event) : Event → Prop
  | .gagClosed m _ => .gagOpened m ∈ h
  | .added _ _ | .gagOpened _ | .flushed _ => True

/-- A queue with the calls to it since it was made, the last one first. -/
inductive History (cfg : QueueConfig) : List Event → DiagnosticQueue → Prop
  | made : History cfg [] { config := cfg }
  | call {h : List Event} {q q' : DiagnosticQueue} {e : Event} :
    History cfg h q → e.Follows h → q.Step e q' → History cfg (e :: h) q'

/-- The diagnostics that were kept since the queue was last emptied, oldest first. -/
def kept : List Event → List Diagnostic
  | [] => []
  | .flushed _ :: _ => []
  | .added d true :: h => kept h ++ [d]
  | _ :: h => kept h

/-- The errors among diagnostics. -/
def errors (ds : List Diagnostic) : List Diagnostic := ds.filter (·.isError)

theorem errors_concat_of_isError {ds : List Diagnostic} (hd : d.isError = true) :
    errors (ds ++ [d]) = errors ds ++ [d] := by simp [errors, hd]

theorem errors_concat_of_not_isError {ds : List Diagnostic} (hd : d.isError = false) :
    errors (ds ++ [d]) = errors ds := by simp [errors, hd]

/-! ## What the fields say -/

/-- What the fields of a queue say about the diagnostics that were kept. -/
structure Records (q : DiagnosticQueue) (ds : List Diagnostic) : Prop where
  /-- The queue holds what was kept, and nothing else. -/
  unreported : q.limitReported = false → q.queued.toList = ds
  /-- The queue holds one notice besides. No error was kept after it. -/
  reported : q.limitReported = true → ∃ before after span, ds = before ++ after ∧
    q.queued.toList = before ++ overLimit q.config.errorLimit span :: after ∧ errors after = []
  errorCount : q.errorCount = (errors ds).length
  lastError : q.lastError = (errors ds).getLast?.map (·.key)
  within : 0 < q.config.errorLimit → q.errorCount ≤ q.config.errorLimit
  limitReached : q.limitReported = true → q.limitReached = true
  /-- Neighbours among the errors are told apart. -/
  distinct : q.config.deduplicate = true →
    (errors ds).IsChain fun d d' => ¬d.Resembles d'

namespace Records

variable {ds : List Diagnostic}

theorem empty (cfg : QueueConfig) (gagged depth : Nat) :
    Records { config := cfg, gaggedCount := gagged, gagDepth := depth } [] where
  unreported _ := rfl
  reported := nofun
  errorCount := rfl
  lastError := rfl
  within _ := Nat.zero_le _
  limitReached := nofun
  distinct _ := .nil

/-- Gags do not matter. -/
theorem gags (H : q.Records ds) (gagged depth : Nat) :
    Records { q with gaggedCount := gagged, gagDepth := depth } ds where
  unreported := H.unreported
  reported := H.reported
  errorCount := H.errorCount
  lastError := H.lastError
  within := H.within
  limitReached := H.limitReached
  distinct := H.distinct

theorem remark (H : q.Records ds) (hd : d.isError = false) :
    Records { q with queued := q.queued.push d } (ds ++ [d]) where
  unreported hr := by simp [H.unreported hr]
  reported hr := by
    obtain ⟨before, after, span, hds, hq, ha⟩ := H.reported hr
    refine ⟨before, after ++ [d], span, ?_, ?_, ?_⟩
    · rw [hds, List.append_assoc]
    · simp [hq]
    · rw [errors_concat_of_not_isError hd, ha]
  errorCount := by rw [errors_concat_of_not_isError hd]; exact H.errorCount
  lastError := by rw [errors_concat_of_not_isError hd]; exact H.lastError
  within := H.within
  limitReached := H.limitReached
  distinct hc := by rw [errors_concat_of_not_isError hd]; exact H.distinct hc

theorem exceed (H : q.Records ds) (hl : q.limitReached = true) (hr : q.limitReported = false)
    (span : Span) : Records { q with
      limitReported := true
      queued := q.queued.push (overLimit q.config.errorLimit span) } ds where
  unreported := nofun
  reported _ := ⟨ds, [], span, by simp, by simp [H.unreported hr], rfl⟩
  errorCount := H.errorCount
  lastError := H.lastError
  within := H.within
  limitReached _ := hl
  distinct := H.distinct

/-- The notice comes only after the limit. -/
theorem not_reported (H : q.Records ds) (hl : q.limitReached = false) : q.limitReported = false := by
  rw [← Bool.not_eq_true]
  intro hr
  simpa [hl] using H.limitReached hr

theorem keep (H : q.Records ds) (hd : d.isError = true) (hl : q.limitReached = false)
    (hk : q.config.deduplicate = true → q.lastError ≠ some d.key) :
    Records { q with
      lastError := some d.key
      errorCount := q.errorCount + 1
      queued := q.queued.push d } (ds ++ [d]) := by
  have hr := H.not_reported hl
  constructor
  case unreported => simp [H.unreported hr]
  case reported => simp [hr]
  case errorCount => simp [errors_concat_of_isError hd, H.errorCount]
  case lastError => simp [errors_concat_of_isError hd]
  case within => exact limitReached_eq_false_iff.mp hl
  case limitReached => simp [hr]
  case distinct =>
    intro hc
    rw [errors_concat_of_isError hd, List.isChain_append]
    refine ⟨H.distinct hc, .singleton d, ?_⟩
    intro x hx y hy hres
    cases Option.mem_some_iff.mp hy
    refine hk hc ?_
    rw [H.lastError, hx, Option.map_some, Diagnostic.key_eq_key_iff.mpr hres]

theorem add (H : q.Records ds) (h : q.Adds d b q') :
    q'.Records (if b then ds ++ [d] else ds) := by
  cases h with
  | counted => exact H.gags _ _
  | muted | dropped | repeated => exact H
  | remarked _ hd => exact H.remark hd
  | exceeded _ _ hl hr => exact H.exceed hl hr _
  | kept _ hd hl hk => exact H.keep hd hl hk

end Records

/-! ## Along a history -/

theorem Step.config {e : Event} (h : q.Step e q') : q'.config = q.config := by
  cases h with
  | add d => exact config_add q d
  | openGag | closeGag | flush => rfl

/-- No gagged error is forgotten. -/
theorem Step.gaggedCount_le {e : Event} (h : q.Step e q') : q.gaggedCount ≤ q'.gaggedCount := by
  cases h with
  | add d => exact gaggedCount_le_add q d
  | openGag | closeGag | flush => exact Nat.le_refl _

theorem Step.records {h : List Event} {e : Event} (hs : q.Step e q') (H : q.Records (kept h)) :
    q'.Records (kept (e :: h)) := by
  cases hs with
  | add d =>
    have := H.add (q.adds d)
    cases hb : (q.add d).1 with
    | true => simpa [kept, hb] using this
    | false => simpa [kept, hb] using this
  | openGag | closeGag => exact H.gags _ _
  | flush => exact .empty ..

namespace History

variable {h : List Event}

theorem add (H : History cfg h q) (d : Diagnostic) :
    History cfg (.added d (q.add d).1 :: h) (q.add d).2 := .call H trivial (.add d)

theorem openGag (H : History cfg h q) : History cfg (.gagOpened q.pushGag.1 :: h) q.pushGag.2 :=
  .call H trivial .openGag

theorem closeGag (H : History cfg h q) {m : GagMark} (hm : .gagOpened m ∈ h) :
    History cfg (.gagClosed m (q.popGag m).1 :: h) (q.popGag m).2 := .call H hm (.closeGag m)

theorem config_eq (H : History cfg h q) : q.config = cfg := by
  induction H with
  | made => rfl
  | call _ _ hs ih => exact hs.config.trans ih

theorem records (H : History cfg h q) : q.Records (kept h) := by
  induction H with
  | made => exact .empty ..
  | call _ _ hs ih => exact hs.records ih

/-- A mark holds no more gagged errors than there are. -/
theorem before_le (H : History cfg h q) {m : GagMark} (hm : .gagOpened m ∈ h) :
    m.before ≤ q.gaggedCount := by
  induction H with
  | made => cases hm
  | call _ _ hs ih =>
    cases hm with
    | head =>
      cases hs
      exact Nat.le_refl _
    | tail _ hm => exact Nat.le_trans (ih hm) hs.gaggedCount_le

end History
end DiagnosticQueue
end Templates
