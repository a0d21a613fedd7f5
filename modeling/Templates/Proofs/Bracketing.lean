import Templates.Proofs.Queueing

/-!
# Gags that are closed in turn

A gagged region is all that happens between the opening of a gag and its closing. If the gags that are
opened in a region are closed in it, each with its own mark (`DiagnosticQueue.Nested`), the closing
tells how many errors were added in the region, and nothing but their count stays behind
(`DiagnosticQueue.region_swallows`).
-/

namespace Templates.DiagnosticQueue

variable {q q₁ q' : DiagnosticQueue} {es fs body : List Event} {m : GagMark} {n : Nat}

/-! ## Calls one after the other -/

/-- The calls lead from one queue to the other, the first call first. -/
inductive Run : DiagnosticQueue → List Event → DiagnosticQueue → Prop
  | done {q : DiagnosticQueue} : Run q [] q
  | call {q q₁ q' : DiagnosticQueue} {e : Event} {es : List Event} :
    q.Step e q₁ → Run q₁ es q' → Run q (e :: es) q'

theorem run_nil_iff : Run q [] q' ↔ q' = q := by
  constructor
  · intro h
    cases h
    rfl
  · rintro rfl
    exact .done

theorem run_cons_iff {e : Event} : Run q (e :: es) q' ↔ ∃ q₁, q.Step e q₁ ∧ Run q₁ es q' := by
  constructor
  · intro h
    cases h with
    | call hs h => exact ⟨_, hs, h⟩
  · rintro ⟨q₁, hs, h⟩
    exact .call hs h

theorem run_append_iff : Run q (es ++ fs) q' ↔ ∃ q₁, Run q es q₁ ∧ Run q₁ fs q' := by
  induction es generalizing q with
  | nil => simp [run_nil_iff]
  | cons e es ih =>
    simp only [List.cons_append, run_cons_iff, ih]
    constructor
    · rintro ⟨q₁, hs, q₂, h, h'⟩
      exact ⟨q₂, ⟨q₁, hs, h⟩, h'⟩
    · rintro ⟨q₂, ⟨q₁, hs, h⟩, h'⟩
      exact ⟨q₁, hs, q₂, h, h'⟩

/-- Every gag that is opened is closed with its own mark, after those that were opened later. The queue
is not emptied. -/
inductive Nested : List Event → Prop
  | nil : Nested []
  | added {d : Diagnostic} {kept : Bool} {es : List Event} : Nested es → Nested (.added d kept :: es)
  | region {m : GagMark} {n : Nat} {body es : List Event} : Nested body → Nested es →
    Nested (.gagOpened m :: (body ++ .gagClosed m n :: es))

/-- The diagnostics that were added, kept or not. -/
def added : List Event → List Diagnostic
  | [] => []
  | .added d _ :: es => d :: added es
  | .gagOpened _ :: es | .gagClosed _ _ :: es | .flushed _ :: es => added es

theorem added_append (es fs : List Event) : added (es ++ fs) = added es ++ added fs := by
  induction es with
  | nil => rfl
  | cons e es ih => cases e <;> simp [added, ih]

/-- The number of errors that were added. -/
def errorsAdded (es : List Event) : Nat := (errors (added es)).length

theorem errorsAdded_cons (d : Diagnostic) (kept : Bool) (es : List Event) :
    errorsAdded (.added d kept :: es) = (if d.isError then 1 else 0) + errorsAdded es := by
  simp only [errorsAdded, added, errors, List.filter_cons]
  split <;> simp [Nat.add_comm]

theorem errorsAdded_region (m : GagMark) (n : Nat) (body es : List Event) :
    errorsAdded (.gagOpened m :: (body ++ .gagClosed m n :: es)) =
      errorsAdded body + errorsAdded es := by
  simp [errorsAdded, added, added_append, errors]

/-! ## What gagged calls leave behind -/

/-- The queue with `n` more gagged errors. -/
def swallow (q : DiagnosticQueue) (n : Nat) : DiagnosticQueue :=
  { q with gaggedCount := q.gaggedCount + n }

@[simp] theorem swallow_swallow (q : DiagnosticQueue) (n k : Nat) :
    (q.swallow n).swallow k = q.swallow (n + k) := by
  simp [swallow, Nat.add_assoc]

@[simp] theorem isGagged_swallow (q : DiagnosticQueue) (n : Nat) :
    (q.swallow n).isGagged = q.isGagged := rfl

theorem isGagged_pushGag (q : DiagnosticQueue) : q.pushGag.2.isGagged = true := by
  simp [pushGag, isGagged]

/-- A gagged diagnostic is counted if it is an error. -/
theorem add_of_isGagged (hg : q.isGagged = true) (d : Diagnostic) :
    (q.add d).2 = q.swallow (if d.isError then 1 else 0) := by
  cases hd : d.isError <;> simp [add, swallow, hg, hd]

/-- A gag is closed after `n` errors. -/
theorem popGag_swallow (q : DiagnosticQueue) (n : Nat) :
    (q.pushGag.2.swallow n).popGag q.pushGag.1 = (n, q.swallow n) := by
  simp [pushGag, popGag, swallow]

theorem step_gagOpened_iff : q.Step (.gagOpened m) q' ↔ m = q.pushGag.1 ∧ q' = q.pushGag.2 := by
  constructor
  · intro h
    cases h
    exact ⟨rfl, rfl⟩
  · rintro ⟨rfl, rfl⟩
    exact .openGag

theorem step_gagClosed_iff : q.Step (.gagClosed m n) q' ↔ q.popGag m = (n, q') := by
  constructor
  · intro h
    cases h
    rfl
  · intro h
    have hs := Step.closeGag (q := q) m
    rwa [h] at hs

/-- A region in which `k` errors are swallowed, as its end sees it. -/
theorem run_region {k : Nat}
    (hbody : ∀ {q₂}, Run q.pushGag.2 body q₂ → q₂ = q.pushGag.2.swallow k)
    (H : Run q (.gagOpened m :: (body ++ .gagClosed m n :: es)) q') :
    n = k ∧ Run q (.gagOpened m :: (body ++ [.gagClosed m n])) (q.swallow k) ∧
      Run (q.swallow k) es q' := by
  obtain ⟨q₁, hopen, H⟩ := run_cons_iff.mp H
  obtain ⟨rfl, rfl⟩ := step_gagOpened_iff.mp hopen
  obtain ⟨q₂, hrun, H⟩ := run_append_iff.mp H
  obtain ⟨q₃, hclose, H⟩ := run_cons_iff.mp H
  obtain rfl := hbody hrun
  have hpop := step_gagClosed_iff.mp hclose
  rw [popGag_swallow] at hpop
  obtain ⟨rfl, rfl⟩ := Prod.mk.inj hpop
  exact ⟨rfl, .call hopen (run_append_iff.mpr ⟨_, hrun, .call hclose .done⟩), H⟩

/-- While a gag is open, calls whose own gags are closed in turn only count errors. -/
theorem run_of_isGagged (hes : Nested es) (hg : q.isGagged = true) (H : Run q es q') :
    q' = q.swallow (errorsAdded es) := by
  induction hes generalizing q q' with
  | nil => exact run_nil_iff.mp H
  | @added d kept es _ ih =>
    obtain ⟨q₁, hadd, H⟩ := run_cons_iff.mp H
    cases hadd with
    | add d =>
      rw [add_of_isGagged hg] at H
      rw [ih ((isGagged_swallow q _).trans hg) H, swallow_swallow, errorsAdded_cons]
  | @region m n body es _ _ ihbody ihes =>
    obtain ⟨rfl, -, H⟩ := run_region (fun h => ihbody q.isGagged_pushGag h) H
    rw [ihes ((isGagged_swallow q _).trans hg) H, swallow_swallow, errorsAdded_region]

/-- **Gagged regions nest.** Whatever comes before a region and after it, its closing tells how many
errors were added in it, in the regions inside too. The queue is then what it was before the region,
with so many more gagged errors. -/
theorem region_swallows {before after : List Event} (hbody : Nested body)
    (H : Run q (before ++ .gagOpened m :: (body ++ .gagClosed m n :: after)) q') :
    n = errorsAdded body ∧ ∃ q₁, Run q before q₁ ∧
      Run q₁ (.gagOpened m :: (body ++ [.gagClosed m n])) (q₁.swallow n) ∧
      Run (q₁.swallow n) after q' := by
  obtain ⟨q₁, hbefore, H⟩ := run_append_iff.mp H
  obtain ⟨rfl, hregion, hafter⟩ := run_region (run_of_isGagged hbody q₁.isGagged_pushGag) H
  exact ⟨rfl, q₁, hbefore, hregion, hafter⟩

/-! ## A region in a region -/

/-- A queue below its limit of two errors, with four gagged errors. -/
def probe : DiagnosticQueue where
  config := narrow
  queued := #[fault 1]
  errorCount := 1
  gaggedCount := 4
  lastError := some (fault 1).key

/-- The body of a region with another one in it. Of the diagnostics three are errors. -/
def probing : List Event :=
  .added (fault 1) false :: .gagOpened ⟨5⟩ ::
    ([.added (fault 2) false, .added remark false] ++ .gagClosed ⟨5⟩ 1 ::
      [.added (fault 3) false])

/-- An error is kept before the region and reaches the limit, another one comes after it. -/
theorem region_swallows_probe : Nested probing ∧ ∃ q', Run probe ([.added (fault 2) true] ++
    .gagOpened ⟨4⟩ :: (probing ++ .gagClosed ⟨4⟩ 3 :: [.added (fault 3) false])) q' ∧
    q'.gaggedCount = 7 ∧ q'.limitReported = true ∧ 3 = errorsAdded probing := by
  have hnested : Nested probing := .added (.region (.added (.added .nil)) (.added .nil))
  have H : Run probe ([.added (fault 2) true] ++
      .gagOpened ⟨4⟩ :: (probing ++ .gagClosed ⟨4⟩ 3 :: [.added (fault 3) false])) _ :=
    .call (.add _) <| .call .openGag <| .call (.add _) <| .call .openGag <| .call (.add _) <|
      .call (.add _) <| .call (.closeGag _) <| .call (.add _) <| .call (.closeGag _) <|
      .call (.add _) .done
  exact ⟨hnested, _, H, rfl, rfl, (region_swallows hnested H).1⟩

end Templates.DiagnosticQueue
