import Templates.Proofs.Gagging.Depth
import Templates.Proofs.Gagging.Reports

/-!
# Errors that are counted

The queue counts the errors that it keeps, and only `flush` forgets them. So an error that is sent to
it outside every gag leaves a positive count, whether the queue keeps this one or drops it
(`DiagnosticQueue.Counted.pos_of_add`), and the count stays so (`Service.Steps.remembers`).
-/

namespace Templates

namespace DiagnosticQueue

variable {q : DiagnosticQueue} {d : Diagnostic}

/-- A last error is known only if errors are counted. -/
def Counted (q : DiagnosticQueue) : Prop := q.lastError.isSome → 0 < q.errorCount

theorem errorCount_le_add (q : DiagnosticQueue) (d : Diagnostic) :
    q.errorCount ≤ (q.add d).2.errorCount := by
  rcases h : q.add d with ⟨b, q'⟩
  cases adds_of_eq h with
  | kept => exact Nat.le_succ _
  | _ => exact Nat.le_refl _

namespace Counted

theorem add (H : q.Counted) (d : Diagnostic) : (q.add d).2.Counted := by
  rcases h : q.add d with ⟨b, q'⟩
  cases adds_of_eq h with
  | kept => exact fun _ => Nat.succ_pos _
  | _ => exact H

/-- An error over the limit or equal to the last one is not the first. -/
theorem pos_of_add (H : q.Counted) (hd : d.isError = true) (hg : q.isGagged = false) :
    0 < (q.add d).2.errorCount := by
  have hfull (hl : q.limitReached = true) : 0 < q.errorCount := by
    obtain ⟨hpos, hle⟩ := limitReached_iff.mp hl
    exact Nat.lt_of_lt_of_le hpos hle
  rcases h : q.add d with ⟨b, q'⟩
  cases adds_of_eq h with
  | counted hgag | muted hgag => simp [hg] at hgag
  | remarked _ hn => simp [hd] at hn
  | exceeded _ _ hl | dropped _ _ hl => exact hfull hl
  | repeated _ _ _ _ hlast => exact H (Option.isSome_of_eq_some hlast)
  | kept => exact Nat.succ_pos _

end Counted

end DiagnosticQueue

namespace Engine

variable {e e' e'' : Engine} {P : ErrorCode → Prop}

/-- No error was forgotten. -/
structure Remembers (e e' : Engine) : Prop where
  errors : e.queue.errorCount ≤ e'.queue.errorCount
  counted : e.queue.Counted → e'.queue.Counted

namespace Remembers

theorem of_eq (he : e'.queue.errorCount = e.queue.errorCount)
    (hl : e'.queue.lastError = e.queue.lastError) : e.Remembers e' where
  errors := he.ge
  counted H := by
    unfold DiagnosticQueue.Counted at *
    rwa [he, hl]

@[trans] theorem trans (h : e.Remembers e') (h' : e'.Remembers e'') : e.Remembers e'' where
  errors := h.errors.trans h'.errors
  counted H := h'.counted (h.counted H)

theorem of_add {d : Diagnostic} (h : e'.queue = (e.queue.add d).2) : e.Remembers e' where
  errors := h ▸ e.queue.errorCount_le_add d
  counted H := h ▸ H.add d

theorem of_reports (h : e.Reports P e') : e.Remembers e' := by
  cases h with
  | nothing h => exact .of_eq (by rw [h]) (by rw [h])
  | error _ h => exact .of_add h

/-- A count that is positive stays so. -/
theorem pos (h : e.Remembers e') (he : 0 < e.queue.errorCount) : 0 < e'.queue.errorCount :=
  he.trans_le h.errors

end Remembers

theorem fail_remembers {names : SymbolId → String} {c : Chain} (e : Engine) (i : InstanceId)
    (reason : String) (span : Span) : e.Remembers (e.fail names i reason span c).2 :=
  .of_add (queue_fail ..)

theorem settle_remembers {names : SymbolId → String} (e : Engine) (i : InstanceId)
    (result : Except Failure Unit) : e.Remembers (e.settle names i result) := by
  cases result with
  | ok => exact .of_eq rfl rfl
  | error f => exact e.fail_remembers ..

/-- An error that is reported outside every gag is counted, or others are. -/
theorem pos_of_reject {names : SymbolId → String} {err : TemplateError} {c : Chain}
    (H : e.queue.Counted) (hg : e.isGagged = false) :
    0 < (e.reject names err c).2.queue.errorCount := H.pos_of_add rfl hg

end Engine

theorem Command.run_remembers {e : Engine} (c : Command) (hc : c ≠ .flush) :
    e.Remembers (c.run e).2 := by
  cases c with
  | declare d => exact .of_reports (Engine.declare_reports d)
  | overload d d' =>
    exact .of_reports ((Engine.declare_reports d').trans_nothing (Engine.overloadInsert_eq ..).2.2)
  | addRoot m =>
    have h : (e.addRoot m).queue = e.queue := (Engine.addRoot_eq m).2
    exact .of_eq (congrArg _ h) (congrArg _ h)
  | claim i m =>
    have h : (e.claimCodegen i m).2.queue = e.queue := Engine.claimCodegen_queue i m
    exact .of_eq (congrArg _ h) (congrArg _ h)
  | addDiagnostic d => exact .of_add rfl
  | recordImport | pushGag | popGag => exact .of_eq rfl rfl
  | flush => exact absurd rfl hc

namespace Service

variable {σ α : Type} {svc : Service σ} {r : Run σ} {ws : List (Waiting σ α)} {c : Control σ α}
  {m : Machine σ α} {call : Call} {e : Engine} {s : σ}

theorem closeGag_remembers (e : Engine) (mark : Option GagMark) :
    e.Remembers (closeGag e mark) := by
  cases mark <;> exact .of_eq rfl rfl

theorem giveAnswer_remembers (h : r.engine.Remembers e) {a : Except TemplateError InstanceId} :
    r.engine.Remembers (giveAnswer ⟨e, s⟩ call a ws).engine := by
  cases ws with
  | nil => exact h
  | cons w ws => exact h.trans (closeGag_remembers e call.mark)

/-- Only a flush forgets errors. -/
theorem Steps.remembers (h : svc.Steps r ws c m)
    (hf : ∀ role k, c ≠ .program role (.command .flush k)) : r.engine.Remembers m.engine := by
  cases h with
  | unresolved | refuse => exact giveAnswer_remembers (.of_add rfl)
  | answer _ ha => exact giveAnswer_remembers (.of_reports (Engine.answer?_reports ha))
  | undeclared => cases ws <;> exact .of_eq rfl rfl
  | finish => exact giveAnswer_remembers (.of_eq rfl rfl)
  | fail h =>
    obtain rfl := congrArg Prod.snd h
    exact (r.engine.fail_remembers ..).trans (.of_eq rfl rfl)
  | settle h =>
    subst h
    exact (r.engine.settle_remembers ..).trans (.of_eq rfl rfl)
  | @command role c k => exact c.run_remembers fun h => hf role (h ▸ k) (by subst h; rfl)
  | @request _ _ q =>
    rw [openCall_eq]
    obtain ⟨-, h⟩ | ⟨-, h⟩ := r.engine.opened_cases q <;> rw [h] <;> exact .of_eq rfl rfl
  | create | openScope | release | wake | suspend | complete | resolve | elaborate | resume | done
  | halt | read | service | dangling | unasked => exact .of_eq rfl rfl

end Service

end Templates
