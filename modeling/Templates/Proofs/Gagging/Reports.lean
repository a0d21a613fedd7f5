import Templates.Proofs.Engine.Plans
import Templates.Proofs.Gagging.Marks

/-!
# What is reported

Every operation of the engine sends at most one error to the queue (`Engine.Reports`). The report that
an instance failed is sent by `Engine.fail` alone, and says how the instance was asked for
(`Engine.failure`).
-/

namespace Templates

namespace DiagnosticQueue

variable {q : DiagnosticQueue} {d : Diagnostic}

/-- Outside every gag the queue keeps the error: it is not over the limit, nor the same as the last
one. -/
def Takes (q : DiagnosticQueue) (d : Diagnostic) : Prop :=
  q.limitReached = false ∧ ¬(q.config.deduplicate = true ∧ q.lastError = some d.key)

theorem queued_add (q : DiagnosticQueue) (d : Diagnostic) :
    (q.add d).2.queued = q.queued ∨ (q.add d).2.queued = q.queued.push d ∨
      ∃ span, (q.add d).2.queued = q.queued.push (overLimit q.config.errorLimit span) := by
  rcases h : q.add d with ⟨b, q'⟩
  cases adds_of_eq h with
  | counted | muted | dropped | repeated => exact .inl rfl
  | remarked | kept => exact .inr (.inl rfl)
  | exceeded => exact .inr (.inr ⟨_, rfl⟩)

theorem ne_push_self {α : Type} (xs : Array α) (x : α) : xs ≠ xs.push x := fun h => by
  have := congrArg Array.size h
  simp at this

theorem overLimit_ne {limit : Nat} {span : Span} (hc : d.code ≠ .tooManyErrors) :
    overLimit limit span ≠ d := fun h => hc (by rw [← h]; rfl)

/-- When an error gets into the queue itself. -/
theorem queued_add_eq_push_iff (he : d.isError = true) (hc : d.code ≠ .tooManyErrors) :
    (q.add d).2.queued = q.queued.push d ↔ q.isGagged = false ∧ q.Takes d := by
  rcases h : q.add d with ⟨b, q'⟩
  have hself : q.queued ≠ q.queued.push d := ne_push_self _ _
  unfold Takes
  cases adds_of_eq h with
  | counted hg | muted hg => simp [hself, hg]
  | remarked _ hn => simp [he] at hn
  | exceeded _ _ hl =>
    have hnotice : overLimit q.config.errorLimit (d.primarySpan?.getD .generated) ≠ d :=
      overLimit_ne hc
    simp [hl, hnotice, Array.push_inj_right]
  | dropped _ _ hl => simp [hself, hl]
  | repeated _ _ _ hk hlast => simp [hself, hk, hlast]
  | kept hg _ hl hk => simpa [hg, hl] using hk

end DiagnosticQueue

namespace Engine

variable {e e' e'' : Engine} {names : SymbolId → String} {r : Request} {c : Chain} {p : Plan}
  {P : ErrorCode → Prop}

/-- At most one error was sent to the queue, with a code that has the property. -/
inductive Reports (P : ErrorCode → Prop) (e e' : Engine) : Prop
  | nothing : e'.queue = e.queue → Reports P e e'
  | error {err : TemplateError} {trace : List String} : P err.code →
    e'.queue = (e.queue.add (err.toDiagnostic trace)).2 → Reports P e e'

namespace Reports

theorem trans_nothing (h : e.Reports P e') (hq : e''.queue = e'.queue) : e.Reports P e'' := by
  cases h with
  | nothing h => exact .nothing (hq.trans h)
  | error hc h => exact .error hc (hq.trans h)

theorem reject {err : TemplateError} (h : P err.code) : e.Reports P (e.reject names err c).2 :=
  .error h rfl

end Reports

/-! ## Errors of requests -/

variable {σ : Type} {sem : Semantics σ} {s s' : σ} {err : TemplateError}

theorem resolveRequest_code (h : sem.resolveRequest r s = (.error err, s')) :
    err.code = .unevaluated := by
  unfold Semantics.resolveRequest at h
  simp only [bind, StateT.bind] at h
  rcases hr : sem.resolveArgs r.scope r.args s with ⟨f | resolved, s₁⟩ <;> rw [hr] at h
  · cases h
    rfl
  · dsimp only at h
    split at h <;> cases h
    rfl

theorem selectionError_code (p : Printer) (d : DeclId) (args : List Arg) (span : Span)
    (why : SelectError) : (e.selectionError p d args span why).code.isSelection = true := by
  unfold selectionError
  cases why with
  | ambiguous => rfl
  | noMatch rejected =>
    dsimp only
    split
    · rfl
    · split
      · rfl
      · split <;> rfl

theorem scopeOf_code {resolved deduced : List Arg}
    (h : e.scopeOf sem s r resolved deduced = .error err) : err.code.isSelection = true := by
  unfold scopeOf at h
  split at h
  · cases h
  · split at h <;> cases h
    rfl

theorem plan_code {resolved : List Arg} (h : e.plan sem r resolved s = (.error err, s')) :
    err.code.isSelection = true ∨ err.code = .mixinOnly := by
  rw [plan_run] at h
  rcases hs : e.select sem r.decl resolved r.receiver r.module s with ⟨why | ⟨id, ded⟩, s₁⟩ <;>
    rw [hs] at h
  · cases h
    exact .inl (selectionError_code ..)
  · have h := congrArg Prod.fst h
    dsimp only at h
    split at h
    · cases h
      exact .inr rfl
    · refine .inl ?_
      cases hscope : e.scopeOf sem s₁ r resolved ded.args <;> rw [hscope] at h <;> cases h
      exact scopeOf_code hscope

theorem answer?_reports {a : Except TemplateError InstanceId}
    (h : e.answer? names r c p = some (a, e')) : e.Reports (·.isRecursion = true) e' := by
  cases finds_of_answer? h with
  | recursive | tooDeep => exact .reject rfl
  | busy => exact .error rfl rfl
  | reference | failed => exact .nothing rfl
  | @defer f _ i =>
    obtain ⟨_, he⟩ := e.defer_frame i f.inst
    exact .nothing (by rw [he])
  | @cached i =>
    obtain ⟨_, he⟩ := e.countHit.touch_frame i r
    exact .nothing (by rw [he]; rfl)

theorem declare_reports (d : Decl) : e.Reports (· = .parameterList) (e.declare d).2 := by
  obtain ⟨_, -, h⟩ | ⟨_, -, h⟩ := e.declare_cases d <;> rw [h]
  · exact .error rfl rfl
  · exact .nothing rfl

/-! ## Failures of instances -/

/-- The report that the instance failed. -/
def failure (e : Engine) (names : SymbolId → String) (i : InstanceId) (reason : String) (span : Span)
    (c : Chain) : Diagnostic :=
  (TemplateError.memberElaborationFailed i (e.display names i) (some reason) span).toDiagnostic
    (e.chainTrace names c)

/-- The text of a report has only to do with how instances were asked for. -/
theorem failure_congr (hi : ∀ i, (e'.inst? i).map (fun x => (x.name, x.resolved)) =
      (e.inst? i).map fun x => (x.name, x.resolved))
    (hd : ∀ d, e'.decl d = e.decl d) (hc : e'.config = e.config) (i : InstanceId) (reason : String)
    (span : Span) : e'.failure names i reason span c = e.failure names i reason span c := by
  have hresolved (i : InstanceId) :
      (e'.inst? i).map (·.resolved) = (e.inst? i).map (·.resolved) := by
    have := congrArg (Option.map Prod.snd) (hi i)
    simpa only [Option.map_map, Function.comp_def] using this
  have hdisplay : e'.display names i = e.display names i := by
    have h := hi i
    unfold display
    cases he : e.inst? i with
    | none =>
      rw [he] at h
      rw [Option.map_eq_none_iff.mp h]
    | some x =>
      rw [he] at h
      obtain ⟨x', he', hx⟩ := Option.map_eq_some_iff.mp h
      obtain ⟨hn, hr⟩ := Prod.mk.inj hx
      rw [he']
      dsimp only
      rw [hn, hr]
  unfold failure chainTrace
  simp only [hdisplay, hresolved, hd, hc]

theorem decl_congr (h : e'.decls = e.decls) (d : DeclId) : e'.decl d = e.decl d := by
  unfold decl decl?
  rw [h]

theorem decl_evict (e : Engine) (i : InstanceId) (d : DeclId) : (e.evict i).decl d = e.decl d := by
  obtain h | ⟨_, _, cache, -, -, -, h⟩ := e.evict_cases i <;> rw [h]
  exact (decl_congr rfl d).trans
    (decl_modifyDecl (fun x => { x with cache := cache }) (fun _ => rfl) d)

theorem failure_modifyInst {f : Instance → Instance}
    (hf : ∀ x, (f x).name = x.name ∧ (f x).resolved = x.resolved) (j i : InstanceId)
    (reason : String) (span : Span) :
    (e.modifyInst j f).failure names i reason span c = e.failure names i reason span c := by
  have hi (k : InstanceId) : ((e.modifyInst j f).inst? k).map (fun x => (x.name, x.resolved)) =
      (e.inst? k).map fun x => (x.name, x.resolved) := by
    rw [inst?_modifyInst]
    split
    · simp [Function.comp_def, hf]
    · rfl
  have hd : ∀ d, (e.modifyInst j f).decl d = e.decl d := decl_congr rfl
  exact failure_congr hi hd rfl ..

theorem failure_evict (j i : InstanceId) (reason : String) (span : Span) :
    (e.evict j).failure names i reason span c = e.failure names i reason span c := by
  have hi (k : InstanceId) : (e.evict j).inst? k = e.inst? k := by
    unfold inst?
    rw [insts_evict]
  exact failure_congr (fun k => congrArg _ (hi k)) (decl_evict e j) (evict_grows e j).config ..

/-- The report is about the engine as it was before the instance failed. -/
theorem queue_fail (i : InstanceId) (reason : String) (span : Span) :
    (e.fail names i reason span c).2.queue =
      (e.queue.add (e.failure names i reason span c)).2 := by
  have h : (e.errored i).failure names i reason span c = e.failure names i reason span c := by
    unfold errored
    refine failure_modifyInst ?_ ..
    exact fun _ => ⟨rfl, rfl⟩
  have hq : (e.errored i).queue = e.queue := rfl
  rw [fail_eq]
  change ((e.failed i).queue.add ((e.failed i).failure names i reason span c)).2 = _
  obtain hf | hf := e.failed_cases i <;> rw [hf]
  · rw [h, hq]
  · rw [failure_evict, evict_queue, h, hq]

end Engine

end Templates
