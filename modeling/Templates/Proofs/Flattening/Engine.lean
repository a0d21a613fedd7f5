import Templates.Proofs.Flattening.Leaves
import Templates.Proofs.Repeating.Steadfast

/-!
# Engines that differ in how arguments were written

An engine keeps the arguments of an instance as they were written, to show them. Nothing that it does
depends on the sequences among them: every operation does to `Engine.flat` what it does to the engine.
-/

namespace Templates

variable {σ : Type}

/-- The instance with the sequences of its written arguments spliced. -/
def Instance.flat (x : Instance) : Instance := { x with supplied := SiteArg.flatten x.supplied }

@[simp] theorem Instance.flat_flat (x : Instance) : x.flat.flat = x.flat := by
  simp [flat]

theorem Instance.addImport_flat (x : Instance) (m : ModuleId) :
    x.flat.addImport m = (x.addImport m).flat := by
  unfold addImport
  change (if m ∈ x.imports then _ else _) = _
  split <;> rfl

namespace Engine

/-- The engine with the sequences of all written arguments spliced. -/
def flat (e : Engine) : Engine := { e with insts := e.insts.map Instance.flat }

variable (e : Engine) {i j : InstanceId} {d : DeclId} {f : Instance → Instance}
  {names : SymbolId → String} {q : Request} {c : Chain} {p : Plan}

@[simp] theorem flat_flat : e.flat.flat = e.flat := by
  have h : Instance.flat ∘ Instance.flat = Instance.flat := funext Instance.flat_flat
  simp [flat, h]

@[simp] theorem decls_flat : e.flat.decls = e.decls := rfl

theorem inst?_flat : e.flat.inst? i = (e.inst? i).map Instance.flat := Array.getElem?_map ..

/-- What is read off an instance is the same if it is not its written arguments. -/
theorem map_inst?_flat {β : Type} {k : Instance → β} (h : ∀ x, k x.flat = k x) :
    (e.flat.inst? i).map k = (e.inst? i).map k := by
  rw [inst?_flat, Option.map_map]
  exact congrArg (Option.map · _) (funext h)

theorem bind_inst?_flat {β : Type} {k : Instance → Option β} (h : ∀ x, k x.flat = k x) :
    (e.flat.inst? i).bind k = (e.inst? i).bind k := by
  rw [inst?_flat, Option.bind_map]
  exact congrArg (Option.bind _ ·) (funext h)

theorem modifyInst_flat (h : ∀ x, f x.flat = (f x).flat) :
    e.flat.modifyInst i f = (e.modifyInst i f).flat := by
  have hinsts : (e.insts.map Instance.flat).modify i.index f =
      (e.insts.modify i.index f).map Instance.flat := by
    refine Array.ext_getElem? fun k => ?_
    rw [Array.getElem?_modify, Array.getElem?_map, Array.getElem?_map, Array.getElem?_modify]
    split
    · cases e.insts[k]? with
      | none => rfl
      | some x => exact congrArg some (h x)
    · rfl
  rw [modifyInst, flat, hinsts]
  rfl

/-! ## What is read -/

theorem display_flat : e.flat.display names i = e.display names i := by
  unfold display
  rw [inst?_flat]
  cases e.inst? i <;> rfl

theorem enclosersFrom_flat (n : Nat) (i : InstanceId) :
    e.flat.enclosersFrom n i = e.enclosersFrom n i := by
  induction n generalizing i with
  | zero => rfl
  | succ n ih =>
    rw [enclosersFrom, enclosersFrom, bind_inst?_flat e (fun _ => rfl)]
    simp only [ih]

theorem enclosers_flat : e.flat.enclosers i = e.enclosers i := by
  rw [enclosers, enclosers, enclosersFrom_flat]
  simp [flat]

theorem codegenOwner_flat : e.flat.codegenOwner i = e.codegenOwner i := by
  rw [codegenOwner, codegenOwner, enclosers_flat]
  congr 1
  exact funext fun j => bind_inst?_flat e fun _ => rfl

theorem isComplete_flat : e.flat.isComplete i = e.isComplete i := by
  rw [isComplete, isComplete, map_inst?_flat e fun _ => rfl]

theorem needsCodegen_flat : e.flat.needsCodegen i = e.needsCodegen i := by
  rw [needsCodegen, needsCodegen, isComplete_flat, codegenOwner_flat]

theorem chainTrace_flat : e.flat.chainTrace names c = e.chainTrace names c := by
  have hresolved (i : InstanceId) :
      (e.flat.inst? i).map (·.resolved) = (e.inst? i).map (·.resolved) :=
    map_inst?_flat e fun _ => rfl
  unfold chainTrace
  simp only [hresolved]
  rfl

theorem lookup_flat {args : List Arg} {enclosing : Option ScopeId} :
    e.flat.lookup d args enclosing = e.lookup d args enclosing := by
  have hkey (i : InstanceId) : (e.flat.inst? i).map (·.hasKey args enclosing) =
      (e.inst? i).map (·.hasKey args enclosing) := map_inst?_flat e fun _ => rfl
  unfold lookup
  simp only [hkey]
  rfl

theorem eponym?_flat {members : MemberTable} : e.flat.eponym? i members = e.eponym? i members := by
  unfold eponym?
  rw [inst?_flat]
  cases e.inst? i <;> rfl

theorem overloads_flat : e.flat.overloads d = e.overloads d :=
  overloads_congr e.decls_flat d

/-- Plans have nothing to do with what is written. -/
theorem plan_flat (sem : Semantics σ) (q : Request) (resolved : List Arg) :
    e.flat.plan sem q resolved = e.plan sem q resolved := by
  have hset : e.SameSet e.flat q.decl := ⟨e.overloads_flat, fun _ _ => rfl⟩
  funext s
  rw [plan_run, plan_run, hset.select]
  rfl

theorem plan_flat_request (sem : Semantics σ) (q : Request) (resolved : List Arg) :
    e.plan sem q.flat resolved = e.plan sem q resolved := rfl

/-! ## What is done -/

theorem report_flat {err : TemplateError} :
    e.flat.report names err c = (e.report names err c).flat := by
  rw [report, chainTrace_flat]
  rfl

theorem release_flat : e.flat.release i = ((e.release i).1, (e.release i).2.flat) := by
  unfold release
  dsimp only
  rw [modifyInst_flat, map_inst?_flat]
  all_goals exact fun _ => rfl

theorem takeDeferred_flat :
    e.flat.takeDeferred i = ((e.takeDeferred i).1, (e.takeDeferred i).2.flat) := by
  unfold takeDeferred
  rw [modifyInst_flat, map_inst?_flat]
  all_goals exact fun _ => rfl

theorem complete_flat {members : MemberTable} :
    e.flat.complete i members = (e.complete i members).flat := by
  unfold complete
  rw [eponym?_flat]
  exact modifyInst_flat e fun _ => rfl

theorem evict_flat : e.flat.evict i = (e.evict i).flat := by
  unfold evict
  rw [inst?_flat]
  cases e.inst? i with
  | none => rfl
  | some x =>
    dsimp only [Option.map_some]
    have hdecl : e.flat.decl? x.flat.decl = e.decl? x.decl := rfl
    rw [hdecl]
    cases e.decl? x.decl with
    | none => rfl
    | some entry =>
      have hdigest : x.flat.digest = x.digest := rfl
      dsimp only
      rw [hdigest]
      rcases entry.cache.erase x.digest i with ⟨_ | _, cache⟩ <;> rfl

theorem fail_flat {reason : String} {span : Span} : e.flat.fail names i reason span c =
    ((e.fail names i reason span c).1, (e.fail names i reason span c).2.flat) := by
  unfold fail
  dsimp only
  rw [modifyInst_flat, map_inst?_flat, evict_flat, ← apply_ite flat, display_flat, report_flat]
  all_goals exact fun _ => rfl

theorem settle_flat {result : Except Failure Unit} :
    e.flat.settle names i result = (e.settle names i result).flat := by
  cases result with
  | ok => exact modifyInst_flat e fun _ => rfl
  | error f =>
    unfold settle
    dsimp only
    rw [map_inst?_flat e fun _ => rfl, fail_flat]

@[simp] theorem size_insts_flat : e.flat.insts.size = e.insts.size := Array.size_map ..

theorem create_flat_fst : (e.flat.create q c p).1 = (e.create q c p).1 :=
  congrArg InstanceId.mk e.size_insts_flat

theorem map_insts_flat : e.flat.insts.map Instance.flat = e.insts.map Instance.flat :=
  congrArg insts e.flat_flat

/-- The engine with a new instance is the same but for what was written before. -/
theorem flat_create_flat : (e.flat.create q c p).2.flat = (e.create q c p).2.flat := by
  unfold create
  rw [size_insts_flat]
  unfold flat
  congr 1
  change (e.flat.insts.push _).map Instance.flat = (e.insts.push _).map Instance.flat
  rw [Array.map_push, Array.map_push, map_insts_flat]
  rfl

/-- The new instance is the same but for its written arguments. -/
theorem flat_create_request : (e.create q.flat c p).2.flat = (e.create q c p).2.flat := by
  unfold create flat
  congr 1
  change (e.insts.push _).map Instance.flat = (e.insts.push _).map Instance.flat
  rw [Array.map_push, Array.map_push]
  congr 1
  simp [Instance.flat, Request.flat]

theorem defer_flat : e.flat.defer i j = (e.defer i j).flat := by
  unfold defer
  rw [inst?_flat]
  cases e.inst? j with
  | none => rfl
  | some x =>
    dsimp only [Option.map_some]
    change (if x.deferred.contains i then _ else _) = _
    split
    · rfl
    · rw [modifyInst_flat, modifyInst_flat]
      all_goals exact fun _ => rfl

theorem touch_flat : e.flat.touch i q = (e.touch i q).flat := by
  unfold touch
  change (if e.isGagged then _ else _) = _
  split
  · rfl
  · exact modifyInst_flat e fun _ => rfl

theorem answerFromChain_flat : e.flat.answerFromChain names q c i =
    ((e.answerFromChain names q c i).1, (e.answerFromChain names q c i).2.flat) := by
  unfold answerFromChain
  cases q.need with
  | members =>
    dsimp only
    rw [reject, display_flat, report_flat]
    rfl
  | reference =>
    dsimp only
    cases c.innermost? with
    | none => rfl
    | some requester =>
      dsimp only
      rw [defer_flat, ← apply_ite flat]

theorem answerFromCache_flat : e.flat.answerFromCache names q c i =
    ((e.answerFromCache names q c i).1, (e.answerFromCache names q c i).2.flat) := by
  have hcount : e.flat.countHit = e.countHit.flat := rfl
  rw [answerFromCache_eq, answerFromCache_eq, map_inst?_flat e fun _ => rfl, display_flat, hcount,
    touch_flat, reject, report_flat]
  split <;> rfl

theorem answer?_flat : e.flat.answer? names q c p =
    (e.answer? names q c p).map fun (a, e) => (a, e.flat) := by
  unfold answer?
  rw [lookup_flat]
  cases c.findAttempt? p.decl p.deduction.args p.enclosing with
  | some f => exact congrArg some (answerFromChain_flat e)
  | none =>
    dsimp only
    cases e.lookup p.decl p.deduction.args p.enclosing with
    | some i => exact congrArg some (answerFromCache_flat e)
    | none =>
      dsimp only
      change (if e.config.recursionLimit ≤ c.depth then _ else _) = _
      split
      · rw [reject, report_flat]
        rfl
      · rfl

theorem addRoot_flat {m : ModuleId} : e.flat.addRoot m = (e.addRoot m).flat := by
  unfold addRoot
  change (if e.isRoot m then _ else _) = _
  split <;> rfl

theorem declare_flat {d : Decl} :
    e.flat.declare d = ((e.declare d).1, (e.declare d).2.flat) := by
  unfold declare
  cases d.finalize? <;> rfl

theorem claimCodegen_flat {m : ModuleId} :
    e.flat.claimCodegen i m = ((e.claimCodegen i m).1, (e.claimCodegen i m).2.flat) := by
  unfold claimCodegen
  rw [needsCodegen_flat, codegenOwner_flat, map_inst?_flat e fun _ => rfl]
  split
  · exact congrArg (true, ·) (modifyInst_flat e fun _ => rfl)
  · rfl

theorem overloadInsert_flat {d' : Decl} : e.flat.overloadInsert d d' =
    ((e.overloadInsert d d').1, (e.overloadInsert d d').2.flat) := by
  have hroot : e.flat.rootOf d = e.rootOf d := rfl
  unfold overloadInsert
  dsimp only
  rw [hroot, overloads_flat, declare_flat]
  rcases e.declare d' with ⟨err | id, e'⟩ <;> rfl

end Engine

namespace Command

variable (e : Engine)

theorem danglingIn_flat (c : Command) : c.danglingIn e.flat = c.danglingIn e := by
  cases c with
  | claim | recordImport =>
    unfold danglingIn
    dsimp only
    rw [e.size_insts_flat]
  | _ => rfl

theorem run_flat (c : Command) : c.run e.flat = ((c.run e).1, (c.run e).2.flat) := by
  cases c with
  | declare => exact e.declare_flat
  | overload => exact e.overloadInsert_flat
  | addRoot => exact congrArg ((), ·) e.addRoot_flat
  | claim => exact e.claimCodegen_flat
  | recordImport => exact congrArg ((), ·) (e.modifyInst_flat fun x => x.addImport_flat _)
  | addDiagnostic | pushGag | popGag | flush => rfl

end Command

namespace Engine

variable {e : Engine} {names : SymbolId → String} {q : Request} {c : Chain} {p : Plan}

/-- The plan needs a new instance, and the chain is too deep for one. -/
structure TooDeep (e : Engine) (c : Chain) (p : Plan) : Prop where
  attempt : c.findAttempt? p.decl p.deduction.args p.enclosing = none
  lookup : e.lookup p.decl p.deduction.args p.enclosing = none
  depth : e.config.recursionLimit ≤ c.depth

theorem TooDeep.answer?_eq (h : e.TooDeep c p) :
    e.answer? names q c p = some (e.reject names (e.tooDeep names q) c) :=
  (Finds.tooDeep h.attempt h.lookup h.depth).answer?_eq

/-- Otherwise the answer does not show the arguments. -/
theorem answer?_flat_request (h : ¬e.TooDeep c p) :
    e.answer? names q.flat c p = e.answer? names q c p := by
  unfold answer?
  cases hc : c.findAttempt? p.decl p.deduction.args p.enclosing with
  | some f => rfl
  | none =>
    cases hl : e.lookup p.decl p.deduction.args p.enclosing with
    | some i => rfl
    | none =>
      have hdepth : ¬e.config.recursionLimit ≤ c.depth := fun hd => h ⟨hc, hl, hd⟩
      dsimp only
      rw [if_neg hdepth, if_neg hdepth]

end Engine

/-! ## Texts of reports -/

/-- The diagnostic without its message. -/
def Diagnostic.wordless (d : Diagnostic) : Diagnostic := { d with message := "" }

namespace DiagnosticQueue

variable {queue : DiagnosticQueue} {d d' : Diagnostic}

/-- The queue without messages. -/
def wordless (queue : DiagnosticQueue) : DiagnosticQueue :=
  { queue with
    queued := queue.queued.map Diagnostic.wordless
    lastError := queue.lastError.map fun key => { key with beginning := "" } }

/-- An error is dropped inside a gag, over the limit, and as a repetition. -/
theorem add_fst (hd : d.isError = true) : (queue.add d).1 =
    !(queue.isGagged || queue.limitReached ||
      queue.config.deduplicate && decide (queue.lastError = some d.key)) := by
  rw [Bool.eq_iff_iff, (queue.adds d).kept_iff]
  cases queue.config.deduplicate <;> simp [hd, and_assoc]

/-- Messages matter only to what counts as a repetition. -/
theorem wordless_add (hd : d.isError = true) (h : d'.wordless = d.wordless)
    (hkept : (queue.add d').1 = (queue.add d).1) :
    (queue.add d').2.wordless = (queue.add d).2.wordless := by
  have hd' : d'.wordless.isError = d.wordless.isError := congrArg _ h
  change d'.isError = d.isError at hd'
  rw [hd] at hd'
  have hspan : d'.wordless.primarySpan? = d.wordless.primarySpan? := congrArg _ h
  change d'.primarySpan? = d.primarySpan? at hspan
  rw [add_fst hd, add_fst hd'] at hkept
  unfold add
  rw [hd, hd', hspan]
  cases hgag : queue.isGagged with
  | true => rfl
  | false =>
    cases hlimit : queue.limitReached with
    | true => rfl
    | false =>
      rw [hgag, hlimit] at hkept
      have hrep : (queue.config.deduplicate && decide (queue.lastError = some d'.key)) =
          (queue.config.deduplicate && decide (queue.lastError = some d.key)) :=
        Bool.not_inj hkept
      rw [hrep]
      cases queue.config.deduplicate && decide (queue.lastError = some d.key) with
      | true => rfl
      | false =>
        have hkey : (⟨d'.key.span, ""⟩ : ErrorKey) = ⟨d.key.span, ""⟩ :=
          congrArg (ErrorKey.mk · "") hspan
        simp [wordless, h, hkey]

end DiagnosticQueue

namespace Engine

/-- The report of the error is kept. -/
def keepsReport (e : Engine) (names : SymbolId → String) (err : TemplateError) (c : Chain) : Bool :=
  (e.queue.add (err.toDiagnostic (e.chainTrace names c))).1

/-- The engine without the messages of its reports. -/
def wordless (e : Engine) : Engine := { e with queue := e.queue.wordless }

variable {e : Engine} {names : SymbolId → String} {q : Request} {c : Chain}

theorem wordless_nestingDepthExceeded (text text' : String) (limit : Nat) (span : Span)
    (trace : List String) :
    ((TemplateError.nestingDepthExceeded text limit span).toDiagnostic trace).wordless =
      ((TemplateError.nestingDepthExceeded text' limit span).toDiagnostic trace).wordless := rfl

/-- The reports that the chain is too deep differ in their message. -/
theorem wordless_tooDeep (trace : List String) :
    ((e.tooDeep names q.flat).toDiagnostic trace).wordless =
      ((e.tooDeep names q).toDiagnostic trace).wordless :=
  wordless_nestingDepthExceeded ..

theorem wordless_report_tooDeep (h : e.keepsReport names (e.tooDeep names q.flat) c =
      e.keepsReport names (e.tooDeep names q) c) :
    (e.report names (e.tooDeep names q.flat) c).wordless =
      (e.report names (e.tooDeep names q) c).wordless := by
  unfold wordless report
  dsimp only
  rw [DiagnosticQueue.wordless_add (TemplateError.isError_toDiagnostic ..) (wordless_tooDeep _) h]

/-- Both are kept or none is, unless one may be dropped as a repetition. -/
theorem keepsReport_tooDeep (h : e.queue.config.deduplicate = false ∨ e.queue.isGagged = true ∨
      e.queue.limitReached = true) : e.keepsReport names (e.tooDeep names q.flat) c =
    e.keepsReport names (e.tooDeep names q) c := by
  unfold keepsReport
  rw [DiagnosticQueue.add_fst (TemplateError.isError_toDiagnostic ..),
    DiagnosticQueue.add_fst (TemplateError.isError_toDiagnostic ..)]
  obtain h | h | h := h <;> rw [h] <;> simp only [Bool.false_and, Bool.true_or, Bool.or_true]

end Engine

end Templates
