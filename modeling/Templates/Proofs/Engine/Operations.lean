import Templates.Engine.Answer

/-!
# What the operations of the engine do

The operations of the engine are taken apart here, once each, by the cases that their definitions tell
apart. What an operation does to an engine or leaves alone there is read off from its cases. An answer
that needs no new instance is one of `Engine.Finds`.
-/

namespace Templates.Engine

variable {e e' : Engine} {names : SymbolId → String} {q : Request} {c : Chain} {p : Plan}
  {i t : InstanceId} {d : DeclId}

/-! ## Declarations -/

/-- A declaration that is turned down is reported. Another one comes last. -/
theorem declare_cases (e : Engine) (d : Decl) :
    (∃ reason, d.finalize? = .error reason ∧
      e.declare d = (.error (.invalidParameterList d.name reason d.span),
        { e with queue := (e.queue.add
          ((TemplateError.invalidParameterList d.name reason d.span).toDiagnostic [])).2 })) ∨
      ∃ d', d.finalize? = .ok d' ∧
        e.declare d = (.ok ⟨e.decls.size⟩, { e with decls := e.decls.push { d' with } }) := by
  unfold declare
  cases d.finalize? with
  | error reason => exact .inl ⟨reason, rfl, rfl⟩
  | ok d' => exact .inr ⟨d', rfl, rfl⟩

theorem declare_frame (e : Engine) (d : Decl) : ∃ decls queue,
    (e.declare d).2 = { e with decls := decls, queue := queue } := by
  obtain ⟨_, -, h⟩ | ⟨_, -, h⟩ := e.declare_cases d <;> rw [h] <;> exact ⟨_, _, rfl⟩

theorem declare_error {d : Decl} {err : TemplateError} (h : e.declare d = (.error err, e')) :
    e' = { e with queue := e'.queue } := by
  obtain ⟨_, -, hd⟩ | ⟨_, -, hd⟩ := e.declare_cases d <;> cases hd.symm.trans h
  rfl

theorem decls_of_declare_error {d : Decl} {err : TemplateError}
    (h : e.declare d = (.error err, e')) : e'.decls = e.decls := by
  rw [declare_error h]

/-- The last declaration of the set of `existing`. -/
def lastOf (e : Engine) (existing : DeclId) : DeclId :=
  ((e.overloads (e.rootOf existing)).getLast?).getD (e.rootOf existing)

/-- An overload is declared, and linked if it is let in. -/
theorem overloadInsert_cases (e : Engine) (existing : DeclId) (d : Decl) :
    (∃ err e₁, e.declare d = (.error err, e₁) ∧ e.overloadInsert existing d = (.error err, e₁)) ∨
      ∃ id e₁, e.declare d = (.ok id, e₁) ∧ e.overloadInsert existing d =
        (.ok id, (e₁.modifyDecl id fun x => { x with root := some (e.rootOf existing) }).modifyDecl
          (e.lastOf existing) fun x => { x with next := some id }) := by
  unfold overloadInsert
  dsimp only
  rcases e.declare d with ⟨err | id, e₁⟩
  · exact .inl ⟨err, e₁, rfl, rfl⟩
  · exact .inr ⟨id, e₁, rfl, rfl⟩

theorem overloadInsert_frame (e : Engine) (existing : DeclId) (d : Decl) : ∃ decls,
    e.overloadInsert existing d = ((e.declare d).1, { (e.declare d).2 with decls := decls }) := by
  obtain ⟨_, _, hd, h⟩ | ⟨_, _, hd, h⟩ := e.overloadInsert_cases existing d <;> rw [h, hd] <;>
    exact ⟨_, rfl⟩

theorem overloadInsert_error {existing : DeclId} {d : Decl} {err : TemplateError}
    (h : e.overloadInsert existing d = (.error err, e')) : e' = { e with queue := e'.queue } := by
  obtain ⟨_, _, hd, ho⟩ | ⟨_, _, -, ho⟩ := e.overloadInsert_cases existing d <;>
    cases ho.symm.trans h
  exact declare_error hd

theorem decls_of_overloadInsert_error {existing : DeclId} {d : Decl} {err : TemplateError}
    (h : e.overloadInsert existing d = (.error err, e')) : e'.decls = e.decls := by
  rw [overloadInsert_error h]

/-! ## Modules and code -/

theorem addRoot_cases (e : Engine) (m : ModuleId) :
    m ∈ e.roots ∧ e.addRoot m = e ∨ e.addRoot m = { e with roots := m :: e.roots } := by
  unfold addRoot
  split
  · next h => exact .inl ⟨List.contains_iff_mem.mp h, rfl⟩
  · exact .inr rfl

theorem claimCodegen_cases (e : Engine) (i : InstanceId) (m : ModuleId) :
    e.claimCodegen i m = (false, e) ∨
      e.claimCodegen i m = (true, e.modifyInst i fun x => { x with claimed := true }) := by
  unfold claimCodegen
  split
  · exact .inr rfl
  · exact .inl rfl

theorem claimCodegen_frame (e : Engine) (i : InstanceId) (m : ModuleId) : ∃ insts,
    (e.claimCodegen i m).2 = { e with insts := insts } := by
  obtain h | h := e.claimCodegen_cases i m <;> rw [h] <;> exact ⟨_, rfl⟩

/-! ## Waiting and use -/

/-- Who does not wait yet begins to. -/
theorem defer_cases (e : Engine) (i t : InstanceId) : e.defer i t = e ∨
    e.defer i t = (e.modifyInst t fun x => { x with deferred := x.deferred ++ [i] }).modifyInst i
      fun x => { x with waitingOn := x.waitingOn + 1 } := by
  unfold defer
  split
  · exact .inl rfl
  · split
    · exact .inl rfl
    · exact .inr rfl

theorem defer_frame (e : Engine) (i t : InstanceId) : ∃ insts,
    e.defer i t = { e with insts := insts } := by
  obtain h | h := e.defer_cases i t <;> rw [h] <;> exact ⟨_, rfl⟩

/-- Inside a gag a use leaves nothing. -/
theorem touch_cases (e : Engine) (i : InstanceId) (q : Request) :
    e.isGagged = true ∧ e.touch i q = e ∨
      e.isGagged = false ∧ e.touch i q = e.modifyInst i fun x =>
        { x with
          gagged := false
          firstModule :=
            if x.firstModule.isNone && e.isRoot q.module then some q.module
            else x.firstModule } := by
  unfold touch
  cases e.isGagged with
  | true => exact .inl ⟨rfl, rfl⟩
  | false => exact .inr ⟨rfl, rfl⟩

theorem touch_frame (e : Engine) (i : InstanceId) (q : Request) : ∃ insts,
    e.touch i q = { e with insts := insts } := by
  obtain ⟨-, h⟩ | ⟨-, h⟩ := e.touch_cases i q <;> rw [h] <;> exact ⟨_, rfl⟩

/-! ## Failures -/

/-- An instance that stands in the cache of its declaration leaves it, and is counted. -/
theorem evict_cases (e : Engine) (i : InstanceId) : e.evict i = e ∨
    ∃ x entry cache, e.inst? i = some x ∧ e.decl? x.decl = some entry ∧
      entry.cache.erase x.digest i = (true, cache) ∧
      e.evict i = { e.modifyDecl x.decl fun y => { y with cache := cache } with
        stats := { e.stats with evicted := e.stats.evicted + 1 } } := by
  unfold evict
  cases hx : e.inst? i with
  | none => exact .inl rfl
  | some x =>
    dsimp only
    cases hd : e.decl? x.decl with
    | none => exact .inl rfl
    | some entry =>
      dsimp only
      rcases hc : entry.cache.erase x.digest i with ⟨_ | _, cache⟩
      · exact .inl rfl
      · exact .inr ⟨x, entry, cache, rfl, hd, hc, rfl⟩

theorem evict_frame (e : Engine) (i : InstanceId) : ∃ decls stats,
    e.evict i = { e with decls := decls, stats := stats } := by
  obtain h | ⟨_, _, _, -, -, -, h⟩ := e.evict_cases i <;> rw [h] <;> exact ⟨_, _, rfl⟩

/-- The engine in which the instance is marked as failed. -/
def errored (e : Engine) (i : InstanceId) : Engine :=
  e.modifyInst i fun x => { x with state := .errored }

theorem inst?_errored {x : Instance} (hx : e.inst? i = some x) :
    (e.errored i).inst? i = some { x with state := .errored } := by
  rw [errored, inst?_modifyInst, if_pos rfl, hx, Option.map_some]

/-- The engine in which the instance has failed: it is marked, and has left its cache if only
speculative requests have asked for it. -/
def failed (e : Engine) (i : InstanceId) : Engine :=
  if ((e.inst? i).map (·.gagged)).getD false then (e.errored i).evict i else e.errored i

theorem failed_of_inst? {x : Instance} (hx : e.inst? i = some x) :
    e.failed i = if x.gagged then (e.errored i).evict i else e.errored i := by
  rw [failed, hx, Option.map_some, Option.getD_some]

theorem failed_cases (e : Engine) (i : InstanceId) :
    e.failed i = e.errored i ∨ e.failed i = (e.errored i).evict i := by
  unfold failed
  split
  · exact .inr rfl
  · exact .inl rfl

/-- A failure is reported once the cache has been left. -/
theorem fail_eq (e : Engine) (names : SymbolId → String) (i : InstanceId) (reason : String)
    (span : Span) (c : Chain) :
    let err : TemplateError :=
      .memberElaborationFailed i ((e.failed i).display names i) (some reason) span
    e.fail names i reason span c = (err, (e.failed i).report names err c) := by
  have hgagged : ((e.errored i).inst? i).map (·.gagged) = (e.inst? i).map (·.gagged) := by
    rw [errored, inst?_modifyInst, if_pos rfl, Option.map_map]
    rfl
  unfold fail failed
  rw [← hgagged]
  rfl

/-! ## Answers without a new instance -/

/-- One hit more in a cache. -/
def countHit (e : Engine) : Engine :=
  { e with stats := { e.stats with cacheHits := e.stats.cacheHits + 1 } }

/-- The error of a request whose chain is too deep. It shows the arguments as they were written. -/
def tooDeep (e : Engine) (names : SymbolId → String) (q : Request) : TemplateError :=
  .nestingDepthExceeded (({ names := names } : Printer).request (e.decl q.decl).name q.args)
    e.config.recursionLimit q.span

/-- How a planned request is answered without a new instance, and the engine afterwards. -/
inductive Finds (e : Engine) (names : SymbolId → String) (q : Request) (c : Chain) (p : Plan) :
    Except TemplateError InstanceId → Engine → Prop
  /-- With its members the instance would contain itself. -/
  | recursive {f : Frame} {c' : Chain} :
    c.findAttempt? p.decl p.deduction.args p.enclosing = some (f, c') → q.need = .members →
    Finds e names q c p (.error (.recursiveExpansion (e.display names f.inst) q.span))
      (e.report names (.recursiveExpansion (e.display names f.inst) q.span) c)
  /-- Nobody else is being elaborated that could wait for the instance. -/
  | reference {f : Frame} {c' : Chain} :
    c.findAttempt? p.decl p.deduction.args p.enclosing = some (f, c') → q.need = .reference →
    (∀ i ∈ c.innermost?, i = f.inst) → Finds e names q c p (.ok f.inst) e
  | defer {f : Frame} {c' : Chain} {i : InstanceId} :
    c.findAttempt? p.decl p.deduction.args p.enclosing = some (f, c') → q.need = .reference →
    c.innermost? = some i → i ≠ f.inst → Finds e names q c p (.ok f.inst) (e.defer i f.inst)
  /-- The instance failed before, and was reported then. -/
  | failed {i : InstanceId} :
    c.findAttempt? p.decl p.deduction.args p.enclosing = none →
    e.lookup p.decl p.deduction.args p.enclosing = some i →
    (e.inst? i).map Instance.state = some .errored →
    Finds e names q c p (.error (.memberElaborationFailed i (e.display names i) none q.span))
      e.countHit
  /-- The instance is being elaborated, though not on the chain. -/
  | busy {i : InstanceId} :
    c.findAttempt? p.decl p.deduction.args p.enclosing = none →
    e.lookup p.decl p.deduction.args p.enclosing = some i →
    (e.inst? i).map Instance.state = some .elaborating → q.need = .members →
    Finds e names q c p (.error (.recursiveExpansion (e.display names i) q.span))
      (e.countHit.report names (.recursiveExpansion (e.display names i) q.span) c)
  | cached {i : InstanceId} :
    c.findAttempt? p.decl p.deduction.args p.enclosing = none →
    e.lookup p.decl p.deduction.args p.enclosing = some i →
    (e.inst? i).map Instance.state ≠ some .errored →
    (q.need = .members → (e.inst? i).map Instance.state ≠ some .elaborating) →
    Finds e names q c p (.ok i) (e.countHit.touch i q)
  | tooDeep : c.findAttempt? p.decl p.deduction.args p.enclosing = none →
    e.lookup p.decl p.deduction.args p.enclosing = none →
    e.config.recursionLimit ≤ c.depth →
    Finds e names q c p (.error (e.tooDeep names q)) (e.report names (e.tooDeep names q) c)

variable {a : Except TemplateError InstanceId}

/-- A request for the instance of a frame. -/
theorem finds_of_findAttempt? {f : Frame} {c' : Chain}
    (hf : c.findAttempt? p.decl p.deduction.args p.enclosing = some (f, c')) :
    e.Finds names q c p (e.answerFromChain names q c f.inst).1
      (e.answerFromChain names q c f.inst).2 := by
  unfold answerFromChain
  cases hq : q.need with
  | members => exact .recursive hf hq
  | reference =>
    cases hi : c.innermost? with
    | none => exact .reference hf hq (by simp [hi])
    | some i =>
      dsimp only
      split
      · next h => exact .reference hf hq (by simpa [hi] using h)
      · next h => exact .defer hf hq hi h

/-- A request for a cached instance. -/
theorem finds_of_lookup (hf : c.findAttempt? p.decl p.deduction.args p.enclosing = none)
    (hl : e.lookup p.decl p.deduction.args p.enclosing = some i) :
    e.Finds names q c p (e.answerFromCache names q c i).1 (e.answerFromCache names q c i).2 := by
  unfold answerFromCache
  dsimp only
  split
  · next hs => exact .failed hf hl hs
  · next hs hq => exact .busy hf hl hs hq
  · next hfailed hbusy => exact .cached hf hl hfailed fun hq hs => hbusy hs hq

theorem finds_of_answer? (h : e.answer? names q c p = some (a, e')) :
    e.Finds names q c p a e' := by
  unfold answer? at h
  split at h
  · next hf =>
    have hfinds : e.Finds names q c p _ _ := finds_of_findAttempt? hf
    rwa [Option.some.inj h] at hfinds
  · next hf =>
    split at h
    · next hl =>
      have hfinds : e.Finds names q c p _ _ := finds_of_lookup hf hl
      rwa [Option.some.inj h] at hfinds
    · next hl =>
      split at h
      · next hd =>
        cases h
        exact .tooDeep hf hl hd
      · cases h

/-- A new instance is needed if neither the chain nor the cache has one, and the chain is not too
deep. -/
theorem answer?_eq_none_iff : e.answer? names q c p = none ↔
    c.findAttempt? p.decl p.deduction.args p.enclosing = none ∧
      e.lookup p.decl p.deduction.args p.enclosing = none ∧ c.depth < e.config.recursionLimit := by
  unfold answer?
  cases c.findAttempt? p.decl p.deduction.args p.enclosing with
  | some f => simp
  | none =>
    cases e.lookup p.decl p.deduction.args p.enclosing with
    | some i => simp
    | none => simp

theorem answerFromCache_eq : e.answerFromCache names q c i =
    match (e.inst? i).map Instance.state, q.need with
    | some .errored, _ =>
      (.error (.memberElaborationFailed i (e.display names i) none q.span), e.countHit)
    | some .elaborating, .members =>
      e.countHit.reject names (.recursiveExpansion (e.display names i) q.span) c
    | _, _ => (.ok i, e.countHit.touch i q) := rfl

/-- A request is answered in one way. -/
theorem Finds.answer?_eq (h : e.Finds names q c p a e') : e.answer? names q c p = some (a, e') := by
  unfold answer?
  cases h with
  | recursive hf hq => simp only [hf, answerFromChain, hq, reject]
  | reference hf hq hi =>
    simp only [hf, answerFromChain, hq]
    cases hc : c.innermost? with
    | none => rfl
    | some i => exact congrArg (fun e => some (_, e)) (if_pos (hi i hc))
  | defer hf hq hi hne => simp only [hf, answerFromChain, hq, hi, if_neg hne]
  | failed hf hl hs => simp only [hf, hl, answerFromCache_eq, hs]
  | busy hf hl hs hq => simp only [hf, hl, answerFromCache_eq, hs, hq, reject]
  | cached hf hl hs hq =>
    simp only [hf, hl, answerFromCache_eq]
    split
    · next h => exact absurd h hs
    · next h hn => exact absurd h (hq hn)
    · rfl
  | tooDeep hf hl hd =>
    simp only [hf, hl, if_pos hd]
    rfl

end Templates.Engine
