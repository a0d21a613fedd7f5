import Templates.Proofs.Machine.Usage

/-!
# Requests that fail at once

A request fails at once if its arguments do not resolve, if no overload is chosen, if the instance
would contain itself, if the chain is too deep, or if the instance has failed before. Such a failure
is counted and as a rule reported, and nothing else of the engine changes
(`Service.failsAtOnce`), whatever the engine was like. A request that fails later has made an
instance.
-/

namespace Templates

variable {σ : Type}

/-- A result of two things in a row is one of the second after one of the first. -/
theorem RunM.exists_of_bind {β γ : Type} {x : RunM σ β} {f : β → RunM σ γ} {r r' : Run σ} {b : γ}
    (h : (x >>= f) r = .ok (b, r')) : ∃ a r₁, x r = .ok (a, r₁) ∧ f a r₁ = .ok (b, r') := by
  change Except.bind (x r) (fun p => f p.1 p.2) = _ at h
  cases hx : x r with
  | error h' =>
    rw [hx] at h
    cases h
  | ok p =>
    rw [hx] at h
    exact ⟨p.1, p.2, rfl, h⟩

namespace Engine

/-- `e'` has more requests and cache hits than `e` and another queue, and is the same otherwise. -/
def Spared (e : Engine) (requests hits : Nat) (e' : Engine) : Prop :=
  e' = { e with
    queue := e'.queue
    stats := { e.stats with
      requests := e.stats.requests + requests
      cacheHits := e.stats.cacheHits + hits } }

variable {e e' e'' : Engine} {names : SymbolId → String} {q : Request} {c : Chain} {p : Plan}
  {err : TemplateError} {i : InstanceId} {requests requests' hits hits' : Nat}

theorem Spared.of_queue {queue : DiagnosticQueue} : e.Spared 0 0 { e with queue := queue } := rfl

theorem Spared.trans (h : e.Spared requests hits e') (h' : e'.Spared requests' hits' e'') :
    e.Spared (requests + requests') (hits + hits') e'' := by
  unfold Spared at *
  rw [h']
  rw [h]
  simp only [Nat.add_assoc]

theorem countRequest_spared (e : Engine) : e.Spared 1 0 e.countRequest := rfl

theorem reject_spared (e : Engine) (names : SymbolId → String) (err : TemplateError) (c : Chain) :
    e.Spared 0 0 (e.reject names err c).2 := rfl

/-! ## Answers without a new instance -/

/-- What has failed before is not reported again, but it is found in the cache. -/
theorem answer?_spared (h : e.answer? names q c p = some (.error err, e')) :
    ∃ hits ≤ 1, e.Spared 0 hits e' := by
  cases finds_of_answer? h with
  | recursive | tooDeep => exact ⟨0, Nat.zero_le 1, reject_spared ..⟩
  | failed | busy => exact ⟨1, Nat.le_refl 1, rfl⟩

end Engine

namespace Service

variable {svc : Service σ} {n : Nat} {c : Chain} {q : Request} {p : Plan} {i : InstanceId}
  {call : Call} {a : Except TemplateError InstanceId} {err : TemplateError} {r r' : Run σ}

/-- No instance goes while the members of another one are elaborated. -/
theorem elaborateNew_grows
    (h : svc.elaborateNew (svc.instantiate n) n call.chain call.request p i r = .ok (a, r')) :
    r.engine.insts.size ≤ r'.engine.insts.size := by
  let m : Machine σ Unit := ⟨r, .stage (.openScope call p i), []⟩
  have hleads : svc.Leads n m _ (.ok (a, r')) := h ▸ leads_elaborateNew answers_instantiate
  obtain ⟨k, hk⟩ := hleads
  have hlater : m.engine.Later (svc.after k m).engine := later_after svc (Nat.zero_le k)
  rw [hk] at hlater
  exact hlater.insts_size_le

/-- A call that makes an instance has it also when it fails. -/
theorem carryOut_spared
    (h : svc.carryOut (svc.instantiate n) n call.chain call.request p r = .ok (.error err, r'))
    (hnew : r'.engine.insts.size = r.engine.insts.size) :
    ∃ hits ≤ 1, r.engine.Spared 0 hits r'.engine := by
  rw [carryOut_apply] at h
  cases ha : r.engine.answer? (svc.symbolName r.service) call.request call.chain p with
  | some answer =>
    obtain ⟨b, e⟩ := answer
    rw [ha] at h
    cases h
    exact Engine.answer?_spared ha
  | none =>
    rw [ha] at h
    have hgrows : (r.engine.create call.request call.chain p).2.insts.size ≤ r'.engine.insts.size :=
      elaborateNew_grows h
    rw [Engine.insts_create, hnew] at hgrows
    exact absurd hgrows (Nat.not_succ_le_self _)

theorem handle_spared
    (h : svc.handle (svc.instantiate n) n call.chain call.request r = .ok (.error err, r'))
    (hnew : r'.engine.insts.size = r.engine.insts.size) :
    ∃ hits ≤ 1, r.engine.Spared 1 hits r'.engine := by
  have hcount := r.engine.countRequest_spared
  rw [handle_apply] at h
  generalize svc.resolveRequest call.request r.service = result at h
  obtain ⟨_ | resolved, s⟩ := result
  · cases h
    exact ⟨0, Nat.zero_le 1, hcount.trans (Engine.reject_spared ..)⟩
  · dsimp only at h
    split at h
    · cases h
    · generalize r.engine.countRequest.plan svc.toSemantics call.request resolved s = result at h
      obtain ⟨_ | p, s'⟩ := result
      · cases h
        exact ⟨0, Nat.zero_le 1, hcount.trans (Engine.reject_spared ..)⟩
      · obtain ⟨hits, hle, hspared⟩ := carryOut_spared h hnew
        exact ⟨0 + hits, by omega, hcount.trans hspared⟩

/-- The gag of a request is opened before and closed after all else, so the queue is all that it
changes. -/
theorem respond_spared
    (h : svc.respond (svc.instantiate n) n call.chain call.request r = .ok (.error err, r'))
    (hnew : r'.engine.insts.size = r.engine.insts.size) :
    ∃ hits ≤ 1, r.engine.Spared 1 hits r'.engine := by
  unfold respond at h
  split at h
  · rw [RunM.bind_engine] at h
    obtain ⟨a, ⟨e, s⟩, hhandle, hclose⟩ := RunM.exists_of_bind h
    cases hclose
    obtain ⟨hits, hle, hspared⟩ := handle_spared hhandle hnew
    have hopen : r.engine.Spared 0 0 (Command.run r.engine .pushGag).2 := .of_queue
    exact ⟨0 + hits + 0, by omega, (hopen.trans hspared).trans .of_queue⟩
  · exact handle_spared h hnew

/-- **Early failures are atomic.** A request that fails and has made no instance is counted, at most
as a cache hit too, and leaves all of the engine but the queue as it was. -/
theorem failsAtOnce (h : svc.instantiate n c q r = .ok (.error err, r'))
    (hnew : r'.engine.insts.size = r.engine.insts.size) :
    ∃ hits ≤ 1, r'.engine = { r.engine with
      queue := r'.engine.queue
      stats := { r.engine.stats with
        requests := r.engine.stats.requests + 1
        cacheHits := r.engine.stats.cacheHits + hits } } := by
  cases n with
  | zero => cases h
  | succ n =>
    let call : Call := ⟨c, q, none⟩
    have hcall : svc.respond (svc.instantiate n) n call.chain call.request r =
        .ok (.error err, r') := h
    exact respond_spared hcall hnew

end Service

/-- A front end that cannot elaborate anything. -/
def balking : Service Unit where
  evaluate _ _ := pure (.error ⟨"", {}⟩)
  openScope s := pure s
  declareSymbol _ _ _ := pure ()
  symbolName _ _ := ""
  elaborate _ _ := .done (.error ⟨"x", {}⟩)

/-- A template and a request for it. -/
def askInVain : Program Unit (Except TemplateError InstanceId) :=
  .command (.declare { name := "A" }) fun _ => .request [] { decl := ⟨0⟩ } .done

/-- The run in which the request has failed. -/
def balked : Run Unit := (balking.after 9 (.boot { digest := fun _ _ => default } () askInVain)).run

/-- A second request finds the failed instance in the cache and leaves it as it is. -/
theorem failsAtOnce_balking : ∃ err r',
    balking.instantiate 2 [] { decl := ⟨0⟩, gagged := true } balked = .ok (.error err, r') ∧
      r'.engine.insts.size = balked.engine.insts.size ∧
      r'.engine.insts = balked.engine.insts ∧ r'.engine.stats.cacheHits = 1 := by
  have hsecond : ∃ err r',
      balking.instantiate 2 [] { decl := ⟨0⟩, gagged := true } balked = .ok (.error err, r') ∧
        r'.engine.insts.size = balked.engine.insts.size ∧ r'.engine.stats.cacheHits = 1 :=
    ⟨_, _, rfl, rfl, rfl⟩
  obtain ⟨err, r', h, hnew, hhits⟩ := hsecond
  obtain ⟨hits, -, he⟩ := Service.failsAtOnce h hnew
  exact ⟨err, r', h, hnew, by rw [he], hhits⟩

end Templates
