import Templates.Proofs.Gagging.Depth
import Templates.Proofs.Gagging.Reports
import Templates.Proofs.Parking

/-!
# Failures that nobody hears of

A failure is not reported while a gag is open. For the failure of an instance that only speculative
requests have asked for this is not enough: the front end may go on with it after the gag is closed
in which it was made. `Service.hushes` says which failures are reported, for a front end that closes
the gags it opens: the failure of an instance is reported exactly if the call in which it fails made
an instance without the mark of speculation.
-/

namespace Templates

variable {σ α : Type}

/-- In the step the instance `i` fails with the report `d`: its elaboration, or what the front end did
with it after it was released. The call in which this happens made the instance `o`. -/
inductive Service.Fails (svc : Service σ) (m : Machine σ α) (i : InstanceId) :
    InstanceId → Diagnostic → Prop
  | elaborate {call : Call} {p : Plan} {f : Failure} :
    m.control = .program (.elaborate call p i) (.done (.error f)) →
    Fails svc m i i (m.engine.failure (svc.symbolName m.run.service) i f.message call.request.span
      call.chain)
  | resume {call : Call} {o : Outcome} {rest : List InstanceId} {f : Failure} :
    m.control = .program (.resume call o i rest) (.done (.error f)) →
    Fails svc m i o.inst (m.engine.failure (svc.symbolName m.run.service) i f.message
      (((m.engine.inst? i).map (·.span)).getD {}) [])

/-- In the step the queue keeps the diagnostic. -/
def Service.Surfaces (svc : Service σ) (m : Machine σ α) (d : Diagnostic) : Prop :=
  (svc.step m).engine.queue.queued = m.engine.queue.queued.push d

namespace Service

variable {svc : Service σ} {m : Machine σ α} {i o : InstanceId} {d : Diagnostic}

theorem Fails.code (h : svc.Fails m i o d) : d.code = .elaborationFailed ∧ d.isError = true := by
  cases h <;> exact ⟨rfl, rfl⟩

/-- A failure is added to the queue. -/
theorem Fails.queue (h : svc.Fails m i o d) :
    (svc.step m).engine.queue = (m.engine.queue.add d).2 := by
  obtain ⟨r, c, ws⟩ := m
  cases h with
  | elaborate hc | resume hc =>
    cases hc
    exact Engine.queue_fail i ..

theorem Fails.surfaces_iff (h : svc.Fails m i o d) :
    svc.Surfaces m d ↔ m.engine.isGagged = false ∧ m.engine.queue.Takes d := by
  obtain ⟨hc, he⟩ := h.code
  rw [Surfaces, h.queue, DiagnosticQueue.queued_add_eq_push_iff he (by rw [hc]; nofun)]
  rfl

/-! ## Where reports come from -/

variable {r : Run σ} {ws : List (Waiting σ α)} {c : Control σ α} {call : Call} {e : Engine} {s : σ}

theorem queued_closeGag (e : Engine) (mark : Option GagMark) :
    (closeGag e mark).queue.queued = e.queue.queued := by
  cases mark <;> rfl

theorem queued_giveAnswer {a : Except TemplateError InstanceId} :
    (giveAnswer ⟨e, s⟩ call a ws).engine.queue.queued = e.queue.queued := by
  cases ws with
  | nil => rfl
  | cons w ws => exact queued_closeGag e call.mark

/-- What is added to the queue when a diagnostic of this kind gets into it. -/
theorem eq_of_queued_add {q : DiagnosticQueue} {d' : Diagnostic}
    (hd : d.code = .elaborationFailed) (h : (q.add d').2.queued = q.queued.push d) : d' = d := by
  obtain ha | ha | ⟨span, ha⟩ := q.queued_add d' <;> rw [ha] at h
  · exact absurd h (DiagnosticQueue.ne_push_self _ _)
  · exact (Array.push_inj_right ..).mp h
  · exact absurd ((Array.push_inj_right ..).mp h)
      (DiagnosticQueue.overLimit_ne (by rw [hd]; nofun))

/-- Only a step in which an instance fails, and the front end by itself, say that one has failed. -/
theorem Surfaces.source (hd : d.code = .elaborationFailed) (h : svc.Surfaces m d) :
    (∃ i o, svc.Fails m i o d) ∨
      ∃ role k, m.control = .program role (.command (.addDiagnostic d) k) := by
  by_cases hf : ∃ i o d', svc.Fails m i o d'
  · obtain ⟨i, o, d', hf⟩ := hf
    obtain rfl := eq_of_queued_add hd ((congrArg _ hf.queue.symm).trans h)
    exact .inl ⟨i, o, hf⟩
  have hs : svc.Steps m.run m.waiting m.control (svc.step m) := step_steps m
  unfold Surfaces at h
  generalize svc.step m = m' at hs h
  obtain ⟨r, c, ws⟩ := m
  have hsame {q : Array Diagnostic} (h : q = r.engine.queue.queued.push d)
      (hq : q = r.engine.queue.queued) : False :=
    DiagnosticQueue.ne_push_self _ _ (hq.symm.trans h)
  have hother {e : Engine} (P : ErrorCode → Prop) (hq : e.queue.queued = r.engine.queue.queued.push d)
      (hP : ¬P .elaborationFailed) (h : r.engine.Reports P e) : False := by
    cases h with
    | nothing h => exact hsame hq (congrArg _ h)
    | error hc h =>
      rw [h] at hq
      obtain rfl := eq_of_queued_add hd hq
      rw [← hd] at hP
      exact hP hc
  cases hs with
  | unresolved hr =>
    rw [queued_giveAnswer] at h
    exact (hother (· = .unevaluated) h nofun (.reject (Engine.resolveRequest_code hr))).elim
  | refuse hp =>
    rw [queued_giveAnswer] at h
    exact (hother (fun c => c.isSelection = true ∨ c = .mixinOnly) h (by decide)
      (.reject (Engine.plan_code hp))).elim
  | answer _ ha =>
    rw [queued_giveAnswer] at h
    exact (hother (·.isRecursion = true) h (by decide) (Engine.answer?_reports ha)).elim
  | undeclared => cases ws <;> exact (hsame h rfl).elim
  | finish =>
    rw [queued_giveAnswer] at h
    exact (hsame h rfl).elim
  | fail => exact absurd ⟨_, _, _, .elaborate rfl⟩ hf
  | @settle _ _ _ _ result _ _ hs =>
    cases result with
    | ok =>
      subst hs
      exact (hsame h rfl).elim
    | error => exact absurd ⟨_, _, _, .resume rfl⟩ hf
  | request =>
    rw [openCall_eq] at h
    refine (hsame h ?_).elim
    obtain ⟨-, ho⟩ | ⟨-, ho⟩ := r.engine.opened_cases _ <;> exact congrArg (·.queue.queued) ho
  | @command role c k =>
    cases c with
    | declare d' =>
      exact (hother (· = .parameterList) h nofun (Engine.declare_reports d')).elim
    | overload d' d'' => exact (hother (· = .parameterList) h nofun ((Engine.declare_reports d'').trans_nothing
        (Engine.overloadInsert_eq ..).2.2)).elim
    | addDiagnostic d' =>
      obtain rfl := eq_of_queued_add hd h
      exact .inr ⟨role, k, rfl⟩
    | addRoot m => exact (hsame h (congrArg _ (Engine.addRoot_eq m).2)).elim
    | claim i m => exact (hsame h (congrArg _ (Engine.claimCodegen_queue i m))).elim
    | flush =>
      have := congrArg Array.size h
      simp [Command.run, DiagnosticQueue.flush] at this
    | recordImport | pushGag | popGag => exact (hsame h rfl).elim
  | create | openScope | release | wake | suspend | complete | resolve | elaborate | resume | done
  | halt | read | service | dangling | unasked => exact (hsame h rfl).elim

/-! ## Runs -/

/-- What the queue keeps of failures in the next step. -/
structure Hushes (svc : Service σ) (m : Machine σ α) : Prop where
  /-- Only a step in which an instance fails, and the front end by itself, say that one has failed. -/
  source {d : Diagnostic} : d.code = .elaborationFailed → svc.Surfaces m d →
    (∃ i o, svc.Fails m i o d) ∨ ∃ role k, m.control = .program role (.command (.addDiagnostic d) k)
  /-- A failure is kept exactly if a request outside every gag has asked for the instance in whose call
  it happens, and the queue has room for it and no other like it. -/
  kept_iff {i o : InstanceId} {d : Diagnostic} : svc.Fails m i o d →
    (svc.Surfaces m d ↔ m.engine.gagged? o = some false ∧ m.engine.queue.Takes d)
  /-- When an instance fails that only speculative requests have asked for, this is kept only if the
  instance goes on in a call that made another one, without the mark of speculation. -/
  late {i o : InstanceId} {d : Diagnostic} : svc.Fails m i o d → m.engine.gagged? i = some true →
    svc.Surfaces m d → ∃ call out rest f, o = out.inst ∧ o ≠ i ∧
      m.control = .program (.resume call out i rest) (.done (.error f)) ∧
        m.engine.gagged? o = some false

/-- The gags that are open when an instance fails are those that were open when the call began in which
it fails. -/
theorem Fails.madeAt {call₀ : Call} {d₀ : Nat} {w₀ : Waiting σ α} {ws₀ : List (Waiting σ α)}
    (H : m.Bracketed call₀ d₀ w₀ ws₀) (h : svc.Fails m i o d) :
    m.engine.MadeAt m.engine.queue.gagDepth o := by
  obtain ⟨r, c, ws⟩ := m
  cases h with
  | elaborate hc | resume hc =>
    cases hc
    exact H.madeAt_done rfl

/-- **Failures of speculative instances.** -/
theorem hushes {config : EngineConfig} {s : σ} {p : Program σ α} (hsvc : svc.Brackets) (n : Nat) :
    svc.Hushes (svc.after n (.boot config s p)) := by
  have hkept {i o : InstanceId} {d : Diagnostic}
      (h : svc.Fails (svc.after n (.boot config s p)) i o d) :
      (svc.after n (.boot config s p)).engine.gagged? o =
        some (svc.after n (.boot config s p)).engine.isGagged := by
    obtain ⟨-, p', hc⟩ | ⟨call₀, d₀, next, H⟩ :
        (svc.after n (.boot config s p)).AtTop ∨ _ := bracketed_after hsvc n
    · cases h with
      | elaborate h | resume h => cases hc.symm.trans h
    · rw [(h.madeAt H).gagged?]
      rfl
  constructor
  case source => exact fun hd h => h.source hd
  case kept_iff =>
    intro i o d h
    rw [h.surfaces_iff, hkept h, Option.some.injEq]
  case late =>
    intro i o d h hi hs
    have ho := (h.surfaces_iff.mp hs).1 ▸ hkept h
    have hne : o ≠ i := by
      rintro rfl
      rw [hi] at ho
      cases ho
    cases h with
    | elaborate => exact absurd rfl hne
    | resume hc => exact ⟨_, _, _, _, rfl, hne, hc, ho⟩

end Service

/-- A front end whose first instance asks speculatively for the second, which refers back to the first
and fails when it goes on. -/
def probing : Service Unit where
  evaluate _ _ := pure (.error ⟨"", {}⟩)
  openScope s := pure s
  declareSymbol _ _ _ := pure ()
  symbolName _ _ := ""
  elaborate c i :=
    .request c
      (if i.index = 0 then { decl := ⟨1⟩, gagged := true }
      else { decl := ⟨0⟩, need := .reference })
      fun _ => .done (.ok [])
  resume _ := .done (.error ⟨"", {}⟩)

theorem probing_brackets : probing.Brackets := ⟨fun _ _ _ => rfl, fun _ => rfl⟩

/-- The machine of the two templates at its beginning. -/
def probingBoot : Machine Unit (Except TemplateError InstanceId) :=
  .boot { digest := fun _ _ => default } () twoWayClient

theorem probing_fails : ∃ d, probing.Fails (probing.after 20 probingBoot) ⟨1⟩ ⟨0⟩ d := by
  have hc : (probing.after 20 probingBoot).control =
      .program (.resume ⟨[], { decl := ⟨0⟩ }, none⟩ ⟨⟨0⟩, .ok ⟨0⟩⟩ ⟨1⟩ [])
        (.done (.error ⟨"", {}⟩)) := rfl
  exact ⟨_, .resume hc⟩

/-- The second instance fails after the gag was closed, and this is kept although the instance has its
mark and does not lose it. -/
theorem not_silent_probing : ∃ d, probing.Fails (probing.after 20 probingBoot) ⟨1⟩ ⟨0⟩ d ∧
    probing.Surfaces (probing.after 20 probingBoot) d ∧
    (probing.after 20 probingBoot).engine.gagged? ⟨1⟩ = some true ∧
    (probing.after 21 probingBoot).engine.gagged? ⟨1⟩ = some true := by
  obtain ⟨d, hd⟩ := probing_fails
  have hlast : (probing.after 20 probingBoot).engine.queue.lastError = none := rfl
  refine ⟨d, hd, hd.surfaces_iff.mpr ⟨rfl, rfl, fun h => ?_⟩, rfl, rfl⟩
  rw [hlast] at h
  cases h.2

theorem hushes_probing : probing.Brackets ∧
    (probing.after 20 probingBoot).engine.gagged? ⟨0⟩ = some false ∧
    probing.Hushes (probing.after 20 probingBoot) :=
  ⟨probing_brackets, rfl, Service.hushes probing_brackets 20⟩

end Templates
