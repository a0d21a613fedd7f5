import Mathlib.Tactic.IntervalCases
import Templates.Proofs.Machine.Calls
import Templates.Proofs.Reporting.Invariant

/-!
# No silent failure

When a request fails outside every gag, an error was counted, now or earlier (`Service.speaks`). This
needs a front end that closes the gags it opens and hands on no chain of its own making: otherwise an
error may be swallowed by a gag that is still open, or an instance may fail in a gag that nobody opened
for it.
-/

namespace Templates

variable {σ α : Type}

namespace Engine

variable {e e' : Engine} {names : SymbolId → String} {q : Request} {c : Chain} {p : Plan}
  {err : TemplateError}

/-- A request that is turned down outside every gag leaves an error. -/
theorem pos_of_answer? (hq : e.queue.Counted) (hr : e.Reported) (hg : e.isGagged = false)
    (h : e.answer? names q c p = some (.error err, e')) : 0 < e'.queue.errorCount := by
  cases finds_of_answer? h with
  | recursive | tooDeep => exact pos_of_reject hq hg
  | failed _ hl hs =>
    rw [lookup_eq] at hl
    exact hr (List.mem_of_find?_eq_some hl) ((state?_arena e _).trans hs)
  | busy => exact hq.pos_of_add rfl hg

/-- A declaration that is turned down outside every gag leaves an error. -/
theorem pos_of_declare {d : Decl} (hq : e.queue.Counted) (hg : e.isGagged = false)
    (h : (e.declare d).1 = .error err) : 0 < (e.declare d).2.queue.errorCount := by
  obtain ⟨_, -, hd⟩ | ⟨_, -, hd⟩ := e.declare_cases d <;> rw [hd] at h ⊢
  · exact hq.pos_of_add rfl hg
  · cases h

end Engine

namespace Service

/-- No error was forgotten in the first `n` steps. -/
def Unflushed (svc : Service σ) (m₀ : Machine σ α) (n : Nat) : Prop :=
  ∀ j < n, ∀ role k, (svc.after j m₀).control ≠ .program role (.command .flush k)

variable {svc : Service σ} {m m₀ : Machine σ α} {k n : Nat} {q : Request}
  {a : Except TemplateError InstanceId}

/-- Where an answer comes from: the request is turned down, or needs no new instance, or its instance
was made and all that waited for it has been released. -/
theorem step_of_answers (h : svc.answers m = some a) : ∃ st e s, m.control = .stage st ∧
    svc.step m = giveAnswer ⟨e, s⟩ st.call a m.waiting ∧
      ((∃ names err c, a = .error err ∧ e = (m.engine.reject names err c).2) ∨
        (∃ names q c p, m.engine.answer? names q c p = some (a, e)) ∨
          ∃ o, st.release? = some ⟨o, []⟩ ∧ a = o.answer ∧ e = m.engine) := by
  obtain ⟨r, c, ws⟩ := m
  unfold answers at h
  dsimp only at h
  split at h
  · next call =>
    refine ⟨.resolve call, ?_⟩
    rw [step_resolve]
    rcases hr : svc.resolveRequest call.request r.service with ⟨err | _, s⟩ <;> rw [hr] at h <;>
      cases h
    exact ⟨_, s, rfl, rfl, .inl ⟨_, err, _, rfl, rfl⟩⟩
  · next call resolved =>
    refine ⟨.plan call resolved, ?_⟩
    rw [step_plan]
    rcases hp : r.engine.plan svc.toSemantics call.request resolved r.service with
      ⟨err | p, s⟩ <;> rw [hp] at h
    · cases h
      exact ⟨_, s, rfl, rfl, .inl ⟨_, err, _, rfl, rfl⟩⟩
    · obtain ⟨⟨a, e⟩, ha, rfl⟩ := Option.map_eq_some_iff.mp h
      exact ⟨e, s, rfl, carryOutStep_of_some ha, .inr (.inl ⟨_, _, _, _, ha⟩)⟩
  · next call o =>
    cases h
    exact ⟨.release call o [], r.engine, r.service, rfl, rfl, .inr (.inr ⟨o, rfl, rfl, rfl⟩)⟩
  · cases h

/-! ## Runs -/

section

variable {config : EngineConfig} {s : σ} {p : Program σ α}

/-- Inside a call of the client some other program runs. -/
theorem ne_client_of_bracketed {call₀ : Call} {d₀ : Nat} {w₀ : Waiting σ α} {ws₀ : List (Waiting σ α)}
    (H : m.Bracketed call₀ d₀ w₀ ws₀) {p : Program σ α} (hc : m.control = .program .client p) : False := by
  cases H with
  | program hrole =>
    cases hc
    cases hrole
  | stage => cases hc

theorem marked_after (hb : svc.Brackets) (n : Nat) :
    svc.Marked (svc.after n (.boot config s p)) :=
  (bracketed_after hb n).elim marked_of_atTop fun ⟨_, _, _, H⟩ => marked_of_bracketed H

/-- What is known of errors at a moment of a run. -/
structure Accounted (m : Machine σ α) : Prop where
  counted : m.engine.queue.Counted
  reported : m.engine.Reported
  inward : m.Inward
  leads : m.Leads
  blamed : m.Blamed

theorem accounted_boot : Accounted (.boot config s p) := by
  refine ⟨fun h => ?_, fun d h i hi => ?_, ⟨.nil, fun o h => ?_, fun o h => ?_, fun x h => ?_⟩,
    ⟨fun h => ?_, fun h hrole => ?_, fun w h => ?_⟩, fun x h => ?_⟩
  case refine_2 =>
    simp [Machine.boot, Machine.start, Machine.engine, Engine.cache, Engine.decl?] at hi
  case refine_7 =>
    cases h
    cases hrole
  all_goals cases h

theorem filedOnce_after (svc : Service σ) (n : Nat) :
    (svc.after n (.boot config s p)).engine.FiledOnce := by
  have h : (svc.after n (.boot config s p)).engine.CachesOnce ∧
      (svc.after n (.boot config s p)).engine.FiledOnce := by
    refine engine_always svc (P := fun e => e.CachesOnce ∧ e.FiledOnce) ?_ ?_ n
    · refine ⟨.init config, fun d h => ?_⟩
      simp [Engine.cache, Engine.decl?]
    · rintro e e' hl ⟨hc, hf⟩ h
      cases h with
      | keep h => exact ⟨hc.keeps h, hf.keeps hc.keyed h⟩
      | create hp hn => exact ⟨hc.create (hp.decl_lt hl) hn, hf.create hc (hp.decl_lt hl)⟩
  exact h.2

theorem inward_after (hsvc : svc.HandsOn) (hb : svc.Brackets) (n : Nat) :
    (svc.after n (.boot config s p)).Inward ∧ (svc.after n (.boot config s p)).Leads := by
  induction n with
  | zero => exact ⟨accounted_boot.inward, accounted_boot.leads⟩
  | succ n ih =>
    obtain ⟨hinward, hleads⟩ := ih
    have hl : (svc.after n (.boot config s p)).engine.Linked := linked_after svc n
    have hplanned : (svc.after n (.boot config s p)).Planned := planned_after svc n
    have htop : ∀ p', (svc.after n (.boot config s p)).control = .program .client p' →
        (svc.after n (.boot config s p)).waiting = [] := by
      intro p' hp'
      obtain h | ⟨_, _, _, h⟩ : (svc.after n (.boot config s p)).AtTop ∨ _ := bracketed_after hb n
      · exact h.1
      · exact (ne_client_of_bracketed h hp').elim
    rw [after_succ]
    generalize svc.after n (.boot config s p) = m at *
    have h : svc.Steps m.run m.waiting m.control (svc.step m) := step_steps m
    exact ⟨h.inward hl hplanned hleads hinward, h.leads hsvc htop hinward hleads⟩

theorem accounted_after (hsvc : svc.HandsOn) (hb : svc.Brackets)
    (hu : svc.Unflushed (.boot config s p) n) : Accounted (svc.after n (.boot config s p)) := by
  induction n with
  | zero => exact accounted_boot
  | succ n ih =>
    have H := ih fun j hj => hu j (hj.trans (Nat.lt_succ_self n))
    have hm : svc.Marked (svc.after n (.boot config s p)) := marked_after hb n
    have hl : (svc.after n (.boot config s p)).engine.Linked := linked_after svc n
    have hc : (svc.after n (.boot config s p)).engine.CachesOnce := cachesOnce_after svc n
    have hf : (svc.after n (.boot config s p)).engine.FiledOnce := filedOnce_after svc n
    have hplanned : (svc.after n (.boot config s p)).Planned := planned_after svc n
    have hflush := hu n (Nat.lt_succ_self n)
    have hnext : (svc.after (n + 1) (.boot config s p)).Inward ∧ _ := inward_after hsvc hb (n + 1)
    rw [after_succ] at hnext ⊢
    generalize svc.after n (.boot config s p) = m at *
    have h : svc.Steps m.run m.waiting m.control (svc.step m) := step_steps m
    have hr := h.remembers hflush
    exact ⟨hr.counted H.counted,
      step_reported hl hplanned hc hf H.counted hr hm H.inward H.reported, hnext.1, hnext.2,
      step_blamed hm H.inward H.counted hr H.blamed⟩

end

/-- As long as the program waits that made a request, its call goes on, at the gag depth at which the
request was made. -/
theorem bracketed_of_request (hb : svc.Brackets) {role : Role} {c : Chain}
    {next : Except TemplateError InstanceId → Program σ (role.Result α)}
    (hk : (svc.after k m₀).control = .program role (.request c q next)) (hkn : k + 1 ≤ n)
    (hin : ∀ j, k < j → j ≤ n →
      ∃ inner, (svc.after j m₀).waiting = inner ++ ⟨role, next⟩ :: (svc.after k m₀).waiting) :
    (svc.after n m₀).Bracketed (.opened (svc.after k m₀).engine c q)
      (svc.after k m₀).engine.queue.gagDepth ⟨role, next⟩ (svc.after k m₀).waiting := by
  induction n, hkn using Nat.le_induction with
  | base =>
    rw [after_succ]
    generalize svc.after k m₀ = m at hk ⊢
    obtain ⟨r, _, ws⟩ := m
    cases hk
    exact openCall_bracketed .base
  | succ n hkn ih =>
    obtain ⟨inner, hinner⟩ := hin (n + 1) (by omega) (Nat.le_refl _)
    have H := ih fun j hj hjn => hin j hj (by omega)
    have hstep : svc.Steps _ _ _ (svc.step (svc.after n m₀)) := step_steps _
    rw [after_succ] at hinner ⊢
    generalize svc.step (svc.after n m₀) = m' at hinner hstep ⊢
    obtain H | H := hstep.bracketed hb H
    · exact H
    · -- The program that made the request would not wait any more.
      cases H
      have := congrArg List.length hinner
      simp only [List.length_append, List.length_cons] at this
      omega

/-- The call of a request goes on at the gag depth at which the request was made. -/
theorem Answered.bracketed (hb : svc.Brackets) (h : svc.Answered m₀ k n q a) :
    ∃ role c next, (svc.after k m₀).control = .program role (.request c q next) ∧
      (svc.after n m₀).waiting = ⟨role, next⟩ :: (svc.after k m₀).waiting ∧
        (svc.after n m₀).Bracketed (.opened (svc.after k m₀).engine c q)
          (svc.after k m₀).engine.queue.gagDepth ⟨role, next⟩ (svc.after k m₀).waiting := by
  obtain ⟨role, c, next, hk, hkn, hinside, hw, -⟩ := h
  exact ⟨role, c, next, hk, hw, bracketed_of_request hb hk hkn hinside⟩

theorem errorCount_closeGag (e : Engine) (mark : Option GagMark) :
    (closeGag e mark).queue.errorCount = e.queue.errorCount := by
  cases mark <;> rfl

/-- When a call that was made outside every gag, and is not gagged itself, is answered with an error,
then errors were counted. -/
theorem Accounted.pos_of_answers {call₀ : Call} {w : Waiting σ α} {ws : List (Waiting σ α)}
    {err : TemplateError} (H : Accounted m) (hm : m.Bracketed call₀ 0 w ws)
    (hmark : call₀.mark = none) (hw : m.waiting = w :: ws) (ha : svc.answers m = some (.error err)) :
    0 < (svc.step m).engine.queue.errorCount := by
  obtain ⟨st, e, s, hc, hstep, hcases⟩ := step_of_answers ha
  rw [hstep, hw]
  change 0 < (closeGag e st.call.mark).queue.errorCount
  rw [errorCount_closeGag]
  obtain ⟨r, _, _⟩ := m
  cases hc
  obtain rfl : _ = w :: ws := hw
  cases hm with
  | stage hwaiting hmade hdepth =>
    obtain ⟨hcall, rfl⟩ := hwaiting.eq_base
    have hd : st.call.depth 0 = 0 := by simp [Call.depth, hcall, hmark]
    have hg : r.engine.isGagged = false := Engine.isGagged_eq_false_iff.mpr (hdepth.trans hd)
    obtain ⟨names, err, c, -, rfl⟩ | ⟨names, q, c, p, ha⟩ | ⟨o, ho, hans, rfl⟩ := hcases
    · exact Engine.pos_of_reject H.counted hg
    · exact Engine.pos_of_answer? H.counted H.reported hg ha
    · have hmade : r.engine.gagged? o.inst = some false :=
        (hmade o.inst (by cases st <;> cases ho; rfl)).plain hd
      exact H.blamed ⟨o, []⟩ (mem_releases_stage.mpr (.inl ho)) err hans.symm hmade

/-- What failures leave behind when the run from `m₀` has made `n` steps. -/
structure Speaks (svc : Service σ) (m₀ : Machine σ α) (n : Nat) : Prop where
  /-- When a request fails that is not gagged and was made outside every gag, there is an error. -/
  request {k : Nat} {q : Request} {err : TemplateError} : q.gagged = false →
    (svc.after k m₀).engine.isGagged = false → svc.Answered m₀ k n q (.error err) →
    (svc.after (n + 1) m₀).engine.queue.hasErrors.isSome
  /-- When a declaration is turned down outside every gag, there is an error. -/
  declare {role : Role} {d : Decl} {next} {err : TemplateError} :
    (svc.after n m₀).control = .program role (.command (.declare d) next) →
    (svc.after n m₀).engine.isGagged = false →
    ((svc.after n m₀).engine.declare d).1 = .error err →
    (svc.after (n + 1) m₀).engine.queue.hasErrors.isSome
  /-- The same for an overload of a declaration. -/
  overload {role : Role} {d : DeclId} {d' : Decl} {next} {err : TemplateError} :
    (svc.after n m₀).control = .program role (.command (.overload d d') next) →
    d.index < (svc.after n m₀).engine.decls.size → (svc.after n m₀).engine.isGagged = false →
    ((svc.after n m₀).engine.overloadInsert d d').1 = .error err →
    (svc.after (n + 1) m₀).engine.queue.hasErrors.isSome

/-- **No silent failure.** -/
theorem speaks {config : EngineConfig} {s : σ} {p : Program σ α} (hsvc : svc.HandsOn)
    (hb : svc.Brackets) (hu : svc.Unflushed (.boot config s p) n) :
    svc.Speaks (.boot config s p) n := by
  have H : Accounted (svc.after n (.boot config s p)) := accounted_after hsvc hb hu
  constructor
  case request =>
    intro k q err hq hg h
    rw [DiagnosticQueue.hasErrors_isSome_iff, after_succ]
    obtain ⟨role, c, next, -, hw, hm⟩ := h.bracketed hb
    obtain ⟨-, -, -, -, -, -, -, ha⟩ := h
    rw [Engine.isGagged_eq_false_iff.mp hg] at hm
    exact H.pos_of_answers hm (by simp [Call.opened, hq]) hw ha
  case declare =>
    intro role d next err hc hg h
    rw [DiagnosticQueue.hasErrors_isSome_iff, after_succ]
    generalize svc.after n (.boot config s p) = m at *
    obtain ⟨r, _, ws⟩ := m
    cases hc
    exact Engine.pos_of_declare H.counted hg h
  case overload =>
    intro role d d' next err hc hd hg h
    rw [DiagnosticQueue.hasErrors_isSome_iff, after_succ]
    generalize svc.after n (.boot config s p) = m at *
    obtain ⟨r, _, ws⟩ := m
    cases hc
    have hthere : (Command.overload d d').danglingIn r.engine = none := if_pos hd
    have hrun := Engine.overloadInsert_eq r.engine d d'
    rw [step_command, hthere]
    change 0 < (r.engine.overloadInsert d d').2.queue.errorCount
    rw [hrun.2.2]
    exact Engine.pos_of_declare H.counted hg (hrun.1 ▸ h)

end Service

/-- Asks for an instance of the first template and then for one of the second. -/
def askBoth (σ : Type) : Program σ (Except TemplateError InstanceId) :=
  .command (.declare { name := "A" }) fun _ => .command (.declare { name := "B" }) fun _ =>
    .command (.declare { name := "C" }) fun _ =>
      .request [] { decl := ⟨0⟩ } fun _ => .request [] { decl := ⟨1⟩ } .done

/-- The machine of the two requests at its beginning. -/
def askBothBoot {σ : Type} (s : σ) : Machine σ (Except TemplateError InstanceId) :=
  .boot { digest := fun _ _ => default } s (askBoth σ)

/-- A front end that leaves a gag open in which an instance fails. -/
def muffling : Service Unit where
  evaluate _ _ := pure (.error ⟨"", {}⟩)
  openScope s := pure s
  declareSymbol _ _ _ := pure ()
  symbolName _ _ := ""
  elaborate _ _ := .command .pushGag fun _ => .done (.error ⟨"", {}⟩)

/-- A front end that makes up a frame for the second instance when the third refers to itself, so
that the second waits for the third. It goes on with the second twice. -/
def relapsing : Service Bool where
  evaluate _ _ := pure (.error ⟨"", {}⟩)
  openScope s := pure s
  declareSymbol _ _ _ := pure ()
  symbolName _ _ := ""
  elaborate c i :=
    .request (if i.index = 2 then ⟨⟨1⟩, ⟨1⟩, [], none, {}⟩ :: c else c)
      (if i.index = 0 then { decl := ⟨1⟩ }
      else { decl := if i.index = 1 then ⟨0⟩ else ⟨2⟩, need := .reference })
      fun _ => .done (.ok [])
  resume _ := .service (fun b => (b, true)) fun
    | true => .done (.error ⟨"", {}⟩)
    | false =>
      .request [] { decl := ⟨2⟩, gagged := true } fun _ =>
        .request [] { decl := ⟨1⟩ } fun _ => .done (.ok ())

theorem muffling_handsOn : muffling.HandsOn := ⟨fun _ _ _ => trivial, fun _ => trivial⟩

theorem relapsing_brackets : relapsing.Brackets :=
  ⟨fun _ _ _ => rfl, fun _ b => by
    cases b with
    | false => exact fun _ _ => rfl
    | true => rfl⟩

theorem muffling_unflushed : muffling.Unflushed (askBothBoot ()) 10 := by
  intro j hj role k
  interval_cases j <;> nofun

theorem relapsing_unflushed : relapsing.Unflushed (askBothBoot false) 38 := by
  intro j hj role k
  interval_cases j <;> nofun

theorem muffling_answered : muffling.Answered (askBothBoot ()) 3 10 { decl := ⟨0⟩ }
    (.error (.memberElaborationFailed ⟨0⟩ "A!()" (some "") {})) := by
  refine ⟨.client, [], fun _ => .request [] { decl := ⟨1⟩ } .done, rfl, by decide,
    fun j hj hj' => ?_, rfl, rfl⟩
  interval_cases j <;> exact ⟨[], rfl⟩

theorem relapsing_answered : relapsing.Answered (askBothBoot false) 36 38 { decl := ⟨1⟩ }
    (.error (.memberElaborationFailed ⟨1⟩ "B!()" none {})) := by
  refine ⟨.resume ⟨[], { decl := ⟨0⟩ }, none⟩ ⟨⟨0⟩, .ok ⟨0⟩⟩ ⟨1⟩ [], [],
    fun _ => .done (.ok ()), rfl, by decide, fun j hj hj' => ?_, rfl, rfl⟩
  interval_cases j <;> exact ⟨[], rfl⟩

/-- An instance may fail in a gag that was left open by a front end that hands its chain on, and with
a made-up chain an instance without the mark of speculation may fail in a gag where gags are closed.
In both runs a request outside every gag is answered with an error, and none is counted. -/
theorem not_speaks :
    (muffling.HandsOn ∧ muffling.Unflushed (askBothBoot ()) 10 ∧
      ¬muffling.Speaks (askBothBoot ()) 10) ∧
    (relapsing.Brackets ∧ relapsing.Unflushed (askBothBoot false) 38 ∧
      ¬relapsing.Speaks (askBothBoot false) 38) := by
  refine ⟨⟨muffling_handsOn, muffling_unflushed, fun h => ?_⟩, relapsing_brackets,
    relapsing_unflushed, fun h => ?_⟩
  · cases h.request rfl rfl muffling_answered
  · cases h.request rfl rfl relapsing_answered

/-- A front end whose first instance needs the second, which refers back to the first and fails when
it goes on. -/
def stumbling : Service Unit where
  evaluate _ _ := pure (.error ⟨"", {}⟩)
  openScope s := pure s
  declareSymbol _ _ _ := pure ()
  symbolName _ _ := ""
  elaborate c i :=
    .request c (if i.index = 0 then { decl := ⟨1⟩ } else { decl := ⟨0⟩, need := .reference })
      fun _ => .done (.ok [])
  resume _ := .done (.error ⟨"", {}⟩)

theorem stumbling_answered : stumbling.Answered (askBothBoot ()) 23 25 { decl := ⟨1⟩ }
    (.error (.memberElaborationFailed ⟨1⟩ "B!()" none {})) := by
  refine ⟨.client, [], .done, rfl, by decide, fun j hj hj' => ?_, rfl, rfl⟩
  interval_cases j <;> exact ⟨[], rfl⟩

/-- The second request is answered with the failed instance, and its failure was counted. -/
theorem speaks_stumbling : stumbling.HandsOn ∧ stumbling.Brackets ∧
    stumbling.Unflushed (askBothBoot ()) 25 ∧
    stumbling.Answered (askBothBoot ()) 23 25 { decl := ⟨1⟩ }
      (.error (.memberElaborationFailed ⟨1⟩ "B!()" none {})) ∧
    stumbling.Speaks (askBothBoot ()) 25 := by
  have hsvc : stumbling.HandsOn := ⟨fun _ _ => ⟨.inl rfl, fun _ => trivial⟩, fun _ => trivial⟩
  have hb : stumbling.Brackets := ⟨fun _ _ _ => rfl, fun _ => rfl⟩
  have hu : stumbling.Unflushed (askBothBoot ()) 25 := by
    intro j hj role k
    interval_cases j <;> nofun
  exact ⟨hsvc, hb, hu, stumbling_answered, Service.speaks hsvc hb hu⟩

end Templates
