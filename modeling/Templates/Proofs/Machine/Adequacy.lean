import Templates.Proofs.Machine

/-!
# The steps of a machine are those of a run

A run of the client that ends is a sequence of steps that ends in the same place, and the other way
round (`Service.run_eq_ok_iff`). The induction is on the fuel: a run that lacks fuel has made at
least as many steps as it had fuel (`Service.Leads`), so a machine that stops needs no more fuel
than steps.
-/

namespace Templates

variable {σ α β γ : Type}

/-- A program has halted. -/
def Machine.Halted (m : Machine σ α) (h : Halt) : Prop :=
  ∃ role, m.control = .program role (.halt h)

/-- The client is done, or a program has halted. -/
def Machine.Ended (m : Machine σ α) : Prop :=
  (∃ a : α, m.control = .program .client (.done a)) ∨ ∃ h, m.Halted h

namespace RunM

variable {r : Run σ}

theorem bind_engine {f : Engine → β × Engine} {g : β → RunM σ γ} :
    (engine f >>= g) r = g (f r.engine).1 ⟨(f r.engine).2, r.service⟩ := rfl

theorem bind_service {f : StateM σ β} {g : β → RunM σ γ} :
    (service f >>= g) r = g (f r.service).1 ⟨r.engine, (f r.service).2⟩ := rfl

theorem bind_get {g : Run σ → RunM σ γ} : (get >>= g) r = g r r := rfl

end RunM

namespace Program

variable {answer : Service.Handler σ} {r : Run σ}

theorem run_command {c : Command} {k : c.Reply → Program σ β} :
    (Program.command c k).run answer r =
      match c.danglingIn r.engine with
      | some h => .error h
      | none => (k (c.run r.engine).1).run answer ⟨(c.run r.engine).2, r.service⟩ := by
  conv => lhs; unfold Program.run
  change (match c.danglingIn r.engine with | some h => _ | none => _ : RunM σ β) r = _
  cases c.danglingIn r.engine <;> rfl

end Program

namespace Service

variable {svc : Service σ} {m : Machine σ α} {n k : Nat}

theorem after_succ : svc.after (n + 1) m = svc.step (svc.after n m) :=
  Function.iterate_succ_apply' ..

theorem after_after : svc.after k (svc.after n m) = svc.after (k + n) m :=
  (Function.iterate_add_apply ..).symm

theorem step_of_ended (h : m.Ended) : svc.step m = m := by
  obtain ⟨r, c, ws⟩ := m
  obtain ⟨a, rfl⟩ | ⟨h, role, rfl⟩ := h <;> rfl

theorem after_of_ended (h : m.Ended) : svc.after n m = m := by
  induction n with
  | zero => rfl
  | succ n ih => rw [after_succ, ih, step_of_ended h]

theorem after_eq_of_ended (h : (svc.after n m).Ended) (hn : n ≤ k) :
    svc.after k m = svc.after n m := by
  obtain ⟨d, rfl⟩ := Nat.exists_eq_add_of_le' hn
  rw [← after_after, after_of_ended h]

/-! ## What the interpreter does at once -/

section

variable {answer : Handler σ} {r : Run σ} {i : InstanceId}

theorem releaseAll_cons {rest : List InstanceId} :
    svc.releaseAll answer (n + 1) (i :: rest) r =
      if (r.engine.release i).1 then
        ((svc.resume i).run answer >>= fun result r =>
          let (waiting, e) := (r.engine.settle (svc.symbolName r.service) i result).takeDeferred i
          svc.releaseAll answer n (waiting.reverse ++ rest) { r with engine := e })
          ⟨(r.engine.release i).2, r.service⟩
      else svc.releaseAll answer n rest ⟨(r.engine.release i).2, r.service⟩ := by
  conv => lhs; unfold releaseAll
  change (if (r.engine.release i).1 then _ else _ : RunM σ Unit) _ = _
  cases (r.engine.release i).1 <;> rfl

theorem releaseDeferred_apply :
    svc.releaseDeferred answer n i r =
      svc.releaseAll answer n (r.engine.takeDeferred i).1.reverse
        ⟨(r.engine.takeDeferred i).2, r.service⟩ := rfl

theorem finish_apply {q : Request} {members : MemberTable} :
    svc.finish answer n q i members r =
      let s := (svc.splice q members r.service).2
      let e := r.engine.complete i members
      if e.isComplete i then svc.releaseDeferred answer n i ⟨e, s⟩ else .ok ((), ⟨e, s⟩) := by
  unfold finish
  change (if (r.engine.complete i members).isComplete i then _ else _ : RunM σ Unit) _ = _
  dsimp only
  split <;> rfl

end

/-! ## Steps and results -/

/-- Where the steps from `m` lead when the run that they cut up gives a result: to `ret`, to a halt,
or on for as many steps as there was fuel. -/
def Leads (svc : Service σ) (n : Nat) (m : Machine σ α) (ret : β → Run σ → Machine σ α) :
    Except Halt (β × Run σ) → Prop
  | .ok (b, r) => ∃ k, svc.after k m = ret b r
  | .error h => (∃ k, (svc.after k m).Halted h) ∨
    h = .outOfFuel ∧ ∃ k, n ≤ k ∧ ¬(svc.after k m).Ended

namespace Leads

variable {ret : β → Run σ → Machine σ α} {ret' : γ → Run σ → Machine σ α}
  {res : Except Halt (β × Run σ)} {r : Run σ}

theorem ok {b : β} (h : m = ret b r) : Leads svc n m ret (.ok (b, r)) := ⟨0, h⟩

theorem weaken (h : Leads svc k m ret res) (hn : n ≤ k) : Leads svc n m ret res := by
  match res, h with
  | .ok _, h => exact h
  | .error _, .inl h => exact .inl h
  | .error _, .inr ⟨ho, j, hj, he⟩ => exact .inr ⟨ho, j, Nat.le_trans hn hj, he⟩

theorem step (h : Leads svc n (svc.step m) ret res) : Leads svc (n + 1) m ret res := by
  match res, h with
  | .ok _, ⟨j, hj⟩ => exact ⟨j + 1, hj⟩
  | .error _, .inl ⟨j, hj⟩ => exact .inl ⟨j + 1, hj⟩
  | .error _, .inr ⟨ho, j, hj, he⟩ => exact .inr ⟨ho, j + 1, by omega, he⟩

/-- A step is made and its place in the count is not needed. -/
theorem step' (h : Leads svc n (svc.step m) ret res) : Leads svc n m ret res :=
  h.step.weaken n.le_succ

/-- One step more where the steps lead. -/
theorem next {ret' : β → Run σ → Machine σ α} (h : Leads svc n m ret res)
    (hs : ∀ b r, svc.step (ret b r) = ret' b r) : Leads svc n m ret' res := by
  match res, h with
  | .ok (b, r), ⟨j, hj⟩ => exact ⟨j + 1, by rw [after_succ, hj, hs]⟩
  | .error _, h => exact h

/-- What the interpreter does without a step. -/
theorem bind_ok {x : RunM σ β} {f : β → RunM σ γ} {b : β} {r' : Run σ} (hx : x r = .ok (b, r'))
    (hf : Leads svc n m ret' (f b r')) : Leads svc n m ret' ((x >>= f) r) := by
  change Leads svc n m ret' (Except.bind (x r) fun p => f p.1 p.2)
  rw [hx]
  exact hf

theorem bind {x : RunM σ β} {f : β → RunM σ γ} (hx : Leads svc n m ret (x r))
    (hf : ∀ b r', x r = .ok (b, r') → Leads svc n (ret b r') ret' (f b r')) :
    Leads svc n m ret' ((x >>= f) r) := by
  change Leads svc n m ret' (Except.bind (x r) fun p => f p.1 p.2)
  cases hr : x r with
  | error h => rw [hr] at hx; exact hx
  | ok p =>
    obtain ⟨b, r'⟩ := p
    rw [hr] at hx
    obtain ⟨i, hi⟩ := hx
    have h := hf b r' hr
    rw [← hi] at h
    change Leads svc n m ret' (f b r')
    match f b r', h with
    | .ok (c, r''), ⟨j, hj⟩ => exact ⟨j + i, by rw [← after_after, hj]⟩
    | .error h, .inl ⟨j, hj⟩ => exact .inl ⟨j + i, by rwa [← after_after]⟩
    | .error h, .inr ⟨ho, j, hj, he⟩ =>
      exact .inr ⟨ho, j + i, by omega, by rwa [← after_after]⟩

end Leads

/-- The handler answers a request as the steps do. -/
def Answers (svc : Service σ) (α : Type) (n : Nat) (answer : Handler σ) : Prop :=
  ∀ (role : Role) (c : Chain) (q : Request)
    (next : Except TemplateError InstanceId → Program σ (role.Result α))
    (ws : List (Waiting σ α)) (r : Run σ),
    Leads svc n ⟨r, .program role (.request c q next), ws⟩
      (fun a r' => ⟨r', .program role (next a), ws⟩) (answer c q r)

variable {answer : Handler σ} {r : Run σ} {ws : List (Waiting σ α)} {call : Call}
  {o : Outcome} {w : Waiting σ α} {p : Plan} {i : InstanceId} {pending : List InstanceId}

theorem leads_program (H : Answers svc α n answer) (role : Role)
    (p : Program σ (role.Result α)) :
    Leads svc n ⟨r, .program role p, ws⟩ (fun b r' => ⟨r', .program role (.done b), ws⟩)
      (p.run answer r) := by
  induction p generalizing r with
  | done => exact .ok rfl
  | halt h => exact .inl ⟨0, role, rfl⟩
  | read k ih => exact .step' (ih _ _)
  | service f k ih => exact .step' (ih _)
  | command c k ih =>
    rw [Program.run_command]
    have hs : svc.step ⟨r, .program role (.command c k), ws⟩ =
        match c.danglingIn r.engine with
        | some h => ⟨r, .program role (.halt h), ws⟩
        | none => ⟨⟨(c.run r.engine).2, r.service⟩, .program role (k (c.run r.engine).1), ws⟩ := rfl
    apply Leads.step'
    rw [hs]
    cases c.danglingIn r.engine with
    | some h => exact .inl ⟨0, role, rfl⟩
    | none => exact ih _
  | request c q k ih => exact .bind (H ..) fun a r' _ => ih a

theorem leads_releaseAll (H : Answers svc α n answer) (hk : k ≤ n) :
    Leads svc k ⟨r, .stage (.release call o pending), ws⟩
      (fun _ r' => ⟨r', .stage (.release call o []), ws⟩) (svc.releaseAll answer k pending r) := by
  induction k generalizing r pending with
  | zero =>
    cases pending with
    | nil => exact .ok rfl
    | cons i rest =>
      exact .inr ⟨rfl, 0, Nat.le_refl _, by rintro (⟨a, h⟩ | ⟨h, role, h'⟩) <;> cases ‹_›⟩
  | succ k ih =>
    cases pending with
    | nil => exact .ok rfl
    | cons i rest =>
      apply Leads.step
      have hs : svc.step (α := α) ⟨r, .stage (.release call o (i :: rest)), ws⟩ =
          ⟨⟨(r.engine.release i).2, r.service⟩,
            .stage (if (r.engine.release i).1 then .resume call o i rest
              else .release call o rest), ws⟩ := rfl
      rw [hs, releaseAll_cons]
      cases (r.engine.release i).1 with
      | false => exact ih (by omega)
      | true =>
        apply Leads.step'
        refine .bind ((leads_program H (.resume call o i rest) _).weaken (by omega)) ?_
        intro result r' _
        exact .step' (ih (by omega))

theorem leads_finish (H : Answers svc α n answer) {members : MemberTable} :
    Leads svc n ⟨r, .program (.elaborate call p i) (.done (.ok members)), ws⟩
      (fun _ r' => ⟨r', .stage (.release call ⟨i, .ok i⟩ []), ws⟩)
      (svc.finish answer n call.request i members r) := by
  apply Leads.step'
  rw [finish_apply]
  have hs : svc.step (α := α)
        ⟨r, .program (.elaborate call p i) (.done (.ok members)), ws⟩ =
      let e := r.engine.complete i members
      let (waiting, e) := if e.isComplete i then e.takeDeferred i else ([], e)
      ⟨⟨e, (svc.splice call.request members r.service).2⟩,
        .stage (.release call ⟨i, .ok i⟩ waiting.reverse), ws⟩ := rfl
  rw [hs]
  dsimp only
  cases (r.engine.complete i members).isComplete i with
  | true => exact leads_releaseAll H (Nat.le_refl _)
  | false => exact .ok rfl

theorem leads_elaborateNew (H : Answers svc α n answer) :
    Leads svc n ⟨r, .stage (.openScope call p i), ws⟩
      (fun a r' => ⟨r', .stage (.release call ⟨i, a⟩ []), ws⟩)
      (svc.elaborateNew answer n call.chain call.request p i r) := by
  apply Leads.step'
  apply Leads.step'
  have hopen : Leads svc n (svc.step (svc.step ⟨r, .stage (.openScope call p i), ws⟩))
      (fun _ r' => ⟨r', .program (.elaborate call p i)
        (svc.elaborate (Engine.frameOf call.request p i :: call.chain) i), ws⟩)
      (svc.openParams i p r) := .ok rfl
  refine .bind hopen fun _ r₁ _ => .bind (leads_program H _ _) fun result r₂ _ => ?_
  cases result with
  | ok members =>
    refine .bind (leads_finish H) fun _ r₃ _ => ?_
    exact ⟨0, rfl⟩
  | error f =>
    generalize hf : r₂.engine.fail (svc.symbolName r₂.service) i f.message call.request.span
      call.chain = failed
    have hs : svc.step (α := α) ⟨r₂, .program (.elaborate call p i) (.done (.error f)), ws⟩ =
        ⟨⟨(failed.2.takeDeferred i).2, r₂.service⟩,
          .stage (.release call ⟨i, .error failed.1⟩ (failed.2.takeDeferred i).1.reverse), ws⟩ := by
      rw [← hf]; rfl
    have hx : svc.named (fun names e => e.fail names i f.message call.request.span call.chain) r₂ =
        .ok (failed.1, ⟨failed.2, r₂.service⟩) := by
      rw [← hf]; rfl
    apply Leads.step'
    rw [hs]
    refine .bind_ok hx (.bind ?_ fun _ _ _ => ⟨0, rfl⟩)
    rw [releaseDeferred_apply]
    exact leads_releaseAll H (Nat.le_refl _)

theorem carryOut_apply :
    svc.carryOut answer n call.chain call.request p r =
      match r.engine.answer? (svc.symbolName r.service) call.request call.chain p with
      | some (a, e) => .ok (a, ⟨e, r.service⟩)
      | none =>
        let (i, e) := r.engine.create call.request call.chain p
        svc.elaborateNew answer n call.chain call.request p i ⟨e, r.service⟩ := by
  conv => lhs; unfold carryOut
  change (match r.engine.answer? (svc.symbolName r.service) call.request call.chain p with
    | some (_, _) => _ | none => _ : RunM σ _) r = _
  cases r.engine.answer? (svc.symbolName r.service) call.request call.chain p <;> rfl

theorem handle_apply :
    svc.handle answer n call.chain call.request r =
      let e := r.engine.countRequest
      let (resolved, s) := svc.resolveRequest call.request r.service
      match resolved with
      | .error err => svc.named (fun names e => e.reject names err call.chain) ⟨e, s⟩
      | .ok resolved =>
        let d := call.request.decl.index
        if e.decls.size ≤ d then .error (.dangling e.decls.size d)
        else
          let (plan, s) := e.plan svc.toSemantics call.request resolved s
          match plan with
          | .error err => svc.named (fun names e => e.reject names err call.chain) ⟨e, s⟩
          | .ok p => svc.carryOut answer n call.chain call.request p ⟨e, s⟩ := by
  unfold handle
  rcases h : svc.resolveRequest call.request r.service with ⟨resolved, s⟩
  simp only [RunM.bind_engine, RunM.bind_service, h]
  cases resolved with
  | error err => rfl
  | ok resolved =>
    simp only [RunM.bind_get]
    split
    · rfl
    · simp only [RunM.bind_service]
      rcases r.engine.countRequest.plan svc.toSemantics call.request resolved s with ⟨plan, s⟩
      cases plan <;> rfl

theorem leads_carryOut (H : Answers svc α n answer) :
    Leads svc n (svc.carryOutStep r (w :: ws) call p)
      (fun a r' => giveAnswer r' call a (w :: ws))
      (svc.carryOut answer n call.chain call.request p r) := by
  rw [carryOut_apply, carryOutStep]
  cases r.engine.answer? (svc.symbolName r.service) call.request call.chain p with
  | some ae => exact .ok rfl
  | none =>
    let (i, e) := r.engine.create call.request call.chain p
    exact (leads_elaborateNew (r := ⟨e, r.service⟩) H).next fun _ _ => rfl

theorem leads_handle (H : Answers svc α n answer) (call : Call) (w : Waiting σ α)
    (ws : List (Waiting σ α)) (r : Run σ) :
    Leads svc n ⟨⟨r.engine.countRequest, r.service⟩, .stage (.resolve call), w :: ws⟩
      (fun a r' => giveAnswer r' call a (w :: ws))
      (svc.handle answer n call.chain call.request r) := by
  apply Leads.step'
  rw [handle_apply]
  unfold step stepStage
  dsimp only
  rcases svc.resolveRequest call.request r.service with ⟨resolved, s⟩
  cases resolved with
  | error err => exact .ok rfl
  | ok resolved =>
    dsimp only
    split
    · exact .inl ⟨0, w.role, rfl⟩
    · apply Leads.step'
      unfold step stepStage
      dsimp only
      rcases r.engine.countRequest.plan svc.toSemantics call.request resolved s with ⟨plan, s'⟩
      cases plan with
      | error err => exact .ok rfl
      | ok p => exact leads_carryOut (r := ⟨r.engine.countRequest, s'⟩) H

theorem answers_respond (H : Answers svc α n answer) :
    Answers svc α (n + 1) (svc.respond answer n) := by
  intro role c q next ws r
  apply Leads.step
  unfold respond step stepProgram openCall
  dsimp only
  cases q.gagged with
  | false => exact leads_handle H ⟨c, q, none⟩ ⟨role, next⟩ ws r
  | true =>
    let opened := Command.run r.engine .pushGag
    have h := leads_handle H ⟨c, q, some opened.1⟩ ⟨role, next⟩ ws ⟨opened.2, r.service⟩
    exact h.bind (f := fun a => do
      let _ ← RunM.engine fun e => Command.run e (.popGag opened.1)
      pure a) fun _ _ _ => ⟨0, rfl⟩

theorem answers_instantiate : Answers svc α n (svc.instantiate n) := by
  induction n with
  | zero =>
    intro role c q next ws r
    refine .inr ⟨rfl, 0, Nat.le_refl _, ?_⟩
    rintro (⟨a, h⟩ | ⟨h, role', h'⟩)
    · cases role <;> cases h
    · cases role <;> cases h'
  | succ n ih => exact answers_respond ih

theorem leads_run (svc : Service σ) (n : Nat) (p : Program σ α) (r : Run σ) :
    Leads svc n (.start p r) .finish (svc.run n p r) :=
  leads_program answers_instantiate .client p

/-- **Steps and runs.** With enough fuel a run of the client ends with a result exactly if the
steps lead there. -/
theorem run_eq_ok_iff {p : Program σ α} {r r' : Run σ} {a : α} :
    (∃ n, svc.run n p r = .ok (a, r')) ↔ ∃ n, svc.after n (.start p r) = .finish a r' := by
  constructor
  · rintro ⟨n, hn⟩
    have h := leads_run svc n p r
    rwa [hn] at h
  · rintro ⟨n, hn⟩
    have hended : (svc.after n (.start p r)).Ended := hn ▸ .inl ⟨a, rfl⟩
    have stays : ∀ k, (svc.after k (.start p r)).Ended →
        svc.after k (.start p r) = .finish a r' := by
      intro k hk
      rw [← hn]
      rcases Nat.le_total k n with h | h
      · exact (after_eq_of_ended hk h).symm
      · exact after_eq_of_ended hended h
    refine ⟨n, ?_⟩
    have h := leads_run svc n p r
    match svc.run n p r, h with
    | .ok (b, r₁), ⟨k, hk⟩ =>
      have h := stays k (hk ▸ .inl ⟨b, rfl⟩)
      rw [hk] at h
      cases h
      rfl
    | .error h, .inl ⟨k, hk⟩ =>
      obtain ⟨role, hc⟩ := stays k (.inr ⟨h, hk⟩) ▸ hk
      cases role <;> cases hc
    | .error h, .inr ⟨_, k, hk, he⟩ =>
      rw [after_eq_of_ended hended hk] at he
      exact absurd hended he

end Service
end Templates
