import Templates.Proofs.Gagging.Marks
import Templates.Proofs.Machine.Activity

/-!
# Gags in a run

A front end that closes the gags it opens, and no others (`Service.Brackets`), leaves every call at
the gag depth at which the call began. `Machine.Bracketed` says so of the calls that nest above a
given program, together with what the marks of speculation say about the instances that they made.
Every step preserves it until the outermost of the calls is answered (`Service.Steps.bracketed`). The
client is free to open and close gags as it likes.
-/

namespace Templates

variable {σ α : Type}

/-- The program closes the gags that it opens and `k` more. -/
def Program.Brackets : Nat → Program σ α → Prop
  | k, .done _ => k = 0
  | _, .halt _ => True
  | k, .read f => ∀ e s, (f e s).Brackets k
  | k, .service _ f => ∀ b, (f b).Brackets k
  | k, .command c f => ∃ k', c.gagsAfter k = some k' ∧ ∀ r, (f r).Brackets k'
  | k, .request _ _ f => ∀ a, (f a).Brackets k

/-- Every gag that the front end opens for an instance is closed before it is done with it. -/
structure Service.Brackets (svc : Service σ) : Prop where
  elaborate (c : Chain) (i : InstanceId) : (svc.elaborate c i).Brackets 0
  resume (i : InstanceId) : (svc.resume i).Brackets 0

/-- The gag depth inside a call that was made at depth `d`. -/
def Call.depth (call : Call) (d : Nat) : Nat := d + if call.mark.isSome then 1 else 0

/-- The call that a program runs for, and the instance that the call made. -/
def Role.made? : Role → Option (Call × InstanceId)
  | .client => none
  | .elaborate call _ i => some (call, i)
  | .resume call o _ _ => some (call, o.inst)

/-- The instance that the call has made. -/
def Stage.made? : Stage → Option InstanceId
  | .resolve _ | .plan .. => none
  | .openScope _ _ i | .elaborate _ _ i => some i
  | .release _ o _ | .resume _ o _ _ => some o.inst

/-- The programs `ws` wait, the innermost of them for `call`, which it made at gag depth `d`. They run
above the program `w₀`, which waits for `call₀` and made it at depth `d₀`. -/
inductive Waiting.Bracketed (e : Engine) (call₀ : Call) (d₀ : Nat) (w₀ : Waiting σ α)
    (ws₀ : List (Waiting σ α)) : Call → Nat → List (Waiting σ α) → Prop
  | base : Bracketed e call₀ d₀ w₀ ws₀ call₀ d₀ (w₀ :: ws₀)
  | above {d k : Nat} {w : Waiting σ α} {ws : List (Waiting σ α)} {call call' : Call}
    {i : InstanceId} : w.role.made? = some (call, i) → Bracketed e call₀ d₀ w₀ ws₀ call d ws →
    e.MadeAt (call.depth d) i → (∀ a, (w.next a).Brackets k) →
    Bracketed e call₀ d₀ w₀ ws₀ call' (call.depth d + k) (w :: ws)

/-- What goes on, goes on for the call `call₀` or inside it. -/
inductive Machine.Bracketed (call₀ : Call) (d₀ : Nat) (w₀ : Waiting σ α)
    (ws₀ : List (Waiting σ α)) : Machine σ α → Prop
  | program {r : Run σ} {role : Role} {p : Program σ (role.Result α)} {ws : List (Waiting σ α)}
    {call : Call} {i : InstanceId} {d k : Nat} : role.made? = some (call, i) →
    Waiting.Bracketed r.engine call₀ d₀ w₀ ws₀ call d ws → r.engine.MadeAt (call.depth d) i →
    p.Brackets k → r.engine.queue.gagDepth = call.depth d + k →
    Bracketed call₀ d₀ w₀ ws₀ ⟨r, .program role p, ws⟩
  | stage {r : Run σ} {s : Stage} {ws : List (Waiting σ α)} {d : Nat} :
    Waiting.Bracketed r.engine call₀ d₀ w₀ ws₀ s.call d ws →
    (∀ i, s.made? = some i → r.engine.MadeAt (s.call.depth d) i) →
    r.engine.queue.gagDepth = s.call.depth d → Bracketed call₀ d₀ w₀ ws₀ ⟨r, .stage s, ws⟩

variable {call₀ call : Call} {d₀ d : Nat} {w₀ : Waiting σ α} {ws₀ ws : List (Waiting σ α)}
  {e e' : Engine} {i : InstanceId}

theorem le_depth (call : Call) (d : Nat) : d ≤ call.depth d := Nat.le_add_right ..

namespace Waiting.Bracketed

theorem of_gagged? (H : Bracketed e call₀ d₀ w₀ ws₀ call d ws)
    (h : ∀ i, e'.gagged? i = e.gagged? i) : Bracketed e' call₀ d₀ w₀ ws₀ call d ws := by
  induction H with
  | base => exact .base
  | above hw _ hi hk ih => exact .above hw ih (hi.of_gagged? h) hk

theorem marks (H : Bracketed e call₀ d₀ w₀ ws₀ call d ws) (h : e.Marks e')
    (hd : d ≤ e.queue.gagDepth) : Bracketed e' call₀ d₀ w₀ ws₀ call d ws := by
  induction H with
  | base => exact .base
  | above hw _ hi hk ih =>
    refine .above hw (ih ?_) (hi.marks h ?_) hk <;> simp only [Call.depth] at hd ⊢ <;> omega

/-- No fewer programs wait than `w₀` and those outside it. -/
theorem exists_append (H : Bracketed e call₀ d₀ w₀ ws₀ call d ws) :
    ∃ inner, ws = inner ++ w₀ :: ws₀ := by
  induction H with
  | base => exact ⟨[], rfl⟩
  | @above _ _ w _ _ _ _ _ _ _ _ ih =>
    obtain ⟨inner, rfl⟩ := ih
    exact ⟨w :: inner, rfl⟩

/-- When no other program runs above `w₀`, it is the one that waits for the call. -/
theorem eq_base (H : Bracketed e call₀ d₀ w₀ ws₀ call d (w₀ :: ws₀)) : call = call₀ ∧ d = d₀ := by
  cases H with
  | base => exact ⟨rfl, rfl⟩
  | above _ H =>
    obtain ⟨inner, h⟩ := H.exists_append
    have := congrArg List.length h
    simp at this
    omega

/-- What is known of the calls further out. -/
theorem madeAt_of_mem (H : Bracketed e call₀ d₀ w₀ ws₀ call d ws) {w : Waiting σ α} {call' : Call}
    (hw : w ∈ ws) (hm : w.role.made? = some (call', i)) :
    w ∈ w₀ :: ws₀ ∨ ∃ d' ≤ d, e.MadeAt d' i := by
  induction H with
  | base => exact .inl hw
  | @above d k _ _ call _ _ hw' _ hi _ ih =>
    obtain rfl | hw := List.mem_cons.mp hw
    · rw [hw'] at hm
      cases hm
      exact .inr ⟨_, Nat.le_add_right .., hi⟩
    · refine (ih hw).imp_right fun ⟨d', hd', h⟩ => ⟨d', hd'.trans ?_, h⟩
      exact (le_depth call d).trans (Nat.le_add_right ..)

end Waiting.Bracketed

namespace Machine.Bracketed

variable {r : Run σ} {role : Role}

/-- A program that is done has closed its gags. -/
theorem madeAt_done {b : role.Result α} (hrole : role.made? = some (call, i))
    (H : Bracketed call₀ d₀ w₀ ws₀ ⟨r, .program role (.done b), ws⟩) :
    r.engine.MadeAt r.engine.queue.gagDepth i := by
  cases H with
  | program hrole' _ hi hp hd =>
    rw [hrole'] at hrole
    cases hrole
    cases hp
    exact hd ▸ hi

end Machine.Bracketed

namespace Service

variable {svc : Service σ} {r : Run σ} {c : Control σ α} {m : Machine σ α} {s : σ} {role : Role}
  {k : Nat}

/-- A call was answered or has halted the program that waited for it. -/
inductive Returned (w₀ : Waiting σ α) (ws₀ : List (Waiting σ α)) : Machine σ α → Prop
  | intro {r : Run σ} {p : Program σ (w₀.role.Result α)} :
    Returned w₀ ws₀ ⟨r, .program w₀.role p, ws₀⟩

theorem gagDepth_closeGag (h : e.queue.gagDepth = call.depth d) :
    (closeGag e call.mark).queue.gagDepth = d := by
  unfold closeGag Call.depth at *
  cases hm : call.mark with
  | none => simpa [hm] using h
  | some mark =>
    change e.queue.gagDepth - 1 = d
    simp only [hm, Option.isSome_some, if_true] at h
    omega

theorem gagged?_closeGag (e : Engine) (mark : Option GagMark) (i : InstanceId) :
    (closeGag e mark).gagged? i = e.gagged? i := by
  cases mark <;> rfl

section

variable (H : Waiting.Bracketed r.engine call₀ d₀ w₀ ws₀ call d ws)
  (hd : r.engine.queue.gagDepth = call.depth d)

include H hd

theorem giveAnswer_bracketed (h : r.engine.Marks e) {a : Except TemplateError InstanceId} :
    (giveAnswer ⟨e, s⟩ call a ws).Bracketed call₀ d₀ w₀ ws₀ ∨
      Returned w₀ ws₀ (giveAnswer ⟨e, s⟩ call a ws) := by
  have hd' : e.queue.gagDepth = call.depth d := h.depth.trans hd
  cases H.marks h (hd ▸ le_depth call d) with
  | base => exact .inr .intro
  | above hw H' hi hk =>
    refine .inl (.program hw (H'.of_gagged? (gagged?_closeGag e _))
      (hi.of_gagged? (gagged?_closeGag e _)) (hk a) (gagDepth_closeGag hd'))

theorem haltAsker_bracketed {h : Halt} :
    (haltAsker ⟨r.engine, s⟩ h ws).Bracketed call₀ d₀ w₀ ws₀ ∨
      Returned w₀ ws₀ (haltAsker ⟨r.engine, s⟩ h ws) := by
  cases H with
  | base => exact .inr .intro
  | @above d' k w ws call' _ i hw H' hi hk =>
    -- A program that has halted stays where it is, with a gag of the call left open perhaps.
    refine .inl (.program (k := k + if call.mark.isSome then 1 else 0) hw H' hi trivial ?_)
    rw [hd]
    exact Nat.add_assoc ..

/-- The engine goes on with a call. -/
theorem stage_bracketed (h : r.engine.Marks e) {s' : Stage} (hs : s'.call = call)
    (hi : ∀ i, s'.made? = some i → r.engine.MadeAt (call.depth d) i) :
    (⟨⟨e, s⟩, .stage s', ws⟩ : Machine σ α).Bracketed call₀ d₀ w₀ ws₀ := by
  subst hs
  exact .stage (H.marks h (hd ▸ le_depth _ d)) (fun i hs => (hi i hs).marks h hd.ge)
    (h.depth.trans hd)

/-- The program that was run for a call is done, with every gag closed. -/
theorem ended_bracketed (h : r.engine.Marks e) {s' : Stage} (hs : s'.call = call)
    (hi : r.engine.MadeAt (call.depth d) i) (hi' : s'.made? = some i) :
    (⟨⟨e, s⟩, .stage s', ws⟩ : Machine σ α).Bracketed call₀ d₀ w₀ ws₀ :=
  stage_bracketed H hd h hs fun _ hj => Option.some.inj (hi'.symm.trans hj) ▸ hi

end

theorem gagDepth_opened (e : Engine) (c : Chain) (q : Request) :
    (e.opened q).queue.gagDepth = (Call.opened e c q).depth e.queue.gagDepth := by
  unfold Call.opened
  obtain ⟨hg, h⟩ | ⟨hg, h⟩ := e.opened_cases q <;> rw [h, hg] <;> rfl

theorem openCall_bracketed {q : Request} {chain : Chain}
    (H : Waiting.Bracketed r.engine call₀ d₀ w₀ ws₀ (.opened r.engine chain q)
      r.engine.queue.gagDepth ws) : (openCall r chain q ws).Bracketed call₀ d₀ w₀ ws₀ := by
  rw [openCall_eq]
  exact .stage (H.of_gagged? (Engine.gagged?_congr (r.engine.insts_opened q))) nofun
    (gagDepth_opened ..)

/-- Gags are closed in the order in which they were opened, until the call of `w₀` is over. -/
theorem Steps.bracketed (hsvc : svc.Brackets)
    (H : (⟨r, c, ws⟩ : Machine σ α).Bracketed call₀ d₀ w₀ ws₀) (h : svc.Steps r ws c m) :
    m.Bracketed call₀ d₀ w₀ ws₀ ∨ Returned w₀ ws₀ m := by
  cases H with
  | @stage _ _ _ d H hi hd =>
    cases h with
    | unresolved | refuse => exact giveAnswer_bracketed H hd (Engine.reject_marks _)
    | undeclared => exact haltAsker_bracketed H hd
    | resolve => exact .inl (stage_bracketed H hd (.refl _) rfl nofun)
    | answer _ ha => exact giveAnswer_bracketed H hd (Engine.answer?_marks ha)
    | @create call _ p =>
      have hm : r.engine.Marks (r.engine.create call.request call.chain p).2 :=
        Engine.create_marks
      refine .inl (.stage (H.marks hm (hd ▸ le_depth _ d)) ?_ (hm.depth.trans hd))
      rintro _ ⟨⟩
      exact hd ▸ .create
    | openScope =>
      refine .inl (stage_bracketed H hd (.modifyInst ?_) rfl hi)
      exact fun _ => rfl
    | elaborate => exact .inl (.program rfl H (hi _ rfl) (hsvc.elaborate _ _) hd)
    | finish => exact giveAnswer_bracketed H hd (.refl _)
    | release | wake => exact .inl (stage_bracketed H hd (Engine.release_marks _) rfl hi)
    | resume => exact .inl (.program rfl H (hi _ rfl) (hsvc.resume _) hd)
  | @program _ _ p _ call i d k hrole H hi hp hd =>
    cases h with
    | done => cases hrole
    | suspend =>
      cases hrole
      cases hp
      exact .inl (ended_bracketed H hd (Engine.complete_marks ..) rfl hi rfl)
    | complete =>
      cases hrole
      cases hp
      exact .inl (ended_bracketed H hd (.takeDeferred (Engine.complete_marks ..) _) rfl hi rfl)
    | fail hf =>
      cases hrole
      cases hp
      obtain rfl := congrArg Prod.snd hf
      exact .inl (ended_bracketed H hd (.takeDeferred (Engine.fail_marks ..) _) rfl hi rfl)
    | settle hs =>
      cases hrole
      cases hp
      subst hs
      exact .inl (ended_bracketed H hd (.takeDeferred (Engine.settle_marks ..) _) rfl hi rfl)
    | halt => exact .inl (.program hrole H hi hp hd)
    | dangling => exact .inl (.program hrole H hi trivial hd)
    | read => exact .inl (.program hrole H hi (hp _ _) hd)
    | service => exact .inl (.program hrole H hi (hp _) hd)
    | @command _ c =>
      obtain ⟨k', hk, hp⟩ := hp
      exact .inl (.program hrole (H.of_gagged? c.gagged?_run) (hi.of_gagged? c.gagged?_run) (hp _)
        (c.gagDepth_run hd hk))
    | request => exact .inl (openCall_bracketed (hd ▸ .above hrole H hi hp))

/-- In a step a gag is opened or closed, or marks change as they do with the gags that are open. -/
theorem Steps.marks (h : svc.Steps r ws c m) :
    ∃ e, r.engine.Marks e ∧ ∀ i, m.engine.gagged? i = e.gagged? i := by
  have hanswer {e : Engine} {s : σ} {call : Call} {a : Except TemplateError InstanceId}
      (h : r.engine.Marks e) : ∃ e', r.engine.Marks e' ∧
        ∀ i, (giveAnswer ⟨e, s⟩ call a ws).engine.gagged? i = e'.gagged? i := by
    refine ⟨e, h, fun i => ?_⟩
    cases ws with
    | nil => rfl
    | cons w ws => exact gagged?_closeGag e call.mark i
  have hmarks {e : Engine} (h : r.engine.Marks e) :
      ∃ e', r.engine.Marks e' ∧ ∀ i, e.gagged? i = e'.gagged? i := ⟨e, h, fun _ => rfl⟩
  cases h with
  | unresolved | refuse => exact hanswer (Engine.reject_marks _)
  | answer _ ha => exact hanswer (Engine.answer?_marks ha)
  | undeclared => cases ws <;> exact hmarks (.refl _)
  | create => exact hmarks Engine.create_marks
  | openScope =>
    refine hmarks (.modifyInst ?_)
    exact fun _ => rfl
  | finish => exact hanswer (.refl _)
  | release | wake => exact hmarks (Engine.release_marks _)
  | suspend => exact hmarks (Engine.complete_marks ..)
  | complete => exact hmarks (.takeDeferred (Engine.complete_marks ..) _)
  | fail hf =>
    obtain rfl := congrArg Prod.snd hf
    exact hmarks (.takeDeferred (Engine.fail_marks ..) _)
  | settle hs =>
    subst hs
    exact hmarks (.takeDeferred (Engine.settle_marks ..) _)
  | command => exact ⟨_, .refl _, Command.gagged?_run _⟩
  | @request _ c q =>
    rw [openCall_eq]
    exact ⟨_, .refl _, Engine.gagged?_congr (r.engine.insts_opened q)⟩
  | resolve | elaborate | resume | done | halt | read | service | dangling | unasked =>
    exact hmarks (.refl _)

/-! ## Runs -/

variable {config : EngineConfig} {s : σ} {p : Program σ α} {n : Nat}

/-- The client runs, or a call of it goes on. -/
theorem bracketed_after (hsvc : svc.Brackets) (n : Nat) :
    (svc.after n (.boot config s p)).AtTop ∨
      ∃ call₀ d₀ next,
        (svc.after n (.boot config s p)).Bracketed call₀ d₀ ⟨.client, next⟩ [] := by
  induction n with
  | zero => exact .inl ⟨rfl, p, rfl⟩
  | succ n ih =>
    rw [after_succ]
    generalize svc.after n (.boot config s p) = m at ih ⊢
    have h : svc.Steps m.run m.waiting m.control (svc.step m) := step_steps m
    generalize svc.step m = m' at h ⊢
    obtain ⟨r, c, ws⟩ := m
    obtain ⟨rfl, p, rfl⟩ | ⟨call₀, d₀, next, H⟩ := ih
    · cases h with
      | request => exact .inr ⟨_, _, _, openCall_bracketed .base⟩
      | done | halt | read | service | dangling | command => exact .inl ⟨rfl, _, rfl⟩
    · obtain H | @⟨r, p⟩ := h.bracketed hsvc H
      · exact .inr ⟨call₀, d₀, next, H⟩
      · exact .inl ⟨rfl, p, rfl⟩

end Service

end Templates
