import Templates.Proofs.Flattening.Machine
import Templates.Proofs.Machine.Making

/-!
# Sequences at the place of use

A request for arguments with sequences and the request for their leaves resolve to the same, have the
same plan, and are carried out in the same way (`Service.flattens`). Only the error of a chain that is
too deep shows the arguments as they were written.
-/

namespace Templates

variable {σ α : Type}

namespace Service

variable {svc : Service σ} {r : Run σ} {ws : List (Waiting σ α)} {call : Call}

/-! ## The first steps of a call -/

section

variable {chain : Chain} {resolved : List Arg}

theorem openCall_flat_request (r : Run σ) (chain : Chain) (q : Request) (ws : List (Waiting σ α)) :
    openCall r chain q.flat ws = ⟨⟨r.engine.opened q, r.service⟩,
      .stage (.resolve (Call.opened r.engine chain q).flat), ws⟩ := openCall_eq ..

/-- A call with its sequences spliced resolves as it does with them, and then it is planned or comes to
its end. -/
theorem step_resolve_flat (svc : Service σ) (r : Run σ) (call : Call) (ws : List (Waiting σ α)) :
    (∃ s resolved, svc.step (⟨r, .stage (.resolve call), ws⟩ : Machine σ α) =
        ⟨⟨r.engine, s⟩, .stage (.plan call resolved), ws⟩ ∧
      svc.step (⟨r, .stage (.resolve call.flat), ws⟩ : Machine σ α) =
        ⟨⟨r.engine, s⟩, .stage (.plan call.flat resolved), ws⟩) ∨
    svc.step (⟨r, .stage (.resolve call.flat), ws⟩ : Machine σ α) =
        svc.step ⟨r, .stage (.resolve call), ws⟩ ∧
      ∀ call' resolved, (svc.step (⟨r, .stage (.resolve call), ws⟩ : Machine σ α)).control ≠
        .stage (.plan call' resolved) := by
  have hresolve : svc.resolveRequest call.flat.request = svc.resolveRequest call.request :=
    svc.resolveRequest_flat call.request
  rw [step_resolve, step_resolve, hresolve]
  rcases svc.resolveRequest call.request r.service with ⟨err | resolved, s⟩
  · refine .inr ⟨rfl, fun call' resolved h => ?_⟩
    cases ws <;> cases h
  · have hdecl : call.flat.request.decl = call.request.decl := rfl
    dsimp only
    rw [hdecl]
    split
    · refine .inr ⟨rfl, fun call' resolved h => ?_⟩
      cases ws <;> cases h
    · exact .inl ⟨s, resolved, rfl, rfl⟩

/-- The call that is planned needs a new instance, and its chain is too deep for one. -/
def TooDeep (svc : Service σ) (m : Machine σ α) : Prop :=
  ∃ call p, svc.Planning m call p ∧ m.engine.TooDeep call.chain p

/-- A call with its sequences spliced is carried out as it is with them. -/
theorem step_plan_flat_request (call : Call)
    (h : ¬svc.TooDeep (⟨r, .stage (.plan call resolved), ws⟩ : Machine σ α)) :
    (svc.step (⟨r, .stage (.plan call.flat resolved), ws⟩ : Machine σ α)).flatPlanned =
      (svc.step ⟨r, .stage (.plan call resolved), ws⟩).flatPlanned := by
  have hplan : r.engine.plan svc.toSemantics call.flat.request resolved =
      r.engine.plan svc.toSemantics call.request resolved :=
    r.engine.plan_flat_request svc.toSemantics call.request resolved
  rw [step_plan, step_plan, hplan]
  rcases hp : r.engine.plan svc.toSemantics call.request resolved r.service with ⟨err | p, s⟩
  · rfl
  · have hdeep : ¬r.engine.TooDeep call.chain p := fun hd => h ⟨call, p, ⟨resolved, s, rfl, hp⟩, hd⟩
    have hanswer : r.engine.answer? (svc.symbolName s) call.flat.request call.flat.chain p =
        r.engine.answer? (svc.symbolName s) call.request call.chain p :=
      Engine.answer?_flat_request hdeep
    dsimp only
    cases ha : r.engine.answer? (svc.symbolName s) call.request call.chain p with
    | some answer =>
      rw [carryOutStep_of_some (hanswer.trans ha), carryOutStep_of_some ha]
      rfl
    | none =>
      rw [carryOutStep_of_none (hanswer.trans ha), carryOutStep_of_none ha]
      have hcreate : (r.engine.create call.flat.request call.flat.chain p).2.flat =
          (r.engine.create call.request call.chain p).2.flat := r.engine.flat_create_request
      unfold Machine.flatPlanned Machine.flatWith Run.flat
      dsimp only
      rw [hcreate]
      exact congrArg (fun call => (⟨_, .stage (.openScope call p _), _⟩ : Machine σ α)) call.flat_flat

/-- The call is answered with the error that its chain is too deep, which is reported. -/
def cutShort (svc : Service σ) (e : Engine) (s : σ) (call : Call) (ws : List (Waiting σ α)) :
    Machine σ α :=
  let err := e.tooDeep (svc.symbolName s) call.request
  giveAnswer ⟨e.report (svc.symbolName s) err call.chain, s⟩ call (.error err) ws

theorem step_plan_of_tooDeep {p : Plan} {s : σ}
    (hplan : r.engine.plan svc.toSemantics call.request resolved r.service = (.ok p, s))
    (hdeep : r.engine.TooDeep call.chain p) :
    svc.step (⟨r, .stage (.plan call resolved), ws⟩ : Machine σ α) =
      svc.cutShort r.engine s call ws := by
  rw [step_plan, hplan]
  exact carryOutStep_of_some hdeep.answer?_eq

/-- So is the call with its sequences spliced. -/
theorem TooDeep.step_eq (h : svc.TooDeep (⟨r, .stage (.plan call resolved), ws⟩ : Machine σ α)) :
    ∃ s, svc.step (⟨r, .stage (.plan call resolved), ws⟩ : Machine σ α) =
        svc.cutShort r.engine s call ws ∧
      svc.step (⟨r, .stage (.plan call.flat resolved), ws⟩ : Machine σ α) =
        svc.cutShort r.engine s call.flat ws := by
  obtain ⟨_, p, ⟨_, s, hc, hplan⟩, hdeep⟩ := h
  cases hc
  have hflat : r.engine.plan svc.toSemantics call.flat.request resolved r.service = (.ok p, s) :=
    (congrFun (r.engine.plan_flat_request svc.toSemantics call.request resolved) _).trans hplan
  exact ⟨s, step_plan_of_tooDeep hplan hdeep, step_plan_of_tooDeep hflat hdeep⟩

end

/-! ## Requests -/

/-- What is known of the call of a request, and of the call of the request with its sequences spliced,
while the programs `ws` wait. -/
structure Flattens (svc : Service σ) (r : Run σ) (c : Chain) (q : Request)
    (ws : List (Waiting σ α)) : Prop where
  /-- The arguments resolve as their leaves do. -/
  resolve : svc.resolveRequest q.flat = svc.resolveRequest q
  /-- They resolve to what their leaves resolve to, in order. -/
  leaves {s s' : σ} {xs : List Arg} : svc.resolveArgs q.scope q.args s = (.ok xs, s') ↔
    svc.Resolves q.scope q.flat.args s xs s'
  /-- No sequence is left. -/
  isLeaf {s s' : σ} {xs : List Arg} : svc.resolveRequest q s = (.ok xs, s') →
    ∀ x ∈ xs, x.isLeaf = true
  /-- Until the call is carried out the machines are the same but for what is written. -/
  begun {n : Nat} : n < 2 →
    (svc.after n (openCall r c q.flat ws)).flat = (svc.after n (openCall r c q ws)).flat
  /-- They stay so, unless the chain is too deep, if no program depends on the sequences that are
  written. -/
  same : svc.Blind → (∀ w ∈ ws, ∀ a, (w.next a).Blind) →
    ¬svc.TooDeep (svc.after 1 (openCall r c q ws)) → ∀ n,
      (svc.after n (openCall r c q.flat ws)).flat = (svc.after n (openCall r c q ws)).flat
  /-- If the chain is too deep both calls are answered with an error that says so and shows what was
  written. -/
  tooDeep : svc.TooDeep (svc.after 1 (openCall r c q ws)) → ∃ s mark,
    svc.after 2 (openCall r c q ws) =
      svc.cutShort (svc.after 1 (openCall r c q ws)).engine s ⟨c, q, mark⟩ ws ∧
    svc.after 2 (openCall r c q.flat ws) =
      svc.cutShort (svc.after 1 (openCall r c q ws)).engine s ⟨c, q.flat, mark⟩ ws
  /-- The reports leave the same engine but for messages, if both are kept or none is. -/
  wordless {e : Engine} {names : SymbolId → String} :
    e.keepsReport names (e.tooDeep names q.flat) c = e.keepsReport names (e.tooDeep names q) c →
    (e.report names (e.tooDeep names q.flat) c).wordless =
      (e.report names (e.tooDeep names q) c).wordless
  /-- So it is if repetitions are not dropped, inside gags, and over the limit of errors. -/
  kept {e : Engine} {names : SymbolId → String} : e.queue.config.deduplicate = false ∨
      e.queue.isGagged = true ∨ e.queue.limitReached = true →
    e.keepsReport names (e.tooDeep names q.flat) c = e.keepsReport names (e.tooDeep names q) c

section

variable (svc) (r : Run σ) (c : Chain) (q : Request) (ws : List (Waiting σ α))

/-- After a step the call has come to its end or is about to be planned. -/
theorem after_one_flat :
    (∃ e s mark resolved,
      svc.after 1 (openCall r c q ws) = ⟨⟨e, s⟩, .stage (.plan ⟨c, q, mark⟩ resolved), ws⟩ ∧
      svc.after 1 (openCall r c q.flat ws) =
        ⟨⟨e, s⟩, .stage (.plan ⟨c, q.flat, mark⟩ resolved), ws⟩) ∨
    svc.after 1 (openCall r c q.flat ws) = svc.after 1 (openCall r c q ws) ∧
      ∀ call resolved, (svc.after 1 (openCall r c q ws)).control ≠ .stage (.plan call resolved) := by
  have hone (m : Machine σ α) : svc.after 1 m = svc.step m := rfl
  rw [hone, hone, openCall_flat_request, openCall_eq]
  obtain ⟨s, resolved, hstep, hflat⟩ | h :=
    step_resolve_flat svc ⟨r.engine.opened q, r.service⟩ (.opened r.engine c q) ws
  · exact .inl ⟨_, s, _, resolved, hstep, hflat⟩
  · exact .inr h

theorem flat_after_of_lt {n : Nat} (hn : n < 2) :
    (svc.after n (openCall r c q.flat ws)).flat = (svc.after n (openCall r c q ws)).flat := by
  match n with
  | 0 =>
    change (openCall r c q.flat ws).flat = (openCall r c q ws).flat
    rw [openCall_flat_request, openCall_eq]
    exact congrArg (fun call => (⟨_, .stage (.resolve call), _⟩ : Machine σ α)) (Call.flat_flat _)
  | 1 =>
    obtain ⟨e, s, mark, resolved, h, hflat⟩ | ⟨h, -⟩ := after_one_flat svc r c q ws
    · rw [h, hflat]
      exact congrArg (fun call => (⟨_, .stage (.plan call resolved), _⟩ : Machine σ α))
        (Call.flat_flat ⟨c, q, mark⟩)
    · rw [h]

theorem flat_after (hsvc : svc.Blind) (hws : ∀ w ∈ ws, ∀ a, (w.next a).Blind)
    (h : ¬svc.TooDeep (svc.after 1 (openCall r c q ws))) (n : Nat) :
    (svc.after n (openCall r c q.flat ws)).flat = (svc.after n (openCall r c q ws)).flat := by
  have hblind : (openCall r c q ws).Blind := openCall_blind hws
  have hblind' : (openCall r c q.flat ws).Blind := openCall_blind hws
  by_cases hn : n < 2
  · exact flat_after_of_lt svc r c q ws hn
  obtain ⟨n, rfl⟩ := Nat.exists_eq_add_of_le' (Nat.le_of_not_lt hn)
  have htwo : (svc.after 2 (openCall r c q.flat ws)).flatPlanned =
      (svc.after 2 (openCall r c q ws)).flatPlanned := by
    have hsucc (m : Machine σ α) : svc.after 2 m = svc.step (svc.after 1 m) := after_succ
    rw [hsucc, hsucc]
    obtain ⟨e, s, mark, resolved, hone, hflat⟩ | ⟨hone, -⟩ := after_one_flat svc r c q ws
    · rw [hone] at h ⊢
      rw [hflat]
      exact step_plan_flat_request ⟨c, q, mark⟩ h
    · rw [hone]
  have hlater := flatPlanned_after hsvc (blind_after hsvc hblind' 2) (blind_after hsvc hblind 2) htwo n
  rw [after_after, after_after] at hlater
  rw [Machine.flat, Machine.flat, ← Machine.flatPlanned_flatWith, hlater, Machine.flatPlanned_flatWith]

theorem cutShort_of_tooDeep (h : svc.TooDeep (svc.after 1 (openCall r c q ws))) : ∃ s mark,
    svc.after 2 (openCall r c q ws) =
      svc.cutShort (svc.after 1 (openCall r c q ws)).engine s ⟨c, q, mark⟩ ws ∧
    svc.after 2 (openCall r c q.flat ws) =
      svc.cutShort (svc.after 1 (openCall r c q ws)).engine s ⟨c, q.flat, mark⟩ ws := by
  have hsucc (m : Machine σ α) : svc.after 2 m = svc.step (svc.after 1 m) := after_succ
  rw [hsucc, hsucc]
  obtain ⟨e, s, mark, resolved, hone, hflat⟩ | ⟨-, hnot⟩ := after_one_flat svc r c q ws
  · rw [hone] at h ⊢
    rw [hflat]
    obtain ⟨s', hstep, hstep'⟩ := h.step_eq
    exact ⟨s', mark, hstep, hstep'⟩
  · obtain ⟨call, p, ⟨resolved, s, hc, -⟩, -⟩ := h
    exact absurd hc (hnot call resolved)

/-- **How sequences nest at the place of use does not matter.** -/
theorem flattens : svc.Flattens r c q ws := by
  constructor
  case resolve => exact svc.resolveRequest_flat q
  case leaves => exact Semantics.resolveArgs_eq_ok_iff_flatten
  case isLeaf =>
    intro s s' xs h
    obtain ⟨hargs, -⟩ := Semantics.resolveRequest_eq_ok h
    exact (Semantics.resolveArgs_eq_ok_iff_flatten.mp hargs).isLeaf
  case begun => exact flat_after_of_lt svc r c q ws
  case same => exact flat_after svc r c q ws
  case tooDeep => exact cutShort_of_tooDeep svc r c q ws
  case wordless => exact Engine.wordless_report_tooDeep
  case kept => exact Engine.keepsReport_tooDeep

end

end Service

/-- A front end whose instances have no members. -/
def modest : Service Unit where
  evaluate _ _ := pure (.error ⟨"", {}⟩)
  openScope s := pure s
  declareSymbol _ _ _ := pure ()
  symbolName _ _ := ""
  elaborate _ _ := .done (.ok [])

/-- A front end with which instances fail that were asked for with a sequence. -/
def fussy : Service Unit :=
  { modest with
    elaborate := fun _ i => .read fun e _ => .done <|
      if (((e.inst? i).map (·.supplied)).getD []).all SiteArg.isLeaf then .ok []
      else .error ⟨"", {}⟩ }

theorem modest_blind : modest.Blind := ⟨fun _ _ => trivial, fun _ => trivial⟩

/-- `A(T...)`. -/
def several : Decl := { name := "A", params := [{ name := "T", kind := .tuple }] }

/-- `A!(int)`, with a sequence that holds an empty one around the argument. -/
def nested : Request := { decl := ⟨0⟩, args := [.tuple [.tuple [], .type .int]] }

/-- `A!(int)`, after the template is declared. -/
def askFlat : Program Unit (Except TemplateError InstanceId) :=
  .command (.declare several) fun _ => .request [] nested.flat .done

/-- `A!(int)` was refused, as no chain is short enough. -/
def refusedRun : Run Unit :=
  (modest.after 4 (.boot { recursionLimit := 0, digest := fun _ _ => default } () askFlat)).run

/-- The template is declared. -/
def declaredRun : Run Unit :=
  (modest.after 1 (.boot { digest := fun _ _ => default } () askFlat)).run

/-- The client gives the answer. -/
def asker : List (Waiting Unit (Except TemplateError InstanceId)) := [⟨.client, .done⟩]

theorem asker_blind : ∀ w ∈ asker, ∀ a, (w.next a).Blind := by
  intro w hw a
  cases List.mem_singleton.mp hw
  trivial

/-- The refusal of `A!(int)` is dropped as a repetition, that of the same with sequences is not. And a
front end that looks at the sequences can let the instance fail. -/
theorem nesting_shows : nested.flat.args = [.type .int] ∧
    (modest.after 2 (Service.openCall refusedRun [] nested asker)).engine.queue.errorCount = 2 ∧
    (modest.after 2 (Service.openCall refusedRun [] nested.flat asker)).engine.queue.errorCount = 1 ∧
    (fussy.after 9 (Service.openCall declaredRun [] nested asker)).control =
      .program .client (.done (.error (.memberElaborationFailed ⟨0⟩ "A!(int)" (some "") {}))) ∧
    (fussy.after 9 (Service.openCall declaredRun [] nested.flat asker)).control =
      .program .client (.done (.ok ⟨0⟩)) := by
  exact ⟨rfl, rfl, rfl, rfl, rfl⟩

theorem declared_not_tooDeep :
    ¬modest.TooDeep (modest.after 1 (Service.openCall declaredRun [] nested asker)) := by
  rintro ⟨call, p, ⟨resolved, s, hc, -⟩, hdeep⟩
  cases hc
  exact absurd hdeep.depth (by decide)

theorem refused_tooDeep :
    modest.TooDeep (modest.after 1 (Service.openCall refusedRun [] nested asker)) :=
  ⟨_, _, ⟨_, _, rfl, rfl⟩, rfl, rfl, by decide⟩

/-- The instance is made as without the sequences. Where the chain is too deep, the errors show them,
and one more is kept. -/
theorem flattens_modest : modest.Flattens declaredRun [] nested asker ∧
    (∀ n, (modest.after n (Service.openCall declaredRun [] nested.flat asker)).flat =
      (modest.after n (Service.openCall declaredRun [] nested asker)).flat) ∧
    modest.Flattens refusedRun [] nested asker ∧ ∃ s mark,
      modest.after 2 (Service.openCall refusedRun [] nested asker) = modest.cutShort
        (modest.after 1 (Service.openCall refusedRun [] nested asker)).engine s ⟨[], nested, mark⟩
        asker := by
  have H : modest.Flattens declaredRun [] nested asker := Service.flattens _ declaredRun [] nested asker
  have H' : modest.Flattens refusedRun [] nested asker := Service.flattens _ refusedRun [] nested asker
  obtain ⟨s, mark, h, -⟩ := H'.tooDeep refused_tooDeep
  exact ⟨H, H.same modest_blind asker_blind declared_not_tooDeep, H', s, mark, h⟩

end Templates
