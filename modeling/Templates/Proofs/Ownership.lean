import Mathlib.Tactic.IntervalCases
import Templates.Proofs.Enclosing.Links
import Templates.Proofs.Machine.Calls

/-!
# Code that is owed

The code of an instance is owed if a root module got it, or an instance around it, outside every gag
(`Service.owesCode`). So code is owed for what an elaboration makes of its own, and for what a root
module asks for. An instance that was there before and is only found by a module that is not a root, in
a gag, or on the chain gets nothing by it: what an instance uses whose code is owed need not be owed
itself (`not_closedUnderUse_sharing`).
-/

namespace Templates

variable {σ α : Type}

namespace Service

/-- The program makes the request with the chain `c` at the moment `k`, and is answered with `j` in the
step after the moment `l`. -/
structure Gets (svc : Service σ) (m₀ : Machine σ α) (k l : Nat) (role : Role) (c : Chain)
    (q : Request) (j : InstanceId) : Prop where
  asks : ∃ next, (svc.after k m₀).control = .program role (.request c q next)
  answered : svc.Answered m₀ k l q (.ok j)

variable {svc : Service σ} {m₀ : Machine σ α} {config : EngineConfig} {s : σ} {p : Program σ α}
  {k l n : Nat} {role : Role} {c : Chain} {q : Request} {i j o : InstanceId}

/-- Two steps after the request its call is planned, and nothing has happened to the instances. -/
theorem Gets.opened (h : svc.Gets m₀ k l role c q j) : ∃ (r : Run σ) (resolved : List Arg)
    (w : Waiting σ α) (ws : List (Waiting σ α)), svc.after (k + 2) m₀ =
      ⟨r, .stage (.plan (.opened (svc.after k m₀).engine c q) resolved), w :: ws⟩ ∧
    r.engine.insts = (svc.after k m₀).engine.insts ∧
    r.engine.roots = (svc.after k m₀).engine.roots ∧
    r.engine.queue.gagDepth = (Call.opened (svc.after k m₀).engine c q).depth
      (svc.after k m₀).engine.queue.gagDepth ∧
    k + 2 ≤ l ∧ (∀ i, k + 2 < i → i ≤ l → ∃ inner, (svc.after i m₀).waiting = inner ++ w :: ws) ∧
    (svc.after l m₀).waiting = w :: ws ∧ svc.answers (svc.after l m₀) = some (.ok j) := by
  obtain ⟨⟨next, hk⟩, role', c', next', hk', hkl, hin, hw, ha⟩ := h
  rw [hk'] at hk
  cases hk
  generalize hm : svc.after k m₀ = m at *
  obtain ⟨r, control, ws⟩ := m
  cases hk'
  obtain ⟨hle, e, s, resolved, hplan, hinsts, hroots, hdepth⟩ := planned_of_request hm hkl hin ha
  exact ⟨_, resolved, _, ws, hplan, hinsts, hroots, hdepth, hle,
    fun i hi hil => hin i (by omega) hil, hw, ha⟩

/-- The plan of a request is there two steps later. -/
theorem Gets.planned (h : svc.Gets m₀ k l role c q j) :
    (svc.after (k + 2) m₀).engine.insts = (svc.after k m₀).engine.insts ∧
      (svc.after (k + 2) m₀).engine.roots = (svc.after k m₀).engine.roots ∧
      (q.gagged = false →
        (svc.after (k + 2) m₀).engine.isGagged = (svc.after k m₀).engine.isGagged) ∧
      ∃ call : Call, call.chain = c ∧ call.request = q ∧ svc.Source m₀ (k + 2) l call j := by
  obtain ⟨r, resolved, w, ws, hplan, hinsts, hroots, hdepth, hle, hin, hw, ha⟩ := h.opened
  have hsource := source_of_plan hplan hle hin hw ha
  rw [hplan]
  refine ⟨hinsts, hroots, fun hq => ?_, _, rfl, rfl, hsource⟩
  rw [Call.depth, Call.opened, hq] at hdepth
  exact congrArg (fun d => decide (0 < d)) hdepth

/-- A root module gets what it asks for outside every gag, unless it finds it on the chain. -/
theorem Gets.needed (h : svc.Gets m₀ k l role c q j) (hq : q.gagged = false)
    (hg : (svc.after k m₀).engine.isGagged = false)
    (hr : (svc.after k m₀).engine.isRoot q.module = true) (hc : ∀ f ∈ c, f.inst ≠ j) :
    k + 2 ≤ l ∧ svc.Needed (svc.after (k + 2) m₀) j := by
  obtain ⟨-, hroots, hgag, call, rfl, rfl, hsource⟩ := h.planned
  have hroot : (svc.after (k + 2) m₀).engine.isRoot call.request.module = true := by
    rwa [Engine.isRoot, hroots]
  have hneeded (ht : svc.takes (svc.after (k + 2) m₀) = some (call, j)) :
      svc.Needed (svc.after (k + 2) m₀) j := ⟨call, ht, (hgag hq).trans hg, hroot⟩
  cases hsource with
  | chain _ hf hj => exact absurd hj (hc _ hf)
  | cached hl ht => exact ⟨hl.ge, hneeded ht⟩
  | made hl ht => exact ⟨hl.le, hneeded ht⟩

/-- An instance that was not there when it was asked for lies inside the head of the chain. -/
theorem Gets.outer? (h : svc.Gets (.boot config s p) k l role c q j)
    (hnew : (svc.after k (.boot config s p)).engine.inst? j = none)
    (hthere : ((svc.after l (.boot config s p)).engine.inst? j).isSome) (hl : l ≤ n) :
    (svc.after n (.boot config s p)).engine.outer? j = Chain.innermost? c := by
  obtain ⟨hinsts, -, -, call, rfl, rfl, hsource⟩ := h.planned
  have hfound (hl : l = k + 2) : False := by
    rw [hl, Engine.inst?, hinsts] at hthere
    rw [Engine.inst?] at hnew
    rw [hnew] at hthere
    cases hthere
  cases hsource with
  | chain hl => exact (hfound hl).elim
  | cached hl => exact (hfound hl).elim
  | @made p' hlt _ hj he =>
    have hmade : (svc.after (k + 3) (.boot config s p)).engine.origins j =
        some ((svc.after (k + 2) (.boot config s p)).engine.made call.request call.chain p') := by
      rw [he, Engine.origins_create, hj]
      exact Arena.put_self
    exact Engine.outer?_of_origins (origins_after svc (Nat.lt_of_lt_of_le hlt hl) hmade)

/-- Code is owed if a root module got the instance, or one around it, outside every gag. -/
theorem needsCodegen_iff (i : InstanceId) :
    (svc.after n (.boot config s p)).engine.needsCodegen i = true ↔
      (svc.after n (.boot config s p)).engine.isComplete i = true ∧
        ∃ t, (svc.after n (.boot config s p)).engine.Around i t ∧
          ∃ k < n, svc.Needed (svc.after k (.boot config s p)) t := by
  rw [Engine.needsCodegen, Bool.and_eq_true, Engine.codegenOwner_isSome_iff]
  simp only [firstModule?_isSome_iff]

/-- What is known of code that is owed when the run from `m₀` has made `n` steps. -/
structure OwesCode (svc : Service σ) (m₀ : Machine σ α) (n : Nat) : Prop where
  /-- Code is owed for a complete instance exactly if a root module got it, or one around it, from a
  cache or newly made, outside every gag. -/
  needs_iff {i : InstanceId} : (svc.after n m₀).engine.needsCodegen i = true ↔
    (svc.after n m₀).engine.isComplete i = true ∧
      ∃ t, (svc.after n m₀).engine.Around i t ∧ ∃ k < n, svc.Needed (svc.after k m₀) t
  /-- If code is owed for an instance, it is for what its elaboration makes and hands its chain on to,
  also in a gag and whatever modules ask. -/
  made {k l : Nat} {call : Call} {p : Plan} {o j : InstanceId} {c : Chain} {q : Request} :
    svc.Gets m₀ k l (.elaborate call p o) c q j → l < n → Chain.innermost? c = some o →
    (svc.after k m₀).engine.inst? j = none → ((svc.after l m₀).engine.inst? j).isSome →
    (svc.after n m₀).engine.needsCodegen o = true → (svc.after n m₀).engine.isComplete j = true →
    (svc.after n m₀).engine.needsCodegen j = true
  /-- Code is owed for what a root module asks for outside every gag and does not find on its chain. -/
  asked {k l : Nat} {role : Role} {j : InstanceId} {c : Chain} {q : Request} :
    svc.Gets m₀ k l role c q j → l < n → q.gagged = false →
    (svc.after k m₀).engine.isGagged = false → (svc.after k m₀).engine.isRoot q.module = true →
    (∀ f ∈ c, f.inst ≠ j) → (svc.after n m₀).engine.isComplete j = true →
    (svc.after n m₀).engine.needsCodegen j = true

/-- **What code is owed for.** -/
theorem owesCode (n : Nat) : svc.OwesCode (.boot config s p) n := by
  constructor
  case needs_iff =>
    intro i
    exact needsCodegen_iff i
  case made =>
    intro k l call pl o j c q h hl hc hnew hthere ho hj
    have houter := h.outer? hnew hthere hl.le
    rw [needsCodegen_iff] at ho ⊢
    obtain ⟨-, t, hot, ht⟩ := ho
    exact ⟨hj, t, .outer (houter.trans hc) hot, ht⟩
  case asked =>
    intro k l role j c q h hl hq hg hr hc hj
    obtain ⟨hle, hneeded⟩ := h.needed hq hg hr hc
    rw [needsCodegen_iff]
    exact ⟨hj, j, .self j, k + 2, by omega, hneeded⟩

/-- Code is owed for all that an instance asks for whose code is owed. -/
def ClosedUnderUse (svc : Service σ) (m₀ : Machine σ α) (n : Nat) : Prop :=
  ∀ ⦃k l call p o j c q⦄, svc.Gets m₀ k l (.elaborate call p o) c q j → l < n →
    q.gagged = false → (svc.after n m₀).engine.needsCodegen o = true →
    (svc.after n m₀).engine.isComplete j = true → (svc.after n m₀).engine.needsCodegen j = true

end Service

/-- A front end whose instances of the first template need one of the second. -/
def sharing : Service Unit where
  evaluate _ _ := pure (.error ⟨"", {}⟩)
  openScope s := pure s
  declareSymbol _ _ _ := pure ()
  symbolName _ _ := ""
  elaborate c _ :=
    if (c.head?.map (·.decl)) = some ⟨0⟩ then
      .request c { decl := ⟨1⟩, module := ⟨9⟩ } fun _ => .done (.ok [])
    else .done (.ok [])

/-- Two templates and a root module. Other modules ask for an instance of the second template and one
of the first, then the root module asks for the latter. -/
def sharingClient : Program Unit (Except TemplateError InstanceId) :=
  .command (.declare { name := "A" }) fun _ => .command (.declare { name := "B" }) fun _ =>
    .command (.addRoot ⟨0⟩) fun _ => .request [] { decl := ⟨1⟩, module := ⟨9⟩ } fun _ =>
      .request [] { decl := ⟨0⟩, module := ⟨9⟩ } fun _ => .request [] { decl := ⟨0⟩ } .done

/-- The machine of the three requests at its beginning. -/
def sharingBoot : Machine Unit (Except TemplateError InstanceId) :=
  .boot { digest := fun _ _ => default } () sharingClient

theorem sharing_handsOn : sharing.HandsOn := by
  refine ⟨fun c i => ?_, fun _ => trivial⟩
  change Program.Hands c (if _ then _ else _)
  split
  · exact ⟨.inl rfl, fun _ => trivial⟩
  · trivial

theorem sharing_gets : ∃ call p c q,
    sharing.Gets sharingBoot 15 17 (.elaborate call p ⟨1⟩) c q ⟨0⟩ ∧ q.gagged = false := by
  refine ⟨_, _, _, _, ⟨⟨_, rfl⟩, _, _, _, rfl, by decide, fun j hj hj' => ?_, rfl, rfl⟩, rfl⟩
  interval_cases j <;> exact ⟨[], rfl⟩

/-- The root module owns the first instance. The second was there before, and the elaboration of the
first asked for it on behalf of another module, so that it gets no owner. -/
theorem not_closedUnderUse_sharing : sharing.HandsOn ∧ sharingClient.Hands [] ∧
    ¬sharing.ClosedUnderUse sharingBoot 23 := by
  refine ⟨sharing_handsOn, ?_, fun h => ?_⟩
  · exact fun _ _ _ => ⟨.inl rfl, fun _ => ⟨.inl rfl, fun _ => ⟨.inl rfl, fun _ => trivial⟩⟩⟩
  · obtain ⟨call, p, c, q, hgets, hq⟩ := sharing_gets
    have hneeds : (sharing.after 23 sharingBoot).engine.needsCodegen ⟨0⟩ = true :=
      h hgets (by decide) hq rfl rfl
    cases hneeds

/-- Two templates and a root module, which asks for an instance of the first. -/
def rootFirst : Program Unit (Except TemplateError InstanceId) :=
  .command (.declare { name := "A" }) fun _ => .command (.declare { name := "B" }) fun _ =>
    .command (.addRoot ⟨0⟩) fun _ => .request [] { decl := ⟨0⟩ } .done

/-- The machine of the request at its beginning. -/
def rootFirstBoot : Machine Unit (Except TemplateError InstanceId) :=
  .boot { digest := fun _ _ => default } () rootFirst

theorem rootFirst_gets : ∃ call p c q,
    sharing.Gets rootFirstBoot 8 14 (.elaborate call p ⟨0⟩) c q ⟨1⟩ ∧
      Chain.innermost? c = some ⟨0⟩ := by
  refine ⟨_, _, _, _, ⟨⟨_, rfl⟩, _, _, _, rfl, by decide, fun j hj hj' => ?_, rfl, rfl⟩, rfl⟩
  interval_cases j <;> exact ⟨[], rfl⟩

/-- The second instance gets no owner of its own, but lies inside the first. -/
theorem owesCode_rootFirst : (sharing.after 17 rootFirstBoot).AtTop ∧
    (sharing.after 17 rootFirstBoot).engine.firstModule? ⟨1⟩ = none ∧
    (sharing.after 17 rootFirstBoot).engine.needsCodegen ⟨1⟩ = true := by
  obtain ⟨call, p, c, q, hgets, hc⟩ := rootFirst_gets
  have H : sharing.OwesCode rootFirstBoot 17 := Service.owesCode 17
  exact ⟨⟨rfl, _, rfl⟩, rfl, H.made hgets (by decide) hc rfl rfl rfl rfl⟩

end Templates
