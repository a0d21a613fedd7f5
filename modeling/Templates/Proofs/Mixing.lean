import Templates.Proofs.Machine.Making
import Templates.Proofs.Ownership
import Templates.Proofs.Repeating.Answers

/-!
# Mixins and their aggregates

Mixins and other instances share the caches and the guard against recursion. Both know an instance by
its declaration, its arguments and a scope: that of the aggregate's members for a mixin, and that of
the local arguments otherwise. So a request is answered with an instance that has its key, and that was
made for the aggregate of another request if that one had the same key (`Service.carries`). It was made
for the same aggregate if no scope stands for two of them, or for one and for local arguments
(`Service.Separates`).
-/

namespace Templates

variable {σ α : Type}

/-- The instance is a mixin into the aggregate of the request, or none if the request is for none. -/
structure Instance.IsFor (x : Instance) (q : Request) : Prop where
  mixin : x.isMixin = q.mixin.isSome
  target : x.mixinTarget = q.mixin.map (·.aggregate)

theorem Instance.IsFor.of_target {x : Instance} {q : Request}
    (h : x.mixinTarget = q.mixin.map (·.aggregate)) : x.IsFor q :=
  ⟨by rw [isMixin, h, Option.isSome_map], h⟩

/-- An instance that a request is answered with has the key of its plan, if the frames of the chain are
what they say. -/
theorem Engine.CachesOnce.key_of_answer? {e e' : Engine} {names : SymbolId → String} {q : Request}
    {c : Chain} {p : Plan} {i : InstanceId} (H : e.CachesOnce)
    (hc : ∀ f ∈ c, ∃ outer, e.Describes f outer) (h : e.answer? names q c p = some (.ok i, e')) :
    ∃ x, e.origins i = some x ∧ x.key = p.key := by
  cases hf : c.findAttempt? p.decl p.deduction.args p.enclosing with
  | none => exact Option.map_eq_some_iff.mp (H.stores_of_answer? hf h).keyed
  | some fc =>
    obtain ⟨outer, x, hx, hd, hargs, hen, -⟩ := hc fc.1 (Chain.mem_of_findAttempt? hf)
    obtain ⟨hd', hen', hargs'⟩ := Chain.key_of_findAttempt? hf
    obtain rfl := eq_of_findAttempt? hf h
    exact ⟨x, hx, Prod.ext (hd.trans hd') (Prod.ext (hargs.trans hargs') (hen.trans hen'))⟩

namespace Service

variable {svc : Service σ} {m m₀ : Machine σ α} {config : EngineConfig} {s : σ} {p : Program σ α}
  {k l n : Nat} {role : Role} {c : Chain} {q : Request} {i : InstanceId} {call : Call} {pl : Plan}
  {owner : ScopeId → Option SymbolId}

/-! ## Scopes of plans -/

/-- Until the moment `n` the scope of a plan says for which aggregate the call is: `owner` has the
aggregate of each scope that a mixin names, and none for the scope of local arguments. -/
structure Separates (svc : Service σ) (m₀ : Machine σ α) (n : Nat)
    (owner : ScopeId → Option SymbolId) : Prop where
  mixin {k : Nat} {call : Call} {p : Plan} {t : MixinTarget} : k ≤ n →
    svc.Planning (svc.after k m₀) call p → call.request.mixin = some t →
    owner t.scope = some t.aggregate
  plain {k : Nat} {call : Call} {p : Plan} {c : ScopeId} : k ≤ n →
    svc.Planning (svc.after k m₀) call p → call.request.mixin = none → p.enclosing = some c →
    owner c = none

/-- A mixin is planned in the scope of its aggregate. -/
theorem Planning.enclosing {t : MixinTarget} (h : svc.Planning m call pl)
    (hq : call.request.mixin = some t) : pl.enclosing = some t.scope := by
  obtain ⟨resolved, s, -, hplan⟩ := h
  have hscope := (Engine.plan_eq_ok hplan).2.2
  rw [Engine.scopeOf, hq] at hscope
  exact (Except.ok.inj hscope).symm

theorem Separates.target (H : svc.Separates m₀ n owner) (hk : k ≤ n)
    (h : svc.Planning (svc.after k m₀) call pl) :
    call.request.mixin.map (·.aggregate) = pl.enclosing.bind owner := by
  cases hq : call.request.mixin with
  | some t => rw [h.enclosing hq, Option.map_some, Option.bind_some, H.mixin hk h hq]
  | none =>
    cases hc : pl.enclosing with
    | none => rfl
    | some c => rw [Option.map_none, Option.bind_some, H.plain hk h hq hc]

/-! ## Chains of requests -/

/-- The frames of a chain that was handed on are what they say. -/
theorem Gets.describes (hsvc : svc.HandsOn) (hp : p.Hands [])
    (h : svc.Gets (.boot config s p) k l role c q i) :
    ∀ f ∈ c, ∃ outer, (svc.after k (.boot config s p)).engine.Describes f outer := by
  obtain ⟨⟨next, hk⟩, -⟩ := h
  have hmirrored : (svc.after k (.boot config s p)).Mirrored := mirrored_after hsvc hp k
  obtain ⟨hc, -⟩ := (handed_after hsvc hp k).program hk
  intro f hf
  refine (hmirrored.handed ?_).describes hf
  obtain rfl | rfl := hc
  · exact .inr ⟨role, by rw [Machine.roles, hk]; rfl, rfl⟩
  · exact .inl rfl

/-! ## Answers -/

/-- Two steps after a request its call is planned. It is answered with an instance that has the key of
the plan, and that is made then if it was not there before. -/
theorem Gets.keyed (h : svc.Gets (.boot config s p) k l role c q i)
    (hc : ∀ f ∈ c, ∃ outer, (svc.after k (.boot config s p)).engine.Describes f outer) :
    ∃ call pl x, call.request = q ∧ svc.Planning (svc.after (k + 2) (.boot config s p)) call pl ∧
      k + 2 ≤ l ∧ (svc.after (k + 3) (.boot config s p)).engine.origins i = some x ∧
      x.key = pl.key ∧ ((svc.after k (.boot config s p)).engine.inst? i = none →
        x.mixinTarget = q.mixin.map (·.aggregate)) := by
  obtain ⟨r, resolved, w, ws, hplan, hinsts, -, -, hle, hin, hw, ha⟩ := h.opened
  obtain ⟨pl, s', hp, hcase⟩ := exists_plan_of_answers hplan hle hin hw ha
  have hplanning : svc.Planning (svc.after (k + 2) (.boot config s p))
      (.opened (svc.after k (.boot config s p)).engine c q) pl := by
    rw [hplan]
    exact ⟨resolved, s', rfl, hp⟩
  have horigins : r.engine.origins = (svc.after k (.boot config s p)).engine.origins :=
    funext fun j => by rw [Engine.origins, Engine.origins, Engine.inst?, Engine.inst?, hinsts]
  obtain ⟨-, e, ha⟩ | ⟨-, -, hnew, -, he⟩ := hcase
  · have H : (svc.after (k + 2) (.boot config s p)).engine.CachesOnce := cachesOnce_after svc _
    rw [hplan] at H
    have hc' : ∀ f ∈ c, ∃ outer, r.engine.Describes f outer := by
      simpa only [Engine.Describes, horigins] using hc
    obtain ⟨x, hx, hkey⟩ := H.key_of_answer? hc' ha
    refine ⟨_, pl, x, rfl, hplanning, hle, ?_, hkey, fun hnone => ?_⟩
    · refine origins_after svc (Nat.le_succ (k + 2)) ?_
      rw [hplan]
      exact hx
    · rw [horigins, Engine.origins, hnone] at hx
      cases hx
  · refine ⟨_, pl, r.engine.made q c pl, rfl, hplanning, hle, ?_, rfl, fun _ => rfl⟩
    rw [he, Engine.origins_create, hnew]
    exact Arena.put_self

/-- What is known at the moment `n` of the instance `x` that the request was answered with, which was
made at the moment `k` and planned as `p`. -/
structure Carries (svc : Service σ) (m₀ : Machine σ α) (k n : Nat) (q : Request) (i : InstanceId)
    (p : Plan) (x : Instance) : Prop where
  planned : ∃ call, call.request = q ∧ svc.Planning (svc.after (k + 2) m₀) call p
  inst : (svc.after n m₀).engine.inst? i = some x
  key : x.key = p.key
  /-- The instance was made for a request with the same key, and is for the aggregate of that one. -/
  made : ∃ l ≤ k + 2, ∃ call p', svc.Planning (svc.after l m₀) call p' ∧
    i = ⟨(svc.after l m₀).engine.insts.size⟩ ∧ p'.key = p.key ∧ x.IsFor call.request
  /-- A new instance is for the aggregate of the request itself. -/
  fresh : (svc.after k m₀).engine.inst? i = none → x.IsFor q
  /-- So is every other one if scopes tell aggregates apart. -/
  separate {owner : ScopeId → Option SymbolId} : svc.Separates m₀ (k + 2) owner → x.IsFor q

/-- **A request is answered with an instance for its own key.** -/
theorem carries (h : svc.Gets (.boot config s p) k l role c q i)
    (hc : ∀ f ∈ c, ∃ outer, (svc.after k (.boot config s p)).engine.Describes f outer) (hn : l < n) :
    ∃ pl x, svc.Carries (.boot config s p) k n q i pl x := by
  obtain ⟨call, pl, y, hq, hplan, hle, hy, hkey, hfresh⟩ := h.keyed hc
  obtain ⟨j, hj, call', pl', hplan', hi, rfl⟩ := exists_planning hy
  obtain ⟨x, hx, horigin⟩ := Option.map_eq_some_iff.mp (origins_after svc (by omega : k + 3 ≤ n) hy)
  have htarget : x.mixinTarget = call'.request.mixin.map (·.aggregate) :=
    congrArg Instance.mixinTarget horigin
  refine ⟨pl, x, ⟨call, hq, hplan⟩, hx, (congrArg Instance.key horigin).trans hkey,
    ⟨j, Nat.le_of_lt_succ hj, call', pl', hplan', hi, hkey, .of_target htarget⟩,
    fun hnone => .of_target ?_, fun {owner} H => .of_target ?_⟩
  · exact htarget.trans (hfresh hnone)
  · have hscope : pl'.enclosing = pl.enclosing := congrArg (·.2.2) hkey
    rw [htarget, H.target (Nat.le_of_lt_succ hj) hplan', hscope, ← H.target (Nat.le_refl _) hplan, hq]

end Service

/-- A front end to which every symbol is a local one of the scope 8. An instance with the scope 6 refers
back to itself. -/
def capturing : Service Unit where
  evaluate _ _ := pure (.error ⟨"", {}⟩)
  openScope s := pure s
  declareSymbol _ _ _ := pure ()
  localContext _ _ := some ⟨8⟩
  symbolName _ _ := ""
  elaborate c _ :=
    if (c.head?.bind (·.enclosing)) = some ⟨6⟩ then
      .request c { decl := ⟨0⟩, args := [.symbol ⟨5⟩], need := .reference, mixin := some ⟨⟨9⟩, ⟨6⟩⟩ }
        fun _ => .done (.ok [])
    else .done (.ok [])

/-- `D!(x)`, where `x` is a local symbol. -/
def askLocal : Request := { decl := ⟨0⟩, args := [.symbol ⟨5⟩] }

/-- The mixin `D!(x)` into an aggregate. -/
def askMixin (g : SymbolId) (c : ScopeId) : Request := { askLocal with mixin := some ⟨g, c⟩ }

/-- Two requests, the second with the chain `c`. -/
def askInTurn (first second : Request) (c : Chain) :
    Program Unit (Except TemplateError InstanceId) :=
  .command (.declare { name := "D", params := [{ name := "A", kind := .symbol {} }] }) fun _ =>
    .request [] first fun _ => .request c second .done

/-- The machine of the two requests at its beginning. -/
def askInTurnBoot (first second : Request) (c : Chain) :
    Machine Unit (Except TemplateError InstanceId) :=
  .boot { digest := fun _ _ => default } () (askInTurn first second c)

/-- The request is answered with an instance for another aggregate, or for none. -/
def Service.Mistakes (svc : Service σ) (m₀ : Machine σ α) (k l : Nat) (c : Chain) (q : Request)
    (i : InstanceId) : Prop :=
  svc.Gets m₀ k l .client c q i ∧
    ∃ x, (svc.after (l + 1) m₀).engine.inst? i = some x ∧ ¬x.IsFor q

/-- One scope may stand for two aggregates, or for an aggregate and for local arguments, and a frame
that is made up may name any instance. -/
theorem mistakes_capturing :
    capturing.Mistakes (askInTurnBoot (askMixin ⟨9⟩ ⟨8⟩) (askMixin ⟨7⟩ ⟨8⟩) []) 8 10 []
      (askMixin ⟨7⟩ ⟨8⟩) ⟨0⟩ ∧
    capturing.Mistakes (askInTurnBoot (askMixin ⟨9⟩ ⟨8⟩) askLocal []) 8 10 [] askLocal ⟨0⟩ ∧
    capturing.Mistakes (askInTurnBoot askLocal (askMixin ⟨9⟩ ⟨8⟩) []) 8 10 []
      (askMixin ⟨9⟩ ⟨8⟩) ⟨0⟩ ∧
    capturing.Mistakes
      (askInTurnBoot askLocal { askMixin ⟨9⟩ ⟨3⟩ with need := .reference }
        [⟨⟨0⟩, ⟨0⟩, [.symbol ⟨5⟩], some ⟨3⟩, {}⟩]) 8 10
      [⟨⟨0⟩, ⟨0⟩, [.symbol ⟨5⟩], some ⟨3⟩, {}⟩]
      { askMixin ⟨9⟩ ⟨3⟩ with need := .reference } ⟨0⟩ := by
  refine ⟨?_, ?_, ?_, ?_⟩
  all_goals
    refine ⟨⟨⟨_, rfl⟩, .client, _, _, rfl, by decide, fun j hj hj' => ⟨[], ?_⟩, rfl, rfl⟩,
      _, rfl, fun h => ?_⟩
    · interval_cases j <;> rfl
    · cases h.target

theorem capturing_handsOn : capturing.HandsOn := by
  refine ⟨fun c i => ?_, fun _ => trivial⟩
  change Program.Hands c (if _ then _ else _)
  split
  · exact ⟨.inl rfl, fun _ => trivial⟩
  · trivial

theorem askInTurn_hands (first second : Request) : (askInTurn first second []).Hands [] :=
  fun _ => ⟨.inl rfl, fun _ => ⟨.inl rfl, fun _ => trivial⟩⟩

/-- The aggregate 9 has the scope 6. -/
theorem capturing_separates : capturing.Separates (askInTurnBoot (askMixin ⟨9⟩ ⟨6⟩) askLocal []) 8
    fun c => if c = ⟨6⟩ then some ⟨9⟩ else none := by
  constructor
  case mixin =>
    rintro k call p t hk ⟨resolved, s, hc, -⟩ hq
    interval_cases k <;> cases hc <;> cases hq <;> rfl
  case plain =>
    rintro k call p c hk ⟨resolved, s, hc, -⟩ hq
    interval_cases k <;> cases hc <;> cases hq

theorem capturing_gets : ∃ call p c q,
    capturing.Gets (askInTurnBoot (askMixin ⟨9⟩ ⟨6⟩) askLocal []) 6 8 (.elaborate call p ⟨0⟩) c q ⟨0⟩ ∧
      c ≠ [] ∧ q.mixin = some ⟨⟨9⟩, ⟨6⟩⟩ := by
  refine ⟨_, _, _, _, ⟨⟨_, rfl⟩, _, _, _, rfl, by decide, fun j hj hj' => ?_, rfl, rfl⟩,
    List.cons_ne_nil _ _, rfl⟩
  interval_cases j <;> exact ⟨[], rfl⟩

/-- The mixin is found on the chain while it is being elaborated. -/
theorem carries_capturing : ∃ call p c q,
    capturing.Gets (askInTurnBoot (askMixin ⟨9⟩ ⟨6⟩) askLocal []) 6 8 (.elaborate call p ⟨0⟩) c q ⟨0⟩ ∧
    (∀ f ∈ c, ∃ outer,
      (capturing.after 6 (askInTurnBoot (askMixin ⟨9⟩ ⟨6⟩) askLocal [])).engine.Describes f outer) ∧
    c ≠ [] ∧ q.mixin = some ⟨⟨9⟩, ⟨6⟩⟩ ∧ ∃ pl x,
      capturing.Carries (askInTurnBoot (askMixin ⟨9⟩ ⟨6⟩) askLocal []) 6 9 q ⟨0⟩ pl x ∧ x.IsFor q := by
  obtain ⟨call, p, c, q, hgets, hc, hq⟩ := capturing_gets
  have hdescribes := hgets.describes capturing_handsOn (askInTurn_hands _ _)
  obtain ⟨pl, x, H⟩ := Service.carries hgets hdescribes (Nat.lt_succ_self 8)
  exact ⟨call, p, c, q, hgets, hdescribes, hc, hq, pl, x, H, H.separate capturing_separates⟩

end Templates
