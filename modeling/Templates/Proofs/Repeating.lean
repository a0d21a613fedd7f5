import Templates.Proofs.Repeating.Answers
import Templates.Proofs.Repeating.Steadfast

/-!
# The same request again

A request at the top that was answered with an instance is answered with it again, whatever happened
meanwhile, as long as its overload set is the same and its scopes show the same bindings
(`Service.reuses_of_answered`).
-/

namespace Templates

variable {σ V α : Type}

namespace Engine

variable {e e' : Engine} {q q' : Request}

@[simp] theorem overloads_opened (e : Engine) (q : Request) :
    (e.opened q).overloads = e.overloads :=
  funext (overloads_congr (decls_opened e q))

@[simp] theorem decl_opened (e : Engine) (q : Request) : (e.opened q).decl = e.decl := by
  funext d
  rw [Engine.decl, Engine.decl, decl?, decl?, decls_opened]

/-- Declarations that come between two calls do not matter unless they are put into the set. -/
theorem SameSet.opened (H : e.Linked) (hg : e.Grows e') (hd : q.decl.index < e.decls.size)
    (ho : e'.overloads q.decl = e.overloads q.decl) :
    (e.opened q).SameSet (e'.opened q') q.decl where
  overloads := by rwa [overloads_opened, overloads_opened]
  decl id hid := by
    rw [overloads_opened] at hid
    rw [decl_opened, decl_opened]
    exact hg.decl (overloads_lt H hd hid)

/-- The scope of the request and those of the declarations that it can mean. -/
def scopesOf (e : Engine) (q : Request) : List ScopeId :=
  q.scope :: (e.overloads q.decl).map fun d => (e.decl d).scope

theorem scope_mem_scopesOf {id : DeclId} (hid : id ∈ (e.opened q).overloads q.decl) :
    ((e.opened q).decl id).scope ∈ e.scopesOf q := by
  rw [overloads_opened] at hid
  rw [decl_opened]
  exact List.mem_cons_of_mem _ (List.mem_map_of_mem hid)

end Engine

namespace Service

variable {svc : Service σ} {config : EngineConfig} {s : σ} {prog : Program σ α} {k l n : Nat}
  {i : InstanceId} {q : Request} {role : Role}
  {next : Except TemplateError InstanceId → Program σ (role.Result α)}

/-- The request that is made at the moment `l` is answered with the instance as soon as it is planned.
No instance is made for it, and the front end is not asked to elaborate anything or to go on with
it. -/
structure Reuses (svc : Service σ) (m₀ : Machine σ α) (l : Nat) (q : Request) (i : InstanceId) :
    Prop where
  answered : svc.Answered m₀ l (l + 2) q (.ok i)
  made : (svc.after (l + 3) m₀).engine.insts.size = (svc.after l m₀).engine.insts.size
  unasked (j : Nat) : l ≤ j → j ≤ l + 3 → (svc.after j m₀).asks = none

/-- A request with the empty chain, whose plan has the key of an instance that is stored. -/
theorem reuses_of_stores {m₀ : Machine σ α} {resolved : List Arg} {s₁ s₂ : σ} {p : Plan}
    (hc : (svc.after l m₀).control = .program role (.request [] q next))
    (hres : svc.resolveRequest q (svc.after l m₀).run.service = (.ok resolved, s₁))
    (hd : q.decl.index < (svc.after l m₀).engine.decls.size)
    (hp : ((svc.after l m₀).engine.opened q).plan svc.toSemantics q resolved s₁ = (.ok p, s₂))
    (H : (svc.after (l + 2) m₀).engine.CachesOnce)
    (hi : (svc.after (l + 2) m₀).engine.Stores p.key i)
    (hs : (svc.after (l + 2) m₀).engine.arena.state? i ≠ some .elaborating) :
    svc.Reuses m₀ l q i := by
  have hopen : svc.after 1 (svc.after l m₀) = _ := opened_of_request hc
  have hplan := planned_of_resolves hc hres hd
  rw [after_after, Nat.add_comm] at hopen hplan
  have hplanning : svc.Planning (svc.after (l + 2) m₀)
      (.opened (svc.after l m₀).engine [] q) p := by
    rw [hplan]
    exact ⟨resolved, s₂, rfl, hp⟩
  obtain ⟨_, e, s, ⟨rfl, hsize⟩, hans, hstep⟩ :=
    hplanning.answered fun names => H.answer?_of_stores hi hs
  have hwaiting := congrArg Machine.waiting hplan
  have hlast : svc.after (l + 3) m₀ = giveAnswer ⟨e, s⟩ (.opened (svc.after l m₀).engine [] q)
      (.ok i) (⟨role, next⟩ :: (svc.after l m₀).waiting) := by
    rw [after_succ, hstep, hwaiting]
  constructor
  case answered =>
    refine ⟨role, [], next, hc, by omega, fun j hj hj' => ⟨[], ?_⟩, hwaiting, hans⟩
    obtain rfl | rfl : j = l + 1 ∨ j = l + 2 := by omega
    · rw [hopen]
      rfl
    · exact hwaiting
  case made =>
    rw [hlast, giveAnswer_insts.1, hsize, hplan]
    exact congrArg Array.size (Engine.insts_opened ..)
  case unasked =>
    intro j hj hj'
    obtain rfl | rfl | rfl | rfl : j = l ∨ j = l + 1 ∨ j = l + 2 ∨ j = l + 3 := by omega
    · rw [Machine.asks, hc]
    · rw [hopen]
      rfl
    · rw [hplan]
      rfl
    · rw [hlast]
      rfl

/-- A request with the empty chain, whose plan has the key of an instance that was stored when the
client was at the top. -/
theorem reuses_of_atTop {resolved : List Arg} {s₁ s₂ : σ} {p : Plan}
    (hc : (svc.after l (.boot config s prog)).control = .program role (.request [] q next))
    (hres : svc.resolveRequest q (svc.after l (.boot config s prog)).run.service =
      (.ok resolved, s₁))
    (hd : q.decl.index < (svc.after l (.boot config s prog)).engine.decls.size)
    (hp : ((svc.after l (.boot config s prog)).engine.opened q).plan svc.toSemantics q resolved s₁ =
      (.ok p, s₂))
    (htop : (svc.after n (.boot config s prog)).AtTop) (hn : n ≤ l)
    (hi : (svc.after n (.boot config s prog)).engine.Stores p.key i) :
    svc.Reuses (.boot config s prog) l q i := by
  have hle : n ≤ l + 2 := by omega
  obtain ⟨x, hx, -⟩ := hi.cached
  exact reuses_of_stores hc hres hd hp (cachesOnce_after svc _) (stores_of_atTop htop hle hi)
    (not_elaborating_of_atTop htop hle (Engine.inst?_eq_some_iff.mp ⟨x, hx⟩))

/-- **A request at the top that was answered with an instance is answered with it again**, with or
without a gag, wherever it is made with the empty chain. -/
theorem reuses_of_answered {view : σ → ScopeId → Option V} (hsem : svc.toSemantics.Contextual view)
    (hk : (svc.after k (.boot config s prog)).AsksAtTop q)
    (ha : svc.Answered (.boot config s prog) k n q (.ok i)) (hn : n < l) {gagged : Bool}
    (hl : (svc.after l (.boot config s prog)).control =
      .program role (.request [] { q with gagged := gagged } next))
    (ho : (svc.after l (.boot config s prog)).engine.overloads q.decl =
      (svc.after k (.boot config s prog)).engine.overloads q.decl)
    (hs : Shown view (· ∈ (svc.after k (.boot config s prog)).engine.scopesOf q)
      (svc.after k (.boot config s prog)).run.service
      (svc.after l (.boot config s prog)).run.service) :
    svc.Reuses (.boot config s prog) l { q with gagged := gagged } i := by
  obtain ⟨resolved, s₁, p, s₂, hres, hd, hplan, htop, hi⟩ := leaves_of_answered hk ha
  have hkl : k ≤ l := by
    obtain ⟨-, -, -, -, hkn, -⟩ := ha
    omega
  have hgrows : (svc.after k (.boot config s prog)).engine.Grows _ := grows_after svc hkl
  have hset : ((svc.after k (.boot config s prog)).engine.opened q).SameSet
      ((svc.after l (.boot config s prog)).engine.opened { q with gagged := gagged }) q.decl :=
    .opened (linked_after svc k) hgrows hd ho
  -- The request is planned as before.
  obtain ⟨hsame, hs₁⟩ := hsem.resolveRequest (q := q) List.mem_cons_self hs
  rcases hres' : svc.resolveRequest q (svc.after l (.boot config s prog)).run.service with ⟨a, s₁'⟩
  rw [hres, hres'] at hsame hs₁
  cases hsame
  obtain ⟨s₂', hplan'⟩ := hsem.plan hset (fun id hid => Engine.scope_mem_scopesOf hid) hs₁ hplan
  exact reuses_of_atTop hl hres' (hd.trans_le hgrows.decls) hplan' htop hn hi

end Service

/-- The names that can be seen in a scope. -/
def visible (s : List Names) (c : ScopeId) : Option Names := s[c.index]?

theorem visible_append {s : List Names} {c : ScopeId} {v : Names} (h : visible s c = some v)
    (t : List Names) : visible (s ++ t) c = some v :=
  (List.getElem?_append_left (List.getElem?_eq_some_iff.mp h).1).trans h

/-- A front end with nested scopes. What is bound in one can be seen in those that are opened inside it
from then on. -/
def nesting : Semantics (List Names) where
  evaluate e scope := do return foldNamed e ((visible (← get) scope).getD [])
  openScope outer := fun s => (⟨s.length⟩, s ++ [(visible s outer).getD []])
  declareSymbol scope name a := modify (·.modify scope.index ((name, a) :: ·))
  symbolName _ _ := ""

theorem nesting_forM_declareSymbol (s : List Names) (b names : Names) :
    (names.forM fun (name, a) => nesting.declareSymbol ⟨s.length⟩ name a : StateM _ Unit) (s ++ [b]) =
      ((), s ++ [names.reverse ++ b]) := by
  induction names generalizing b with
  | nil => rfl
  | cons x names ih =>
    have hfirst : (nesting.declareSymbol ⟨s.length⟩ x.1 x.2 (s ++ [b])).2 = s ++ [x :: b] := by
      change (s ++ [b]).modify s.length (x :: ·) = _
      simp [List.modify_eq_take_drop]
    rw [List.reverse_cons, List.append_assoc, List.singleton_append, ← ih, ← hfirst]
    rfl

theorem nesting_openWith (c : ScopeId) (names : Names) (s : List Names) :
    nesting.openWith c names s = (⟨s.length⟩, s ++ [names.reverse ++ (visible s c).getD []]) := by
  rw [Semantics.openWith, bind_run, bind_run]
  exact congrArg (fun x => (ScopeId.mk s.length, x.2)) (nesting_forM_declareSymbol s _ names)

theorem nesting_contextual : nesting.Contextual visible where
  evaluate e s s' c c' h := by
    obtain ⟨v, h, h'⟩ := h
    change foldNamed e ((visible s' c').getD []) = foldNamed e ((visible s c).getD [])
    rw [h, h']
  evaluate_view _ _ _ _ _ _ _ := id
  resolveType _ _ _ _ _ _ := rfl
  resolveType_view _ _ _ _ _ _ _ := id
  openWith names s s' c c' h := by
    obtain ⟨v, h, h'⟩ := h
    rw [nesting_openWith, nesting_openWith, h, h']
    exact ⟨names.reverse ++ v, List.getElem?_concat_length, List.getElem?_concat_length⟩
  openWith_view names s s' c c' d _ hd := by
    obtain ⟨w, hw, hw'⟩ := hd
    rw [nesting_openWith, nesting_openWith]
    exact ⟨w, visible_append hw _, visible_append hw' _⟩
  canonicalSymbol _ _ := rfl
  symbolType _ _ := rfl
  localContext _ _ := rfl
  conversion _ _ := rfl

/-- Two templates are declared. The first is asked for, then the second, and then the first again. -/
def askAgain (d : Decl) (q : Request) (gagged : Bool) : Program σ (Except TemplateError InstanceId) :=
  .command (.declare d) fun _ => .command (.declare { name := "A" }) fun _ => .request [] q fun _ =>
    .request [] { decl := ⟨1⟩ } fun _ => .request [] { q with gagged } .done

/-- The first instance needs one of the other template. -/
def needing : Service (List Names) where
  toSemantics := nesting
  elaborate c i :=
    if i.index = 0 then .request c { decl := ⟨1⟩ } fun _ => .done (.ok []) else .done (.ok [])

/-- `D!(n, n)`. -/
def askDoubled : Request := { decl := ⟨0⟩, args := [.expr ⟨0⟩, .expr ⟨0⟩] }

/-- The machine of the requests at its beginning. The name `n` is bound in the outermost scope. -/
def askDoubledBoot : Machine (List Names) (Except TemplateError InstanceId) :=
  .boot { digest := fun _ _ => default } [[("n", .value .int (.int 3))]]
    (askAgain doubled askDoubled true)

/-- The second time the request is speculative. Its arguments are evaluated again, and `n` is the same
as before. -/
theorem reuses_needing : needing.toSemantics.Contextual visible ∧
    (needing.after 2 askDoubledBoot).AsksAtTop askDoubled ∧
    needing.Answered askDoubledBoot 2 15 askDoubled (.ok ⟨0⟩) ∧
    (needing.after 19 askDoubledBoot).control =
      .program .client (.request [] { askDoubled with gagged := true } .done) ∧
    (needing.after 19 askDoubledBoot).engine.overloads ⟨0⟩ =
      (needing.after 2 askDoubledBoot).engine.overloads ⟨0⟩ ∧
    Shown visible (· ∈ (needing.after 2 askDoubledBoot).engine.scopesOf askDoubled)
      (needing.after 2 askDoubledBoot).run.service (needing.after 19 askDoubledBoot).run.service ∧
    needing.Reuses askDoubledBoot 19 { askDoubled with gagged := true } ⟨0⟩ := by
  have hk : (needing.after 2 askDoubledBoot).AsksAtTop askDoubled := ⟨rfl, _, rfl⟩
  have ha : needing.Answered askDoubledBoot 2 15 askDoubled (.ok ⟨0⟩) := by
    refine ⟨.client, [], _, rfl, by decide, fun j hj hj' => ?_, rfl, rfl⟩
    interval_cases j
    all_goals first | exact ⟨[], rfl⟩ | exact ⟨[_], rfl⟩
  have hl : (needing.after 19 askDoubledBoot).control =
      .program .client (.request [] { askDoubled with gagged := true } .done) := rfl
  have hs : Shown visible (· ∈ (needing.after 2 askDoubledBoot).engine.scopesOf askDoubled)
      (needing.after 2 askDoubledBoot).run.service (needing.after 19 askDoubledBoot).run.service := by
    intro c hc
    obtain rfl : c = ⟨0⟩ := by
      have hc : c ∈ [(⟨0⟩ : ScopeId), ⟨0⟩] := hc
      simpa using hc
    exact ⟨_, rfl, rfl⟩
  exact ⟨nesting_contextual, hk, ha, hl, rfl, hs,
    Service.reuses_of_answered nesting_contextual hk ha (by decide) hl rfl hs⟩

/-- The first instance binds `n` anew. -/
def rebinding : Service (List Names) where
  toSemantics := nesting
  elaborate _ i :=
    if i.index = 0 then
      .service (nesting.declareSymbol ⟨0⟩ "n" (.value .int (.int 4))) fun _ => .done (.ok [])
    else .done (.ok [])

theorem sulking_contextual : sulking.toSemantics.Contextual fun _ _ => some () where
  evaluate _ _ _ _ _ _ := rfl
  evaluate_view _ _ _ _ _ _ _ := id
  resolveType _ _ _ _ _ _ := rfl
  resolveType_view _ _ _ _ _ _ _ := id
  openWith _ _ _ _ _ _ := ⟨(), rfl, rfl⟩
  openWith_view _ _ _ _ _ _ _ := id
  canonicalSymbol _ _ := rfl
  symbolType _ _ := rfl
  localContext _ _ := rfl
  conversion _ _ := rfl

/-- The first instance overloads its template with a more specialized one. -/
def outdoing : Service Unit where
  toSemantics := sulking.toSemantics
  elaborate _ i :=
    if i.index = 0 then
      .command (.overload ⟨0⟩ { name := "D", params := [.ofType "T" (some .int) none] }) fun _ =>
        .done (.ok [])
    else .done (.ok [])

/-- `D!(int)`. -/
def askOutdone : Request := { decl := ⟨0⟩, args := [.type .int] }

def askOutdoneBoot : Machine Unit (Except TemplateError InstanceId) :=
  .boot { digest := fun _ _ => default } ()
    (askAgain { name := "D", params := [.ofType "T" none none] } askOutdone false)

/-- The first instance asks for the second one with the empty chain, and fails later. The second one
waits for the first, on a chain that is made up, and fails as well. -/
def forgetful : Service Unit where
  toSemantics := sulking.toSemantics
  elaborate c i :=
    if i.index = 0 then .request [] { decl := ⟨1⟩ } fun _ => .done (.error ⟨"", {}⟩)
    else .request (c ++ [⟨⟨0⟩, ⟨0⟩, [], none, {}⟩]) { decl := ⟨0⟩, need := .reference } fun _ =>
      .done (.ok [])
  resume _ := .done (.error ⟨"", {}⟩)

def askForgottenBoot : Machine Unit (Except TemplateError InstanceId) :=
  .boot { digest := fun _ _ => default } () (askAgain { name := "B" } { decl := ⟨0⟩ } false)

/-- The answer is another one if the first call overloads the set, or binds a name anew that the
arguments mention. An instance that is given out inside a body can fail later on. -/
theorem answered_otherwise :
    (outdoing.toSemantics.Contextual (fun _ _ => some ()) ∧
      (outdoing.after 2 askOutdoneBoot).AsksAtTop askOutdone ∧
      outdoing.Answered askOutdoneBoot 2 9 askOutdone (.ok ⟨0⟩) ∧
      (outdoing.after 17 askOutdoneBoot).AsksAtTop askOutdone ∧
      (outdoing.after 17 askOutdoneBoot).engine.overloads ⟨0⟩ =
        (outdoing.after 10 askOutdoneBoot).engine.overloads ⟨0⟩ ∧
      outdoing.Answered askOutdoneBoot 17 23 askOutdone (.ok ⟨2⟩)) ∧
    (rebinding.toSemantics.Contextual visible ∧
      (rebinding.after 2 askDoubledBoot).AsksAtTop askDoubled ∧
      rebinding.Answered askDoubledBoot 2 9 askDoubled (.ok ⟨0⟩) ∧
      (rebinding.after 17 askDoubledBoot).AsksAtTop { askDoubled with gagged := true } ∧
      (rebinding.after 17 askDoubledBoot).engine.overloads ⟨0⟩ =
        (rebinding.after 2 askDoubledBoot).engine.overloads ⟨0⟩ ∧
      rebinding.Answered askDoubledBoot 17 23 { askDoubled with gagged := true } (.ok ⟨2⟩)) ∧
    (forgetful.toSemantics.Contextual (fun _ _ => some ()) ∧
      forgetful.Answered askForgottenBoot 7 16 { decl := ⟨1⟩ } (.ok ⟨1⟩) ∧
      (forgetful.after 22 askForgottenBoot).AsksAtTop { decl := ⟨1⟩ } ∧
      (forgetful.after 22 askForgottenBoot).engine.overloads ⟨1⟩ =
        (forgetful.after 7 askForgottenBoot).engine.overloads ⟨1⟩ ∧
      forgetful.Answered askForgottenBoot 22 24 { decl := ⟨1⟩ }
        (.error (.memberElaborationFailed ⟨1⟩ "A!()" none {}))) := by
  refine ⟨⟨sulking_contextual, ⟨rfl, _, rfl⟩, ?_, ⟨rfl, _, rfl⟩, rfl, ?_⟩,
    ⟨nesting_contextual, ⟨rfl, _, rfl⟩, ?_, ⟨rfl, _, rfl⟩, rfl, ?_⟩,
    ⟨sulking_contextual, ?_, ⟨rfl, _, rfl⟩, rfl, ?_⟩⟩
  · refine ⟨.client, [], _, rfl, by decide, fun j hj hj' => ⟨[], ?_⟩, rfl, rfl⟩
    interval_cases j <;> rfl
  · refine ⟨.client, [], _, rfl, by decide, fun j hj hj' => ⟨[], ?_⟩, rfl, rfl⟩
    interval_cases j <;> rfl
  · refine ⟨.client, [], _, rfl, by decide, fun j hj hj' => ⟨[], ?_⟩, rfl, rfl⟩
    interval_cases j <;> rfl
  · refine ⟨.client, [], _, rfl, by decide, fun j hj hj' => ⟨[], ?_⟩, rfl, rfl⟩
    interval_cases j <;> rfl
  · refine ⟨_, [], _, rfl, by decide, fun j hj hj' => ?_, rfl, rfl⟩
    interval_cases j
    all_goals first | exact ⟨[], rfl⟩ | exact ⟨[_], rfl⟩
  · refine ⟨.client, [], _, rfl, by decide, fun j hj hj' => ⟨[], ?_⟩, rfl, rfl⟩
    interval_cases j <;> rfl

end Templates
