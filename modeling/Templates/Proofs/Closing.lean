import Mathlib.Tactic.IntervalCases
import Templates.Proofs.Machine.Making
import Templates.Proofs.Matching.Closed

/-!
# Arguments without parameters

Patterns mention the parameters of their declaration, the arguments of an instance should not. What a
default or a declared type becomes when the bindings are put in is looked over for parameters that are
left, but not its literal parts: the values and the sequences among the arguments of instances. So a
deduced argument can mention a parameter, and then the literal parts of a default or of a declared type
do (`Semantics.ParamSource`, `Service.closesOff`).
-/

namespace Templates

variable {σ α : Type}

/-- What is made of closed parts is closed. -/
theorem Arg.isClosed_descends : Descends (·.isClosed = true) where
  ulong := rfl
  symbol _ := rfl
  value := id
  const := id
  ptr := id
  array := id
  staticArray h := (Bool.and_eq_true_iff.mp h).2
  inst h := areClosed_iff.mp (Bool.and_eq_true_iff.mp h).2
  ofList {as} h := by
    refine areClosed_iff.mpr fun x hx => ?_
    obtain ⟨a, ha, hx⟩ := List.mem_flatMap.mp hx
    have ha := h a ha
    cases a with
    | tuple elems => exact areClosed_iff.mp ha x hx
    | type | value | symbol =>
      obtain rfl := List.mem_singleton.mp hx
      exact ha

/-! ## What requests give -/

mutual

/-- No parameter is written in the argument. -/
def SiteArg.isClosed : SiteArg → Bool
  | .type t => t.isClosed
  | .value v => v.ty.isClosed
  | .expr _ | .symbol _ => true
  | .tuple elems => SiteArg.areClosed elems

def SiteArg.areClosed : List SiteArg → Bool
  | [] => true
  | a :: as => a.isClosed && SiteArg.areClosed as

end

/-- No parameter is written in the request. -/
structure Request.Closed (q : Request) : Prop where
  args : SiteArg.areClosed q.args = true
  receiver {t : Ty} : q.receiver = some t → t.isClosed = true

/-- The request is made in the next step. -/
def Machine.Asks (m : Machine σ α) (q : Request) : Prop :=
  ∃ role c next, m.control = .program role (.request c q next)

/-- The type that the bindings are put in when the parameter is matched. -/
def ParamKind.filled? : ParamKind → Option Ty
  | .type p | .this p => p.default
  | .value p => some p.ty
  | .symbol _ | .tuple => none

/-- No parameter is written where a substitution does not find it. -/
def Decl.LiteralsClosed (d : Decl) : Prop :=
  ∀ p ∈ d.params, ∀ t, p.kind.filled? = some t → t.literalsClosed = true

namespace Semantics

/-- The front end answers with closed types. -/
structure AnswersClosed (sem : Semantics σ) : Prop where
  evaluate {e : ExprId} {c : ScopeId} {s : σ} {v : Value} :
    (sem.evaluate e c s).1 = .ok v → v.ty.isClosed = true
  resolveType {t u : Ty} {c : ScopeId} {s : σ} :
    t.isClosed = true → (sem.resolveType t c s).1 = .ok u → u.isClosed = true
  symbolType {x : SymbolId} {s : σ} {t : Ty} : sem.symbolType s x = some t → t.isClosed = true

/-- Where a parameter can come from that nothing has looked for. The front end is in the state `s₀`
before the match. -/
inductive ParamSource (sem : Semantics σ) (d : Decl) (args : List Arg) (receiver : Option Ty)
    (s₀ : σ) : Prop
  /-- The default of a parameter that is given nothing and is free in its turn. -/
  | default {i : ParamIdx} {k : ParamKind} {p : TypeParam} {t : Turn σ} {u : Ty} :
    Deduce.kind? d.params i = some k → k = .type p ∨ k = .this p →
    sem.turn? d args receiver i s₀ = some t → k.argument? receiver t.rest = none →
    t.bound.get? i = none → p.default = some u → u.literalsClosed = false →
    ParamSource sem d args receiver s₀
  /-- The declared type of a value, which every value for the parameter gets. -/
  | declared {i : ParamIdx} {p : ValueParam} :
    Deduce.kind? d.params i = some (.value p) → p.ty.literalsClosed = false →
    ParamSource sem d args receiver s₀

variable {sem : Semantics σ} {d : Decl} {args : List Arg} {receiver : Option Ty} {mode : MatchMode}
  {s s₀ s' : σ} {ded : Deduction} {q : Request} {as : List Arg} {c : ScopeId}

mutual

theorem AnswersClosed.resolveArg (H : sem.AnswersClosed) {s : σ} {as : List Arg} :
    (a : SiteArg) → a.isClosed = true → (sem.resolveArg c a s).1 = .ok as →
    ∀ x ∈ as, x.isClosed = true
  | .type t, ha, h => by
    change ((sem.resolveType t c s).1.map _) = _ at h
    cases hr : (sem.resolveType t c s).1 with
    | error => rw [hr] at h; cases h
    | ok u =>
      rw [hr] at h
      cases h
      exact List.forall_mem_singleton.mpr (H.resolveType ha hr)
  | .value v, ha, h => by
    cases h
    exact List.forall_mem_singleton.mpr ha
  | .expr e, _, h => by
    change ((sem.evaluate e c s).1.map _) = _ at h
    cases hr : (sem.evaluate e c s).1 with
    | error => rw [hr] at h; cases h
    | ok v =>
      rw [hr] at h
      cases h
      exact List.forall_mem_singleton.mpr (H.evaluate hr)
  | .symbol x, _, h => by
    cases h
    exact List.forall_mem_singleton.mpr rfl
  | .tuple elems, ha, h => H.resolveArgs elems ha h

theorem AnswersClosed.resolveArgs (H : sem.AnswersClosed) {s : σ} {as : List Arg} :
    (xs : List SiteArg) → SiteArg.areClosed xs = true → (sem.resolveArgs c xs s).1 = .ok as →
    ∀ x ∈ as, x.isClosed = true
  | [], _, h => by
    cases h
    exact List.forall_mem_nil _
  | x :: xs, hx, h => by
    obtain ⟨hx, hxs⟩ := Bool.and_eq_true_iff.mp hx
    rw [Semantics.resolveArgs, bind_run] at h
    rcases hfront : sem.resolveArg c x s with ⟨f | front, s₁⟩ <;> rw [hfront] at h
    · cases h
    · dsimp only at h
      rw [bind_run] at h
      rcases hrest : sem.resolveArgs c xs s₁ with ⟨f | rest, s₂⟩ <;> rw [hrest] at h
      · cases h
      · cases h
        exact List.forall_mem_append.mpr
          ⟨H.resolveArg x hx (congrArg Prod.fst hfront),
            H.resolveArgs xs hxs (congrArg Prod.fst hrest)⟩

end

section

variable (H : sem.AnswersClosed)

include H

/-- The arguments of a closed request resolve to closed ones. -/
theorem AnswersClosed.resolveRequest (hq : q.Closed)
    (h : sem.resolveRequest q s = (.ok as, s')) : ∀ a ∈ as, a.isClosed = true :=
  H.resolveArgs q.args hq.args (congrArg Prod.fst (resolveRequest_eq_ok h).1)

/-- Without a source of parameters nothing that a match fills in mentions one. -/
theorem fills_of_not_paramSource (hargs : ∀ a ∈ args, a.isClosed = true)
    (hreceiver : ∀ {t : Ty}, receiver = some t → t.isClosed = true)
    (h : ¬sem.ParamSource d args receiver s₀) :
    sem.Fills (·.isClosed = true) d args receiver s₀ where
  given := hargs
  default hk hp ht hn hfree hu hb hclosed := by
    refine (Ty.isClosed_subst_iff hb _).mpr ⟨hclosed, ?_⟩
    by_contra hl
    exact h (.default hk hp ht hn hfree hu (Bool.eq_false_iff.mpr hl))
  received _ hu := hreceiver hu
  declared hk hb hclosed := by
    refine (Ty.isClosed_subst_iff hb _).mpr ⟨hclosed, ?_⟩
    by_contra hl
    exact h (.declared hk (Bool.eq_false_iff.mpr hl))
  length hk hclosed := by
    refine (Ty.isClosed_iff _).mpr ⟨hclosed, ?_⟩
    by_contra hl
    exact h (.declared hk (Bool.eq_false_iff.mpr hl))
  symbolType _ _ _ _ hu := H.symbolType hu

omit H in
theorem not_paramSource (hd : d.LiteralsClosed) : ¬sem.ParamSource d args receiver s₀ := by
  have hkind {i : ParamIdx} {k : ParamKind} {t : Ty} (hk : Deduce.kind? d.params i = some k)
      (ht : k.filled? = some t) : t.literalsClosed = true := by
    obtain ⟨p, hp, rfl⟩ := Option.map_eq_some_iff.mp hk
    exact hd p (List.mem_of_getElem? hp) t ht
  rintro (⟨hk, rfl | rfl, -, -, -, hu, hl⟩ | ⟨hk, hl⟩)
  · exact absurd (hkind hk hu) (Bool.eq_false_iff.mp hl)
  · exact absurd (hkind hk hu) (Bool.eq_false_iff.mp hl)
  · exact absurd (hkind hk rfl) (Bool.eq_false_iff.mp hl)

/-- A parameter in the deduced arguments has a source. -/
theorem paramSource_of_deduced (hd : d.Accepted) (hargs : ∀ a ∈ args, a.isClosed = true)
    (hreceiver : ∀ {t : Ty}, receiver = some t → t.isClosed = true)
    (h : (sem.matchDecl d args receiver mode s₀).1 = .ok ded) {a : Arg} (ha : a ∈ ded.args)
    (ho : a.isClosed = false) : sem.ParamSource d args receiver s₀ := by
  by_contra hn
  have hfills := fills_of_not_paramSource H hargs hreceiver hn
  have hclosed := deduced_fills Arg.isClosed_descends hd h hfills a ha
  rw [ho] at hclosed
  cases hclosed

end

end Semantics

namespace Service

variable {svc : Service σ} {m : Machine σ α} {config : EngineConfig} {s : σ} {p : Program σ α}
  {k n : Nat} {i : InstanceId} {x : Instance} {a : Arg} {call : Call} {pl : Plan}

/-- Arguments are resolved for a request that was made in the step before. -/
theorem asks_of_resolve (h : (svc.step m).control = .stage (.resolve call)) :
    m.Asks call.request := by
  have hs : svc.Steps m.run m.waiting m.control (svc.step m) := step_steps m
  obtain ⟨r, c, ws⟩ := m
  generalize svc.step ⟨r, c, ws⟩ = m at hs h
  cases hs with
  | unresolved | refuse | answer | finish | undeclared => cases ws <;> cases h
  | @request role c q next =>
    rw [openCall_eq] at h
    cases h
    exact ⟨role, c, next, rfl⟩
  | _ => cases h

/-- A call is planned two steps after its request, with the arguments that were resolved for it. -/
theorem Planning.asks (h : svc.Planning (svc.after n (.boot config s p)) call pl) :
    ∃ k < n, (svc.after k (.boot config s p)).Asks call.request ∧ ∃ s' s'',
      svc.resolveRequest call.request s' = (.ok pl.resolved, s'') := by
  obtain ⟨resolved, s', hc, hplan⟩ := h
  rw [(Engine.plan_eq_ok hplan).1]
  match n, hc with
  | 0, hc => cases hc
  | 1, hc =>
    have hc : (svc.step (.boot config s p)).control = .stage (.plan call resolved) := hc
    obtain ⟨hresolve, -⟩ := resolved_of_plan hc
    cases hresolve
  | n + 2, hc =>
    rw [after_succ] at hc
    obtain ⟨hresolve, s'', hres⟩ := resolved_of_plan hc
    rw [after_succ] at hresolve
    exact ⟨n, by omega, asks_of_resolve hresolve, _, s'', hres⟩

/-- The arguments of the instance `x` mention a parameter of the declaration that it was made for, by a
match after less than `n` steps that has a source of it. -/
def LeavesOpen (svc : Service σ) (m₀ : Machine σ α) (n : Nat) (i : InstanceId) (x : Instance) : Prop :=
  ∃ k < n, ∃ call p s, svc.Planning (svc.after k m₀) call p ∧
    i = ⟨(svc.after k m₀).engine.insts.size⟩ ∧ p.decl = x.decl ∧ p.deduction.args = x.deduced ∧
    (svc.matchDecl ((svc.after k m₀).engine.decl p.decl) p.resolved call.request.receiver
      .instantiate s).1 = .ok p.deduction ∧
    svc.ParamSource ((svc.after k m₀).engine.decl p.decl) p.resolved call.request.receiver s

/-- What is known of parameters in types and arguments when the run from `m₀` has made `n` steps. -/
structure ClosesOff (svc : Service σ) (m₀ : Machine σ α) (n : Nat) : Prop where
  /-- A type into which closed arguments are put is closed if no parameter is found in it and none was
  in its literal parts. -/
  subst {b : Bindings} (t : Ty) : b.Closed → ((t.subst b).isClosed = true ↔
    (t.subst b).hasParams = false ∧ t.literalsClosed = true)
  /-- If the front end and the requests give closed types, a deduced argument in which a parameter
  occurs comes from the literal parts of a default or of a declared type. -/
  source {i : InstanceId} {x : Instance} {a : Arg} : svc.AnswersClosed →
    (∀ k < n, ∀ q, (svc.after k m₀).Asks q → q.Closed) →
    (svc.after n m₀).engine.inst? i = some x → a ∈ x.deduced → a.isClosed = false →
    svc.LeavesOpen m₀ n i x
  /-- So no parameter occurs in them if none is in the literal parts of the declaration. -/
  closed {i : InstanceId} {x : Instance} {a : Arg} : svc.AnswersClosed →
    (∀ k < n, ∀ q, (svc.after k m₀).Asks q → q.Closed) →
    (svc.after n m₀).engine.inst? i = some x →
    ((svc.after n m₀).engine.decl x.decl).LiteralsClosed → a ∈ x.deduced → a.isClosed = true

theorem leavesOpen_of_deduced (hsvc : svc.AnswersClosed)
    (hasks : ∀ k < n, ∀ q, (svc.after k (.boot config s p)).Asks q → q.Closed)
    (hx : (svc.after n (.boot config s p)).engine.inst? i = some x) (ha : a ∈ x.deduced)
    (ho : a.isClosed = false) : svc.LeavesOpen (.boot config s p) n i x := by
  obtain ⟨k, hk, call, pl, hplan, hi, hmade⟩ := exists_planning (Engine.origins_eq_some hx)
  obtain ⟨l, hl, hcall, s₁, s₂, hres⟩ := hplan.asks
  have hq : call.request.Closed := hasks l (hl.trans hk) _ hcall
  have hd : x.decl = pl.decl := congrArg Instance.decl hmade
  have hded : x.deduced = pl.deduction.args := congrArg Instance.deduced hmade
  obtain ⟨s', hmatch⟩ := hplan.plans.planned.matched
  have haccepted := (faithful_after svc k).accepted (hplan.plans.decl_lt (linked_after svc k))
  refine ⟨k, hk, call, pl, s', hplan, hi, hd.symm, hded.symm, hmatch, ?_⟩
  exact Semantics.paramSource_of_deduced hsvc haccepted (hsvc.resolveRequest hq hres) hq.receiver
    hmatch (hded ▸ ha) ho

/-- **Parameters are left in literal parts only.** -/
theorem closesOff (n : Nat) : svc.ClosesOff (.boot config s p) n := by
  constructor
  case subst => exact fun t hb => Ty.isClosed_subst_iff hb t
  case source => exact leavesOpen_of_deduced
  case closed =>
    intro i x a hsvc hasks hx hd ha
    by_contra ho
    obtain ⟨k, hk, call, pl, s', hplan, -, hdecl, -, -, hsource⟩ :=
      leavesOpen_of_deduced hsvc hasks hx ha (Bool.eq_false_iff.mpr ho)
    have hlt := hplan.plans.decl_lt (linked_after svc k)
    rw [← hdecl, (grows_after svc hk.le).decl hlt] at hd
    exact Semantics.not_paramSource hd hsource

end Service

/-- A front end whose instances have no members, and to which every value converts to every type. -/
def barren : Service Unit where
  evaluate _ _ := pure (.error ⟨"", {}⟩)
  openScope s := pure s
  declareSymbol _ _ _ := pure ()
  conversion _ _ _ := .convert
  symbolName _ _ := ""
  elaborate _ _ := .done (.ok [])

theorem barren_answersClosed : barren.AnswersClosed where
  evaluate h := nomatch h
  resolveType ht h := by
    cases h
    exact ht
  symbolType h := nomatch h

/-- `X!((T) 3)`, where `T` is the first parameter. -/
def literalTy : Ty := .inst (.symbol ⟨7⟩) [.value (.param ⟨0⟩) (.int 3)]

/-- `D(T, X!((T) 3) n, U = X!([T]))`, where `X` is a template that takes a value, or a sequence. -/
def literal : Decl where
  name := "D"
  params := [
    { name := "T", kind := .type {} },
    { name := "n", kind := .value { ty := literalTy } },
    { name := "U",
      kind := .type { default := some (.inst (.symbol ⟨7⟩) [.tuple [.type (.param ⟨0⟩)]]) } }]

/-- `D!(int, 3)`. -/
def askLiteral : Program Unit (Except TemplateError InstanceId) :=
  .command (.declare literal) fun _ =>
    .request [] { decl := ⟨0⟩, args := [.type .int, .value ⟨.int, .int 3⟩] } .done

def askLiteralBoot : Machine Unit (Except TemplateError InstanceId) :=
  .boot { digest := fun _ _ => default } () askLiteral

theorem askLiteral_closed :
    ∀ k < 8, ∀ q, (barren.after k askLiteralBoot).Asks q → q.Closed := by
  rintro k hk q ⟨role, c, next, h⟩
  interval_cases k <;> cases h
  exact ⟨rfl, nofun⟩

/-- The instance that is made for the request. -/
theorem inst?_literal : ∃ x, (barren.after 8 askLiteralBoot).engine.inst? ⟨0⟩ = some x ∧
    x.deduced = [.type .int, .value literalTy (.int 3),
      .type (.inst (.symbol ⟨7⟩) [.tuple [.type (.param ⟨0⟩)]])] :=
  ⟨_, rfl, rfl⟩

theorem exists_open_literal : ∃ x a, (barren.after 8 askLiteralBoot).engine.inst? ⟨0⟩ = some x ∧
    a ∈ x.deduced ∧ a.isClosed = false := by
  obtain ⟨x, hx, hded⟩ := inst?_literal
  have hopen : (Arg.value literalTy (.int 3)).isClosed = false := rfl
  refine ⟨x, _, hx, ?_, hopen⟩
  rw [hded]
  exact List.mem_cons_of_mem _ List.mem_cons_self

/-- The type `X!((T) 3)` is taken to mention no parameter, and stays as it is when `int` is put in. So
arguments that mention `T` are deduced from it, though nothing that is given does. -/
theorem not_closed_literal : Bindings.Closed [some (.type .int)] ∧
    (literalTy.subst [some (.type .int)]).hasParams = false ∧
    (literalTy.subst [some (.type .int)]).isClosed = false ∧
    barren.AnswersClosed ∧ (∀ k < 8, ∀ q, (barren.after k askLiteralBoot).Asks q → q.Closed) ∧
    ∃ x a, (barren.after 8 askLiteralBoot).engine.inst? ⟨0⟩ = some x ∧ a ∈ x.deduced ∧
      a.isClosed = false := by
  refine ⟨?_, rfl, rfl, barren_answersClosed, askLiteral_closed, exists_open_literal⟩
  rintro ⟨_ | i⟩ a h
  · cases h
    rfl
  · cases h

/-- The parameter comes from the declared type of the value, or from the default. -/
theorem closesOff_barren : barren.ClosesOff askLiteralBoot 8 ∧
    ∃ x, (barren.after 8 askLiteralBoot).engine.inst? ⟨0⟩ = some x ∧
      barren.LeavesOpen askLiteralBoot 8 ⟨0⟩ x := by
  have H : barren.ClosesOff askLiteralBoot 8 := Service.closesOff 8
  obtain ⟨x, a, hx, ha, hopen⟩ := exists_open_literal
  exact ⟨H, x, hx, H.source barren_answersClosed askLiteral_closed hx ha hopen⟩

end Templates
