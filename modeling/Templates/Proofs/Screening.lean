import Templates.Proofs.Machine.Making
import Templates.Proofs.Matching.Heredity

/-!
# Errors in arguments

A request is refused if an argument that it gives has an error in it. What matching takes in besides
is not looked at: the receiver, defaults, the declared types of values, and the types of symbols. So
the deduced arguments of an instance can have errors in them, and each such error comes from one of
these (`Semantics.ErrorSource`, `Service.screens`).
-/

namespace Templates

variable {σ α : Type}

theorem Arg.anyContainsError_eq_false {as : List Arg} :
    anyContainsError as = false ↔ ∀ a ∈ as, a.containsError = false := by
  rw [anyContainsError_eq_any, List.any_eq_false]
  simp only [Bool.not_eq_true]

/-- What is made of parts without errors has none. -/
theorem Arg.errorFree_hereditary : Hereditary (·.containsError = false) where
  ulong := rfl
  symbol _ := rfl
  value := .rfl
  const := .rfl
  ptr := .rfl
  array := .rfl
  staticArray := .rfl
  inst := anyContainsError_eq_false
  elems := anyContainsError_eq_false.mp
  ofList {as} h := by
    refine anyContainsError_eq_false.mpr fun x hx => ?_
    obtain ⟨a, ha, hx⟩ := List.mem_flatMap.mp hx
    have ha := h a ha
    cases a with
    | tuple elems => exact anyContainsError_eq_false.mp ha x hx
    | type | value | symbol =>
      obtain rfl := List.mem_singleton.mp hx
      exact ha

namespace Semantics

/-- Where an error can come from that nothing has looked for. The front end is in the state `s₀` before
the match. -/
inductive ErrorSource (sem : Semantics σ) (d : Decl) (args : List Arg) (receiver : Option Ty)
    (s₀ : σ) : Prop
  | receiver {i : ParamIdx} {p : TypeParam} {u : Ty} :
    Deduce.kind? d.params i = some (.this p) → receiver = some u → u.containsError = true →
    ErrorSource sem d args receiver s₀
  /-- The default of a parameter that is given nothing and is free in its turn. -/
  | default {i : ParamIdx} {k : ParamKind} {p : TypeParam} {t : Turn σ} {u : Ty} :
    Deduce.kind? d.params i = some k → k = .type p ∨ k = .this p →
    sem.turn? d args receiver i s₀ = some t → k.argument? receiver t.rest = none →
    t.bound.get? i = none → p.default = some u → u.containsError = true →
    ErrorSource sem d args receiver s₀
  /-- The declared type of a value, which every value for the parameter gets. -/
  | declared {i : ParamIdx} {p : ValueParam} :
    Deduce.kind? d.params i = some (.value p) → p.ty.containsError = true →
    ErrorSource sem d args receiver s₀
  /-- The type that a symbol has when it is matched, if a pattern takes it apart. -/
  | symbolType {i : ParamIdx} {p : SymbolParam} {t : Turn σ} {x : SymbolId} {s : σ} {u : Ty} :
    Deduce.kind? d.params i = some (.symbol p) → p.specType.isSome = true →
    sem.turn? d args receiver i s₀ = some t →
    sem.Offers d receiver i (.symbol p) t (.symbol x) s → sem.symbolType s x = some u →
    u.containsError = true → ErrorSource sem d args receiver s₀

variable {sem : Semantics σ} {d : Decl} {args : List Arg} {receiver : Option Ty} {mode : MatchMode}
  {s₀ : σ} {ded : Deduction}

/-- Without a source of errors nothing that a match takes in has one. -/
theorem intake_of_not_errorSource (hargs : ∀ a ∈ args, a.containsError = false)
    (h : ¬sem.ErrorSource d args receiver s₀) :
    sem.Intake (·.containsError = false) d args receiver s₀ where
  given := hargs
  default hk hp ht hn hfree hu :=
    Bool.eq_false_iff.mpr fun he => h (.default hk hp ht hn hfree hu he)
  received hk hu := Bool.eq_false_iff.mpr fun he => h (.receiver hk hu he)
  declared hk := Bool.eq_false_iff.mpr fun he => h (.declared hk he)
  symbolType hk hp ht ho hu := Bool.eq_false_iff.mpr fun he => h (.symbolType hk hp ht ho hu he)

/-- An error among the deduced arguments has a source. -/
theorem errorSource_of_deduced (hd : d.Accepted) (hargs : ∀ a ∈ args, a.containsError = false)
    (h : (sem.matchDecl d args receiver mode s₀).1 = .ok ded) {a : Arg} (ha : a ∈ ded.args)
    (he : a.containsError = true) : sem.ErrorSource d args receiver s₀ := by
  by_contra hn
  have hfree := deduced_inherits Arg.errorFree_hereditary hd h (intake_of_not_errorSource hargs hn)
  exact absurd he (Bool.eq_false_iff.mp (hfree a ha))

end Semantics

/-- No instance has an error in its deduced arguments. -/
def Engine.ErrorFree (e : Engine) : Prop :=
  ∀ ⦃i x⦄, e.inst? i = some x → ∀ a ∈ x.deduced, a.containsError = false

namespace Service

/-- What is known of the errors in the arguments of the instance `x`, which is there as `i` after `n`
steps. -/
structure Screens (svc : Service σ) (m₀ : Machine σ α) (n : Nat) (i : InstanceId) (x : Instance) :
    Prop where
  resolved : ∀ a ∈ x.resolved, a.containsError = false
  /-- If a deduced argument has one, the match for which the instance was made has a source of it. -/
  deduced : (∃ a ∈ x.deduced, a.containsError = true) →
    ∃ k < n, ∃ call p s, svc.Planning (svc.after k m₀) call p ∧
      i = ⟨(svc.after k m₀).engine.insts.size⟩ ∧ p.decl = x.decl ∧
      p.resolved = x.resolved ∧ p.deduction.args = x.deduced ∧
      (svc.matchDecl ((svc.after k m₀).engine.decl p.decl) p.resolved call.request.receiver
        .instantiate s).1 = .ok p.deduction ∧
      svc.ErrorSource ((svc.after k m₀).engine.decl p.decl) p.resolved call.request.receiver s

/-- **Only what a request gives is screened for errors.** -/
theorem screens {svc : Service σ} {config : EngineConfig} {s : σ} {p : Program σ α} {n : Nat}
    {i : InstanceId} {x : Instance} (hx : (svc.after n (.boot config s p)).engine.inst? i = some x) :
    svc.Screens (.boot config s p) n i x := by
  obtain ⟨k, hk, call, pl, hplan, hi, hmade⟩ := exists_planning (Engine.origins_eq_some hx)
  have hfree := hplan.screened
  have hd : x.decl = pl.decl := congrArg Instance.decl hmade
  have hres : x.resolved = pl.resolved := congrArg Instance.resolved hmade
  have hded : x.deduced = pl.deduction.args := congrArg Instance.deduced hmade
  constructor
  case resolved => exact hres ▸ hfree
  case deduced =>
    rintro ⟨a, ha, he⟩
    obtain ⟨s', hmatch⟩ := hplan.plans.planned.matched
    refine ⟨k, hk, call, pl, s', hplan, hi, hd.symm, hres.symm, hded.symm, hmatch, ?_⟩
    have haccepted := (faithful_after svc k).accepted (hplan.plans.decl_lt (linked_after svc k))
    exact Semantics.errorSource_of_deduced haccepted hfree hmatch (hded ▸ ha) he

end Service

/-- A front end to which the types of symbols are errors, and to which every value converts to every
type. -/
def lenient : Service Unit where
  evaluate _ _ := pure (.error ⟨"", {}⟩)
  openScope s := pure s
  declareSymbol _ _ _ := pure ()
  symbolType _ _ := some .error
  conversion _ _ _ := .convert
  symbolName _ _ := ""
  elaborate _ _ := .done (.ok [])

/-- `D(this S, alias A : U, E n, U, T = E)`, where `E` is an error. -/
def erring : Decl where
  name := "D"
  params := [
    { name := "S", kind := .this {} },
    { name := "A", kind := .symbol { specType := some (.param ⟨3⟩) } },
    { name := "n", kind := .value { ty := .error } },
    { name := "U", kind := .type {} },
    { name := "T", kind := .type { default := some .error } }]

/-- `e.D!(x, 3)`, where the type of `e` is an error. -/
def askErring : Program Unit (Except TemplateError InstanceId) :=
  .command (.declare erring) fun _ =>
    .request [] { decl := ⟨0⟩, args := [.symbol ⟨5⟩, .value ⟨.int, .int 3⟩], receiver := some .error }
      .done

def askErringBoot : Machine Unit (Except TemplateError InstanceId) :=
  .boot { digest := fun _ _ => default } () askErring

/-- The instance that is made for the request. -/
theorem inst?_erring : ∃ x, (lenient.after 8 askErringBoot).engine.inst? ⟨0⟩ = some x ∧
    x.resolved = [.symbol ⟨5⟩, .value .int (.int 3)] ∧
    x.deduced = [.type .error, .symbol ⟨5⟩, .value .error (.int 3), .type .error, .type .error] :=
  ⟨_, rfl, rfl, rfl⟩

/-- Neither argument that is given has an error, and all that is deduced from elsewhere has one. -/
theorem screens_lenient : ∃ x, (lenient.after 8 askErringBoot).engine.inst? ⟨0⟩ = some x ∧
    x.resolved = [.symbol ⟨5⟩, .value .int (.int 3)] ∧
    x.deduced = [.type .error, .symbol ⟨5⟩, .value .error (.int 3), .type .error, .type .error] ∧
    lenient.Screens askErringBoot 8 ⟨0⟩ x := by
  obtain ⟨x, hx, hres, hded⟩ := inst?_erring
  exact ⟨x, hx, hres, hded, Service.screens hx⟩

theorem not_errorFree_lenient : ¬(lenient.after 8 askErringBoot).engine.ErrorFree := by
  intro h
  obtain ⟨x, hx, -, hded⟩ := inst?_erring
  have hfree := h hx (.type .error)
  rw [hded] at hfree
  cases hfree List.mem_cons_self

end Templates
