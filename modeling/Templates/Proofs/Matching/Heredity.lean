import Templates.Proofs.Matching.Turns

/-!
# What deduced arguments inherit

The arguments of a match are made of parts of what was given, of defaults, and of the declared types of
values. A property of arguments that goes down to their parts (`Arg.Descends`) holds of all of them if it
holds of what the match takes apart, and of defaults and declared types with the bindings put in
(`Semantics.Fills`, `Semantics.deduced_fills`). If it also goes up to what is made of parts that have it
(`Arg.Hereditary`), it is enough that it holds of everything that the match takes in
(`Semantics.Intake`, `Semantics.deduced_inherits`).
-/

namespace Templates

/-- The property goes from an argument to its parts, and from arguments to sequences of them. -/
structure Arg.Descends (Q : Arg → Prop) : Prop where
  ulong : Q (.type .ulong)
  symbol (s : SymbolId) : Q (.symbol s)
  value {t : Ty} {c : Const} : Q (.type t) → Q (.value t c)
  const {t : Ty} : Q (.type (.const t)) → Q (.type t)
  ptr {t : Ty} : Q (.type (.ptr t)) → Q (.type t)
  array {t : Ty} : Q (.type (.array t)) → Q (.type t)
  staticArray {t : Ty} {d : Dim} : Q (.type (.staticArray t d)) → Q (.type t)
  inst {r : TemplateRef} {as : List Arg} : Q (.type (.inst r as)) → ∀ a ∈ as, Q a
  ofList {as : List Arg} : (∀ a ∈ as, Q a) → Q (.ofList as)

/-- The property goes from an argument to its parts, and an argument has it if its parts do. -/
structure Arg.Hereditary (Q : Arg → Prop) : Prop where
  ulong : Q (.type .ulong)
  symbol (s : SymbolId) : Q (.symbol s)
  value {t : Ty} {c : Const} : Q (.value t c) ↔ Q (.type t)
  const {t : Ty} : Q (.type (.const t)) ↔ Q (.type t)
  ptr {t : Ty} : Q (.type (.ptr t)) ↔ Q (.type t)
  array {t : Ty} : Q (.type (.array t)) ↔ Q (.type t)
  staticArray {t : Ty} {d : Dim} : Q (.type (.staticArray t d)) ↔ Q (.type t)
  inst {r : TemplateRef} {as : List Arg} : Q (.type (.inst r as)) ↔ ∀ a ∈ as, Q a
  elems {as : List Arg} : Q (.tuple as) → ∀ a ∈ as, Q a
  ofList {as : List Arg} : (∀ a ∈ as, Q a) → Q (.ofList as)

/-- All that is bound has the property. -/
def Bindings.All (Q : Arg → Prop) (b : Bindings) : Prop := ∀ ⦃i a⦄, b.get? i = some a → Q a

/-- What is taken apart has the property. -/
def Deduce.Goal.All (Q : Arg → Prop) : Deduce.Goal → Prop
  | .ty t _ => Q (.type t)
  | .arg a _ => Q a
  | .args as _ => ∀ a ∈ as, Q a

variable {Q : Arg → Prop} {b c : Bindings} {i : ParamIdx} {a : Arg}

namespace Bindings.All

theorem free (Q : Arg → Prop) (n : Nat) : Bindings.All Q (.free n) := by
  intro i a h
  rw [get?_free] at h
  cases h

theorem unify (hb : b.All Q) (ha : Q a) (h : b.unify i a = some c) : c.All Q := by
  obtain ⟨hi, ⟨-, rfl⟩ | ⟨-, rfl⟩⟩ := unify_eq_some_iff.mp h
  · intro j x hx
    rw [get?_set hi] at hx
    split at hx
    · cases hx
      exact ha
    · exact hb hx
  · exact hb

end Bindings.All

namespace Arg.Hereditary

theorem descends (hQ : Hereditary Q) : Descends Q where
  ulong := hQ.ulong
  symbol := hQ.symbol
  value := hQ.value.mpr
  const := hQ.const.mp
  ptr := hQ.ptr.mp
  array := hQ.array.mp
  staticArray := hQ.staticArray.mp
  inst := hQ.inst.mp
  ofList := hQ.ofList

theorem constant (hQ : Hereditary Q) {t : Ty} (h : Q (.type t)) : Q (.type t.constant) := by
  cases t with
  | const => exact h
  | _ => exact hQ.const.mpr h

theorem splice (hQ : Hereditary Q) (hb : b.All Q) (hi : Q (.type (.param i))) :
    ∀ a ∈ b.splice i, Q a := by
  unfold Bindings.splice
  split
  · next h => exact hQ.elems (hb h)
  · next h => exact List.forall_mem_singleton.mpr (hb h)
  · exact List.forall_mem_singleton.mpr hi

/-- A substitution puts in only what is bound. -/
theorem subst_all (hQ : Hereditary Q) (hb : b.All Q) :
    (∀ t : Ty, Q (.type t) → Q (.type (t.subst b))) ∧ (∀ a : Arg, Q a → ∀ x ∈ a.subst b, Q x) ∧
      ∀ as : List Arg, (∀ a ∈ as, Q a) → ∀ x ∈ Arg.substList b as, Q x := by
  refine Ty.induct ?basic ?named ?const ?ptr ?array ?staticArray ?inst ?param ?standIn ?error ?type
    ?value ?symbol ?tuple ?nil ?cons
  case basic | named | standIn => exact fun _ h => h
  case error => exact id
  case const => exact fun t ih h => hQ.constant (ih (hQ.const.mp h))
  case ptr => exact fun t ih h => hQ.ptr.mpr (ih (hQ.ptr.mp h))
  case array => exact fun t ih h => hQ.array.mpr (ih (hQ.array.mp h))
  case staticArray => exact fun t d ih h => hQ.staticArray.mpr (ih (hQ.staticArray.mp h))
  case inst => exact fun r as ih h => hQ.inst.mpr (ih (hQ.inst.mp h))
  case param =>
    intro i h
    rw [Ty.subst]
    split
    · next hi => exact hb hi
    · exact h
  case type =>
    intro t ih h
    by_cases hp : ∃ i, t = .param i
    · obtain ⟨i, rfl⟩ := hp
      exact hQ.splice hb h
    · rw [Arg.subst_type fun i hi => hp ⟨i, hi⟩]
      exact List.forall_mem_singleton.mpr (ih h)
  case symbol => exact fun _ h => List.forall_mem_singleton.mpr h
  case value => exact fun _ _ _ h => List.forall_mem_singleton.mpr h
  case tuple => exact fun _ _ h => List.forall_mem_singleton.mpr h
  case nil => exact fun _ => List.forall_mem_nil _
  case cons =>
    intro a as iha ihas h
    obtain ⟨ha, has⟩ := List.forall_mem_cons.mp h
    exact List.forall_mem_append.mpr ⟨iha ha, ihas has⟩

theorem subst (hQ : Hereditary Q) (hb : b.All Q) {t : Ty} (h : Q (.type t)) :
    Q (.type (t.subst b)) := (hQ.subst_all hb).1 t h

end Arg.Hereditary

/-! ## Deduction -/

namespace Deduce

variable {ps : List Param} {l : Level}

section

variable (hQ : Arg.Descends Q)
  (hps : ∀ ⦃i p⦄, kind? ps i = some (.value p) → p.ty.hasParams = false → Q (.type p.ty))
  (hb : b.All Q)

include hQ hps hb

/-- A length becomes a value of the declared type. -/
theorem dim_all {d n : Dim} (h : dim ps d n b = some c) : c.All Q := by
  obtain ⟨-, -, rfl⟩ | ⟨i, p, x, rfl, hp, -, hc⟩ := dim_eq_some h
  · exact hb
  · refine hb.unify (hQ.value ?_) hc
    unfold lengthTy
    split
    · exact hQ.ulong
    · next hclosed => exact hps hp (Bool.eq_false_iff.mpr hclosed)

theorem Derives.all {g : Goal} (h : Derives ps g b l c) (hg : g.All Q) : c.All Q := by
  induction h with
  | param h =>
    obtain ⟨k, -, -, hc⟩ := tyParam_eq_some h
    exact hb.unify hg hc
  | argParam h =>
    obtain ⟨-, k, -, -, hc⟩ := argParam_eq_some h
    exact hb.unify hg hc
  | const _ ih | unqualify _ _ _ ih => exact ih hb (hQ.const hg)
  | ptr _ ih => exact ih hb (hQ.ptr hg)
  | array _ ih => exact ih hb (hQ.array hg)
  | staticArray _ hd ih => exact dim_all hQ hps (ih hb (hQ.staticArray hg)) hd
  | inst hr _ ih =>
    obtain ⟨-, -, rfl⟩ | ⟨i, p, s, rfl, rfl, -, hc⟩ := templateRef_eq_some hr
    · exact ih hb (hQ.inst hg)
    · exact ih (hb.unify (hQ.symbol s) hc) (hQ.inst hg)
  | type _ _ ih => exact ih hb hg
  | soak _ hc => exact hb.unify (hQ.ofList hg) hc
  | cons _ _ _ iha ihas =>
    obtain ⟨ha, has⟩ := List.forall_mem_cons.mp hg
    exact ihas (iha hb ha) has
  | basic | named | standIn | value | symbol | tuple | nil => exact hb

theorem ty_all {t pat : Ty} (h : ty ps t pat b = some (l, c)) (ht : Q (.type t)) : c.All Q := by
  have hd : Derives ps (.ty t pat) b l c := run_eq_some_iff.mp h
  exact hd.all hQ hps hb ht

end

end Deduce

/-! ## Matching -/

/-- Everything that a match takes in has the property. The front end is in the state `s₀` before. -/
structure Semantics.Intake {σ : Type} (sem : Semantics σ) (Q : Arg → Prop) (d : Decl)
    (args : List Arg) (receiver : Option Ty) (s₀ : σ) : Prop where
  given : ∀ a ∈ args, Q a
  /-- The default of a parameter that is given nothing and is free in its turn. -/
  default {i : ParamIdx} {k : ParamKind} {p : TypeParam} {t : Turn σ} {u : Ty} :
    Deduce.kind? d.params i = some k → k = .type p ∨ k = .this p →
    sem.turn? d args receiver i s₀ = some t → k.argument? receiver t.rest = none →
    t.bound.get? i = none → p.default = some u → Q (.type u)
  /-- The receiver, if a `this` parameter takes it. -/
  received {i : ParamIdx} {p : TypeParam} {u : Ty} :
    Deduce.kind? d.params i = some (.this p) → receiver = some u → Q (.type u)
  declared {i : ParamIdx} {p : ValueParam} :
    Deduce.kind? d.params i = some (.value p) → Q (.type p.ty)
  /-- The type that a symbol has when it is matched, if there is a pattern for it. -/
  symbolType {i : ParamIdx} {p : SymbolParam} {t : Turn σ} {x : SymbolId} {s : σ} {u : Ty} :
    Deduce.kind? d.params i = some (.symbol p) → p.specType.isSome = true →
    sem.turn? d args receiver i s₀ = some t →
    sem.Offers d receiver i (.symbol p) t (.symbol x) s → sem.symbolType s x = some u → Q (.type u)

/-- What a match takes apart has the property, and so has what it puts the bindings in. The front end is
in the state `s₀` before. -/
structure Semantics.Fills {σ : Type} (sem : Semantics σ) (Q : Arg → Prop) (d : Decl)
    (args : List Arg) (receiver : Option Ty) (s₀ : σ) : Prop where
  given : ∀ a ∈ args, Q a
  /-- The default of a parameter that is given nothing and is free in its turn. -/
  default {i : ParamIdx} {k : ParamKind} {p : TypeParam} {t : Turn σ} {u : Ty} :
    Deduce.kind? d.params i = some k → k = .type p ∨ k = .this p →
    sem.turn? d args receiver i s₀ = some t → k.argument? receiver t.rest = none →
    t.bound.get? i = none → p.default = some u → t.bound.All Q →
    (u.subst t.bound).hasParams = false → Q (.type (u.subst t.bound))
  /-- The receiver, if a `this` parameter takes it. -/
  received {i : ParamIdx} {p : TypeParam} {u : Ty} :
    Deduce.kind? d.params i = some (.this p) → receiver = some u → Q (.type u)
  declared {i : ParamIdx} {p : ValueParam} {b : Bindings} :
    Deduce.kind? d.params i = some (.value p) → b.All Q → (p.ty.subst b).hasParams = false →
    Q (.type (p.ty.subst b))
  /-- The declared type of a value that is the length of an array. -/
  length {i : ParamIdx} {p : ValueParam} :
    Deduce.kind? d.params i = some (.value p) → p.ty.hasParams = false → Q (.type p.ty)
  /-- The type that a symbol has when it is matched, if there is a pattern for it. -/
  symbolType {i : ParamIdx} {p : SymbolParam} {t : Turn σ} {x : SymbolId} {s : σ} {u : Ty} :
    Deduce.kind? d.params i = some (.symbol p) → p.specType.isSome = true →
    sem.turn? d args receiver i s₀ = some t →
    sem.Offers d receiver i (.symbol p) t (.symbol x) s → sem.symbolType s x = some u → Q (.type u)

namespace Semantics

variable {σ : Type} {sem : Semantics σ} {d : Decl} {k : ParamKind} {args : List Arg}
  {receiver : Option Ty} {mode : MatchMode} {s s₀ : σ} {ded : Deduction} {l : Level} {t : Turn σ}

section

variable (hQ : Arg.Descends Q) (hd : d.Accepted) (H : sem.Fills Q d args receiver s₀)
  (hk : Deduce.kind? d.params i = some k) (ht : sem.turn? d args receiver i s₀ = some t)
  (hb : t.bound.All Q)

include hQ hd H hk ht hb

/-- What is offered to a parameter is given to it or comes from its default. The type of a value does
not matter, since the value gets the declared type. -/
theorem offers_all (h : sem.Offers d receiver i k t a s) (hvalue : ∀ p, k ≠ .value p) : Q a := by
  cases h with
  | given ha =>
    have hrest : ∀ n, ∀ x ∈ args.drop n, Q x := fun n x hx => H.given x (List.mem_of_mem_drop hx)
    rw [← argument?_of_turn? hd hk ht, Decl.argument?, hk, Option.bind_some] at ha
    cases k with
    | this p =>
      obtain ⟨u, hu, rfl⟩ := Option.map_eq_some_iff.mp ha
      exact H.received hk hu
    | type | value | symbol => exact hrest _ a (List.mem_of_head? ha)
    | tuple =>
      change (if _ then none else some (Arg.ofList _)) = some a at ha
      split at ha
      · cases ha
      · cases ha
        exact hQ.ofList (hrest _)
  | default hn hfree hdef =>
    rw [bind_run] at hdef
    cases k with
    | type p | this p =>
      obtain ⟨u, hu, rfl⟩ := Option.map_eq_some_iff.mp (Except.ok.inj (congrArg Prod.fst hdef))
      obtain ⟨hu, hclosed⟩ := Option.filter_eq_some_iff.mp hu
      obtain ⟨v, hv, rfl⟩ := Option.map_eq_some_iff.mp hu
      exact H.default hk (by simp) ht hn hfree hv hb (by simpa using hclosed)
    | value p => exact absurd rfl (hvalue p)
    | symbol p =>
      obtain ⟨x, -, rfl⟩ := Option.map_eq_some_iff.mp (Except.ok.inj (congrArg Prod.fst hdef))
      exact hQ.symbol _
    | tuple => cases hdef

theorem matchArg_all (ho : sem.Offers d receiver i k t a s)
    (h : (sem.matchArg d i k a t.bound s).1 = some (l, c)) : c.All Q := by
  have ha := offers_all hQ hd H hk ht hb ho
  have hps : ∀ ⦃i p⦄, Deduce.kind? d.params i = some (.value p) → p.ty.hasParams = false →
      Q (.type p.ty) := fun _ _ => H.length
  cases k with
  | type p | this p =>
    have ha := ha nofun
    have h : matchType i d.params p a t.bound = _ := h
    obtain ⟨u, rfl, ⟨-, hu⟩ | ⟨pat, m, b', -, hb', ⟨own, -, rfl⟩ | ⟨-, hu⟩⟩⟩ := matchType_eq_some h
    · exact hb.unify ha hu
    · exact Deduce.ty_all hQ hps hb hb' ha
    · exact (Deduce.ty_all hQ hps hb hb' ha).unify ha hu
  | value p =>
    obtain ⟨v, hv, hu⟩ := matchValue_eq_some h
    obtain ⟨u, -, hty, hclosed⟩ := convert?_eq_some hv
    refine hb.unify (hQ.value ?_) hu
    rw [hty]
    exact H.declared hk hb hclosed
  | symbol p =>
    have h : sem.matchSymbol s i d.params p a t.bound = _ := h
    obtain ⟨x, rfl, ⟨-, hu⟩ | ⟨pat, u, m, b', hp, hty, hb', hu⟩⟩ := matchSymbol_eq_some h
    · exact hb.unify (hQ.symbol x) hu
    · have hu' : Q (.type u) := H.symbolType hk (by rw [hp]; rfl) ht ho hty
      exact (Deduce.ty_all hQ hps hb hb' hu').unify (hQ.symbol x) hu
  | tuple =>
    have h : matchTuple i [a] t.bound = _ := h
    obtain ⟨hnil, -⟩ | hu := matchTuple_eq_some h
    · cases hnil
    · exact hb.unify (hQ.ofList (List.forall_mem_singleton.mpr (ha nofun))) hu

theorem visited_all (h : sem.Visited d receiver i k t l c) : c.All Q := by
  cases h with
  | offered ho hm => exact matchArg_all hQ hd H hk ht hb ho hm
  | kept => exact hb
  | empty _ _ _ hu => exact hb.unify (hQ.ofList (List.forall_mem_nil _)) hu

end

/-- **What holds of all that is taken apart or filled in holds of a match.** -/
theorem deduced_fills (hQ : Arg.Descends Q) (hd : d.Accepted)
    (h : (sem.matchDecl d args receiver mode s₀).1 = .ok ded)
    (H : sem.Fills Q d args receiver s₀) : ∀ a ∈ ded.args, Q a := by
  have hall : (Bindings.ofArgs ded.args).All Q :=
    matchDecl_induct (M := fun _ b => b.All Q) h (.free Q _)
      fun _ _ _ _ _ _ hk ht hv _ hb => visited_all hQ hd H hk ht hb hv
  intro a ha
  obtain ⟨n, hn⟩ := List.mem_iff_getElem?.mp ha
  exact hall (i := ⟨n⟩) ((Bindings.get?_ofArgs ..).trans hn)

/-- What is filled with arguments that have the property has it if the pattern does. -/
theorem Intake.fills (hQ : Arg.Hereditary Q) (H : sem.Intake Q d args receiver s₀) :
    sem.Fills Q d args receiver s₀ where
  given := H.given
  default hk hp ht hn hfree hu hb _ := hQ.subst hb (H.default hk hp ht hn hfree hu)
  received := H.received
  declared hk hb _ := hQ.subst hb (H.declared hk)
  length hk _ := H.declared hk
  symbolType := H.symbolType

/-- **A match inherits what holds of everything that it takes in.** -/
theorem deduced_inherits (hQ : Arg.Hereditary Q) (hd : d.Accepted)
    (h : (sem.matchDecl d args receiver mode s₀).1 = .ok ded)
    (H : sem.Intake Q d args receiver s₀) : ∀ a ∈ ded.args, Q a :=
  deduced_fills hQ.descends hd h (H.fills hQ)

end Semantics

end Templates
