import Templates.Proofs.Ranking.Renaming

/-!
# Matching with an impartial front end

An impartial front end answers the same whatever it was asked before and whatever the stand-ins are
called (`Semantics.Impartial`). With such a front end a declaration in which no stand-in is written
takes renamed arguments in one state if it takes the arguments in another, and gives the same reason
if it does not (`Semantics.Impartial.matchDecl`).
-/

namespace Templates

section

variable {σ α β γ δ : Type} {ok : σ → Prop} {g : α → β} {h : γ → δ}

/-- From any two states that are `ok` the second program answers what the first does, up to `g`, and
both leave states that are `ok`. -/
def Agree (ok : σ → Prop) (g : α → β) (x : StateM σ α) (y : StateM σ β) : Prop :=
  ∀ ⦃s s'⦄, ok s → ok s' → (y s').1 = g (x s).1 ∧ ok (x s).2 ∧ ok (y s').2

namespace Agree

theorem pure {a : α} {b : β} (hb : b = g a) : Agree ok g (pure a) (pure b) :=
  fun _ _ hs hs' => ⟨hb, hs, hs'⟩

theorem bind {x : StateM σ α} {y : StateM σ β} {k : α → StateM σ γ} {l : β → StateM σ δ}
    (hxy : Agree ok g x y) (hkl : ∀ a, Agree ok h (k a) (l (g a))) :
    Agree ok h (x >>= k) (y >>= l) := by
  intro s s' hs hs'
  obtain ⟨hy, hs, hs'⟩ := hxy hs hs'
  rw [bind_run, bind_run, hy]
  exact hkl _ hs hs'

theorem get_bind {k : σ → StateM σ γ} {l : σ → StateM σ δ}
    (hkl : ∀ s s', ok s → ok s' → Agree ok h (k s) (l s')) : Agree ok h (get >>= k) (get >>= l) :=
  fun s s' hs hs' => hkl s s' hs hs' hs hs'

end Agree

end

/-! ## Declarations and front ends -/

namespace ParamKind

/-- The types that are written in the parameter. -/
def types : ParamKind → List Ty
  | .type p | .this p => p.spec.toList ++ p.default.toList
  | .value p => [p.ty]
  | .symbol p => p.specType.toList
  | .tuple => []

/-- The symbols that are written in the parameter. -/
def symbols : ParamKind → List SymbolId
  | .symbol p => p.specSymbol.toList ++ p.default.toList
  | .type _ | .this _ | .value _ | .tuple => []

/-- No stand-in is written in the parameter. -/
structure StandInFree (k : ParamKind) : Prop where
  types : ∀ t ∈ k.types, t.All .plain
  symbols : ∀ s ∈ k.symbols, s.isPlaceholder = false

theorem StandInFree.pattern {k : ParamKind} (h : k.StandInFree) {t : Ty}
    (ht : k.pattern? = some t) : t.All .plain := by
  refine h.types t ?_
  cases k with
  | tuple => cases ht
  | value p =>
    cases ht
    exact List.mem_singleton_self _
  | type p | this p => exact List.mem_append_left _ (Option.mem_toList.mpr ht)
  | symbol p => exact Option.mem_toList.mpr ht

end ParamKind

/-- No stand-in is written in the declaration. -/
def Decl.StandInFree (d : Decl) : Prop := ∀ p ∈ d.params, p.kind.StandInFree

variable {σ : Type} {sem : Semantics σ} {ok : σ → Prop} {known : ScopeId → Prop} {d : Decl}
  {i : ParamIdx} {k : ParamKind} {a : Arg} {b : Bindings}

namespace Decl.StandInFree

theorem kind (h : d.StandInFree) (hi : Deduce.kind? d.params i = some k) : k.StandInFree := by
  obtain ⟨p, hp, rfl⟩ := Option.map_eq_some_iff.mp hi
  exact h p (List.mem_of_getElem? hp)

theorem plainValues (h : d.StandInFree) : PlainValues d.params :=
  fun _ _ hi => (h.kind hi).pattern rfl

end Decl.StandInFree

def Value.fill (f : Filling) (v : Value) : Value := ⟨v.ty.fill f, v.const.fill f⟩

/-- Folds an expression where the parameters that are bound have their names. -/
def Semantics.evaluateFor (sem : Semantics σ) (d : Decl) (b : Bindings) (e : ExprId) :
    StateM σ (Except Failure Value) := do
  sem.evaluate e (← sem.paramScope d b)

/-- In all states that are `ok` the front end gives the same answers, and renamed ones if stand-ins
are renamed. Expressions are folded in the scopes of declarations, which are `known`, and in scopes
of parameters opened there. -/
structure Semantics.Impartial (sem : Semantics σ) (ok : σ → Prop) (known : ScopeId → Prop) :
    Prop where
  evaluate (r : Renaming) (e : ExprId) {scope : ScopeId} : known scope →
    Agree ok (Except.map (Value.fill r.filling)) (sem.evaluate e scope) (sem.evaluate e scope)
  evaluateFor (r : Renaming) (b : Bindings) (e : ExprId) {d : Decl} : known d.scope →
    Agree ok (Except.map (Value.fill r.filling)) (sem.evaluateFor d b e)
      (sem.evaluateFor d (b.fill r.filling) e)
  paramScope (b : Bindings) {d : Decl} {s : σ} : known d.scope → ok s → ok (sem.paramScope d b s).2
  canonicalSymbol (r : Renaming) (x : SymbolId) {s s' : σ} : ok s → ok s' →
    sem.canonicalSymbol s' (r.symbol x) = r.symbol (sem.canonicalSymbol s x)
  symbolType (r : Renaming) (x : SymbolId) {s s' : σ} : ok s → ok s' →
    sem.symbolType s' (r.symbol x) = (sem.symbolType s x).map (Ty.fill r.filling)
  conversion (r : Renaming) (t u : Ty) {s s' : σ} : ok s → ok s' →
    sem.conversion s' (t.fill r.filling) (u.fill r.filling) = sem.conversion s t u

namespace Renaming

/-- What a visit to a parameter gives, renamed. -/
def visit (r : Renaming) : Semantics.Visit → Semantics.Visit :=
  Except.map fun (l, b) => (l, b.fill r.filling)

/-- What the visits to all parameters give, renamed. -/
def visits (r : Renaming) : Except Rejection (Level × Bindings × List Arg) →
    Except Rejection (Level × Bindings × List Arg) :=
  Except.map fun (l, b, args) => (l, b.fill r.filling, Arg.fillList r.filling args)

/-- A match with its arguments renamed. -/
def deduced (r : Renaming) : Except Rejection Deduction → Except Rejection Deduction :=
  Except.map fun ded => ⟨ded.level, Arg.fillList r.filling ded.args⟩

theorem complete_fill (r : Renaming) (n : Nat) (b : Bindings) :
    Semantics.complete n (b.fill r.filling) =
      (Semantics.complete n b).map (Arg.fillList r.filling) := by
  induction b generalizing n with
  | nil => rfl
  | cons a b ih =>
    cases a with
    | none => rfl
    | some a =>
      change (Semantics.complete (n + 1) (Bindings.fill r.filling b)).map _ = _
      rw [ih, Semantics.complete]
      cases Semantics.complete (n + 1) b <;> rfl

end Renaming

namespace Semantics.Impartial

variable (hsem : sem.Impartial ok known) (r : Renaming) {s s' : σ} (hs : ok s) (hs' : ok s')
include hsem

/-! ## One argument -/

section

include hs hs'

theorem convert? {p : ValueParam} (hp : p.ty.All .plain) :
    sem.convert? s' p (a.fill r.filling) (b.fill r.filling) =
      (sem.convert? s p a b).map fun (l, v) => (l, v.fill r.filling) := by
  cases a with
  | type | symbol | tuple => rfl
  | value t c =>
    have hty : p.ty.subst (b.fill r.filling) = (p.ty.subst b).fill r.filling :=
      ((fill_subst r.filling b).1 p.ty hp (r.all_measured _)).symm
    unfold Semantics.convert?
    simp only [Arg.fill, hty, r.hasParams_fill, r.fill_inj, hsem.conversion r _ _ hs hs']
    split
    · rfl
    · generalize (if t = p.ty.subst b then Level.exact else sem.conversion s t (p.ty.subst b)) = l
      split <;> rfl

theorem matchSymbol {ps : List Param} {p : SymbolParam} (hps : PlainValues ps)
    (hp : (ParamKind.symbol p).StandInFree) :
    sem.matchSymbol s' i ps p (a.fill r.filling) (b.fill r.filling) =
      r.fit (sem.matchSymbol s i ps p a b) := by
  cases a with
  | type | value | tuple => rfl
  | symbol x =>
    have hspec : (p.specSymbol.any fun y => sem.canonicalSymbol s' y ≠ r.symbol x) =
        p.specSymbol.any fun y => sem.canonicalSymbol s y ≠ x := by
      cases hy : p.specSymbol with
      | none => rfl
      | some y =>
        have hreal : y.isPlaceholder = false :=
          hp.symbols y (List.mem_append_left _ (Option.mem_toList.mpr hy))
        have hcan := hsem.canonicalSymbol r y hs hs'
        rw [r.symbol_of_real hreal] at hcan
        simp only [Option.any_some, hcan, ne_eq, EmbeddingLike.apply_eq_iff_eq]
    unfold Semantics.matchSymbol
    simp only [Arg.fill, r.filling_symbol, hspec]
    by_cases hask : (p.specSymbol.any fun y => sem.canonicalSymbol s y ≠ x) = true
    · rw [if_pos hask, if_pos hask]
      rfl
    rw [if_neg hask, if_neg hask]
    cases ht : p.specType with
    | none => exact r.unify_fill (a := .symbol x) .exact
    | some pat =>
      dsimp only
      rw [r.isPlaceholder_symbol, hsem.symbolType r x hs hs']
      cases x.isPlaceholder with
      | true => rfl
      | false =>
        cases sem.symbolType s x with
        | none => rfl
        | some t =>
          simp only [Option.map_some, Option.bind_some]
          rw [r.ty_fill hps (hp.pattern ht)]
          cases Deduce.ty ps t pat b with
          | none => rfl
          | some y => exact r.unify_fill (a := .symbol x) .exact

end

/-- What is done with the value of an expression. -/
theorem evaluateFor_bind {α β : Type} {g : α → β} {l : Except Failure Value → StateM σ α}
    {m : Except Failure Value → StateM σ β} {e : ExprId} (hd : known d.scope)
    (h : ∀ result, Agree ok g (l result) (m (result.map (Value.fill r.filling)))) :
    Agree ok g (do l (← sem.evaluate e (← sem.paramScope d b)))
      (do m (← sem.evaluate e (← sem.paramScope d (b.fill r.filling)))) :=
  (hsem.evaluateFor r b e hd).bind h

theorem matchValue {p : ValueParam} (hd : known d.scope) (hp : p.ty.All .plain) :
    Agree ok r.fit (sem.matchValue i d p a b)
      (sem.matchValue i d p (a.fill r.filling) (b.fill r.filling)) := by
  refine .get_bind fun s s' hs hs' => ?_
  rw [hsem.convert? r hs hs' hp]
  rcases sem.convert? s p a b with _ | ⟨l, v⟩
  · exact .pure rfl
  have bound : Agree ok r.fit (Pure.pure ((b.unify i (.ofValue v)).map (l, ·)))
      (Pure.pure (((b.fill r.filling).unify i (.ofValue (v.fill r.filling))).map (l, ·))) :=
    .pure (r.unify_fill (a := .ofValue v) l)
  simp only [Option.map_some]
  cases p.spec with
  | none => exact bound
  | some e =>
    refine hsem.evaluateFor_bind r hd fun result => ?_
    cases result with
    | error f => exact .pure rfl
    | ok expected =>
      change Agree ok r.fit (if expected.const = v.const then _ else _)
        (if expected.const.fill r.filling = v.const.fill r.filling then _ else _)
      simp only [r.const_fill_inj]
      split
      · exact bound
      · exact .pure rfl

theorem matchArg (hd : known d.scope) (hfree : d.StandInFree)
    (hi : Deduce.kind? d.params i = some k) :
    Agree ok r.fit (sem.matchArg d i k a b)
      (sem.matchArg d i k (a.fill r.filling) (b.fill r.filling)) := by
  have hk := hfree.kind hi
  cases k with
  | type p | this p =>
    exact .pure (r.matchType_fill hfree.plainValues fun _ hp => hk.pattern hp)
  | value p => exact hsem.matchValue r hd (hk.pattern rfl)
  | symbol p =>
    exact .get_bind fun s s' hs hs' => .pure (hsem.matchSymbol r hs hs' hfree.plainValues hk)
  | tuple => exact .pure (r.matchTuple_fill [a])

/-! ## One parameter -/

theorem visitArg (hd : known d.scope) (hfree : d.StandInFree)
    (hi : Deduce.kind? d.params i = some k) :
    Agree ok r.visit (sem.visitArg d i k a b)
      (sem.visitArg d i k (a.fill r.filling) (b.fill r.filling)) := by
  refine (hsem.matchArg r hd hfree hi).bind fun fit => ?_
  cases fit <;> exact .pure rfl

theorem paramScope_bind {α β : Type} {g : α → β} {x : ScopeId → StateM σ α}
    {y : ScopeId → StateM σ β} (hd : known d.scope)
    (h : ∀ scope scope', Agree ok g (x scope) (y scope')) (b c : Bindings) :
    Agree ok g (do x (← sem.paramScope d b)) (do y (← sem.paramScope d c)) :=
  fun _ _ hs hs' => h _ _ (hsem.paramScope b hd hs) (hsem.paramScope c hd hs')

/-- Only the default of a value is looked up in a scope. -/
theorem defaultArg (hk : k.StandInFree) (hvalue : ∀ p, k = .value p → p.default = none)
    (scope scope' : ScopeId) :
    Agree ok (Except.map (Option.map (Arg.fill r.filling))) (sem.defaultArg k scope b)
      (sem.defaultArg k scope' (b.fill r.filling)) := by
  cases k with
  | value p =>
    obtain ⟨t, spec, _⟩ := p
    cases hvalue _ rfl
    exact .pure rfl
  | tuple => exact .pure rfl
  | type p | this p =>
    refine .pure ?_
    cases hp : p.default with
    | none => rfl
    | some t =>
      have ht : t.All .plain := hk.types t (List.mem_append_right _ (Option.mem_toList.mpr hp))
      rw [Option.map_some, Option.map_some, ← (fill_subst r.filling b).1 t ht (r.all_measured _),
        Option.filter_some, Option.filter_some, r.hasParams_fill]
      split <;> rfl
  | symbol p =>
    refine .get_bind fun s s' hs hs' => .pure ?_
    cases hx : p.default with
    | none => rfl
    | some x =>
      have hreal : x.isPlaceholder = false :=
        hk.symbols x (List.mem_append_right _ (Option.mem_toList.mpr hx))
      have hcan := hsem.canonicalSymbol r x hs hs'
      rw [r.symbol_of_real hreal] at hcan
      rw [Option.map_some, hcan]
      rfl

/-- What is done with a default. -/
theorem defaultArg_bind {α β : Type} {g : α → β} {l : Except Failure (Option Arg) → StateM σ α}
    {m : Except Failure (Option Arg) → StateM σ β} (hd : known d.scope) (hk : k.StandInFree)
    (h : ∀ result, Agree ok g (l result) (m (result.map (Option.map (Arg.fill r.filling))))) :
    Agree ok g (do l (← sem.defaultArg k (← sem.paramScope d b) b))
      (do m (← sem.defaultArg k (← sem.paramScope d (b.fill r.filling)) (b.fill r.filling))) := by
  by_cases hvalue : ∃ p e, k = .value p ∧ p.default = some e
  · obtain ⟨⟨_, _, _⟩, e, rfl, rfl⟩ := hvalue
    refine hsem.evaluateFor_bind r hd (l := fun v => l (v.map fun v => some (.ofValue v)))
      (m := fun v => m (v.map fun v => some (.ofValue v))) fun result => ?_
    have h := h (result.map fun v => some (.ofValue v))
    cases result <;> exact h
  · have hnone (p : ValueParam) (hp : k = .value p) : p.default = none :=
      Option.eq_none_iff_forall_ne_some.mpr fun e he => hvalue ⟨p, e, hp, he⟩
    exact hsem.paramScope_bind hd
      (fun scope scope' => (hsem.defaultArg r hk hnone scope scope').bind h) _ _

theorem visitMissing (hd : known d.scope) (hfree : d.StandInFree)
    (hi : Deduce.kind? d.params i = some k) :
    Agree ok r.visit (sem.visitMissing d i k b) (sem.visitMissing d i k (b.fill r.filling)) := by
  unfold Semantics.visitMissing
  rw [Bindings.get?_fill, Option.isSome_map]
  split
  · exact .pure rfl
  split
  · exact .pure rfl
  refine hsem.defaultArg_bind r hd (hfree.kind hi) fun result => ?_
  rcases result with f | _ | a
  · exact .pure rfl
  · exact .pure rfl
  · exact hsem.visitArg r hd hfree hi

theorem visitParam (receiver : Option Ty) (args : List Arg) (hd : known d.scope)
    (hfree : d.StandInFree) (hi : Deduce.kind? d.params i = some k) :
    Agree ok r.visit (sem.visitParam d receiver i k args b).1
      (sem.visitParam d (receiver.map (Ty.fill r.filling)) i k (Arg.fillList r.filling args)
        (b.fill r.filling)).1 ∧
    (sem.visitParam d (receiver.map (Ty.fill r.filling)) i k (Arg.fillList r.filling args)
        (b.fill r.filling)).2 =
      Arg.fillList r.filling (sem.visitParam d receiver i k args b).2 := by
  cases k with
  | tuple =>
    refine ⟨.pure ?_, rfl⟩
    rw [r.matchTuple_fill]
    cases matchTuple i args b <;> rfl
  | this p =>
    cases receiver with
    | none => exact ⟨hsem.visitMissing r hd hfree hi, rfl⟩
    | some t => exact ⟨hsem.visitArg r hd hfree hi (a := .type t), rfl⟩
  | type p | value p | symbol p =>
    cases args with
    | nil => exact ⟨hsem.visitMissing r hd hfree hi, rfl⟩
    | cons a args => exact ⟨hsem.visitArg r hd hfree hi, rfl⟩

/-! ## All parameters -/

theorem visitParams {receiver : Option Ty} {args : List Arg} {n : Nat} {ps : List Param} {l : Level}
    (hd : known d.scope) (hfree : d.StandInFree) (hps : d.params.drop n = ps) :
    Agree ok r.visits (sem.visitParams d receiver n ps args l b)
      (sem.visitParams d (receiver.map (Ty.fill r.filling)) n ps (Arg.fillList r.filling args) l
        (b.fill r.filling)) := by
  induction ps generalizing n args l b with
  | nil => exact .pure rfl
  | cons p ps ih =>
    obtain ⟨hi, htail⟩ := kind?_of_drop hps
    have hvisit := hsem.visitParam r receiver args (b := b) hd hfree hi
    rw [Semantics.visitParams, Semantics.visitParams]
    revert hvisit
    generalize sem.visitParam d receiver ⟨n⟩ p.kind args b = x
    generalize sem.visitParam d (receiver.map (Ty.fill r.filling)) ⟨n⟩ p.kind
      (Arg.fillList r.filling args) (b.fill r.filling) = y
    obtain ⟨x, rest⟩ := x
    obtain ⟨y, _⟩ := y
    rintro ⟨hvisit, rfl⟩
    refine hvisit.bind fun visit => ?_
    cases visit with
    | error why => exact .pure rfl
    | ok v => exact ih htail

theorem checkConstraint {e : ExprId} {as : List Arg} (hd : known d.scope) :
    Agree ok id (sem.checkConstraint d e as)
      (sem.checkConstraint d e (Arg.fillList r.filling as)) := by
  unfold Semantics.checkConstraint
  rw [← Bindings.fill_ofArgs]
  refine hsem.evaluateFor_bind r hd fun result => ?_
  rcases result with f | ⟨t, c⟩
  · exact .pure rfl
  · cases c with
    | bool b => cases b <;> exact .pure rfl
    | int | char | str | null | standIn => exact .pure rfl

/-- **Renamed arguments are matched as the arguments are.** -/
theorem matchDecl {receiver : Option Ty} {args : List Arg} {mode : MatchMode} (hd : known d.scope)
    (hfree : d.StandInFree) :
    Agree ok r.deduced (sem.matchDecl d args receiver mode)
      (sem.matchDecl d (Arg.fillList r.filling args) (receiver.map (Ty.fill r.filling)) mode) := by
  unfold Semantics.matchDecl
  have hvisits : Agree ok r.visits (sem.visitParams d receiver 0 d.params args .exact
    (.free d.params.length)) _ := hsem.visitParams r hd hfree rfl
  rw [Bindings.fill_free] at hvisits
  refine hvisits.bind fun visits => ?_
  rcases visits with why | ⟨l, b, _ | ⟨a, rest⟩⟩
  · exact .pure rfl
  · change Agree ok r.deduced (match complete 0 b with | _ => _)
      (match complete 0 (b.fill r.filling) with | _ => _)
    rw [r.complete_fill]
    rcases complete 0 b with why | as
    · exact .pure rfl
    dsimp only [Except.map]
    cases mode with
    | rank => exact .pure rfl
    | instantiate =>
      cases d.constraint with
      | none => exact .pure rfl
      | some e =>
        refine (hsem.checkConstraint r hd).bind fun result => ?_
        cases result <;> exact .pure rfl
  · refine .pure ?_
    rw [Arg.fillList_eq_map, List.length_map]
    rfl

end Semantics.Impartial

end Templates
