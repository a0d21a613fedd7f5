import Templates.Ty.Queries
import Templates.Proofs.Deduction.Places

/-!
# Deduction undoes substitution

A complete array of bindings is found again in a pattern that it was put in, and the deduction is
exact (`Deduce.ty_undoes`). There are three exceptions. A `const` around what is `const` already is one
`const`, under which the deduction looks for the inner one in vain; a parameter that stands where its
argument cannot be put stays where it is; and a sequence in a sequence is put in without its bounds.
-/

namespace Templates

variable {ps : List Param} {b : Bindings} {P : Ty}

/-- The bindings are complete, and the pattern can be filled with them as far as they are concerned. -/
structure Bindings.Suits (ps : List Param) (b : Bindings) (P : Ty) : Prop where
  complete {i : ParamIdx} {k : ParamKind} : Deduce.kind? ps i = some k → ∃ a, b.get? i = some a
  kinded : b.Kinded ps
  /-- Lengths have the type that deduction gives to them, which is the declared one if that is
  closed. -/
  lengths {i : ParamIdx} {p : ValueParam} : .param .length i ∈ P.places →
    Deduce.kind? ps i = some (.value p) →
    ∃ c, b.get? i = some (.value (Deduce.lengthTy p) c) ∧ c.isLength = true
  noError : .error ∉ P.places

/-- Each parameter stands where one of its kind may stand. -/
def Ty.IsPlaced (ps : List Param) (P : Ty) : Prop :=
  ∀ ⦃spot i⦄, .param spot i ∈ P.places → ∃ k, Deduce.kind? ps i = some k ∧ spot.takes k = true

/-- No `const` gets a type that is `const` already. -/
def Ty.KeepsConst (b : Bindings) (P : Ty) : Prop :=
  ∀ ⦃t⦄, .const t ∈ P.places → (t.subst b).isConst = false

/-- No sequence that is put in has a sequence in it. -/
def Ty.KeepsSequences (b : Bindings) (P : Ty) : Prop :=
  ∀ ⦃spot i a⦄, .param spot i ∈ P.places → b.get? i = some a → a.IsFlattened

theorem Bindings.Suits.isFilled (H : b.Suits ps P) (hplaced : P.IsPlaced ps)
    (hconst : P.KeepsConst b) (hseq : P.KeepsSequences b) {x : Place} (hx : x ∈ P.places) :
    x.IsFilled ps b := by
  cases x with
  | param spot i =>
    obtain ⟨k, hk, hspot⟩ := hplaced hx
    obtain ⟨a, ha⟩ := H.complete hk
    refine ⟨k, a, hk, ha, hspot, H.kinded hk ha, hseq hx ha, ?_⟩
    rintro rfl
    cases k with
    | value p =>
      obtain ⟨c, hc, hlen⟩ := H.lengths hx hk
      exact ⟨p, c, rfl, Option.some.inj (ha.symm.trans hc), hlen⟩
    | _ => cases hspot
  | const t => exact hconst hx
  | error => exact absurd hx H.noError

/-- **Deduction undoes substitution.** Given bindings that are complete, the pattern with them put in
is taken apart along the pattern, exactly and without a new binding, if and only if each parameter
stands in a place for its kind, no `const` gets a type that is `const` already and no sequence that is
put in has a sequence in it. -/
theorem Deduce.ty_undoes (H : b.Suits ps P) : Deduce.ty ps (P.subst b) P b = some (.exact, b) ↔
    P.IsPlaced ps ∧ P.KeepsConst b ∧ P.KeepsSequences b := by
  rw [Deduce.ty_subst_iff]
  constructor
  · intro hfilled
    refine ⟨fun spot i hx => ?_, fun t hx => hfilled _ hx, fun spot i a hx ha => ?_⟩
    · obtain ⟨k, -, hk, -, hspot, -⟩ := hfilled _ hx
      exact ⟨k, hk, hspot⟩
    · obtain ⟨_, a', -, ha', -, -, hflat, -⟩ := hfilled _ hx
      obtain rfl := Option.some.inj (ha.symm.trans ha')
      exact hflat
  · rintro ⟨hplaced, hconst, hseq⟩ x hx
    exact H.isFilled hplaced hconst hseq hx

/-- The bindings that are found on the shelf. -/
def shelfArgs : List Arg :=
  [.type (.const .char), .symbol ⟨7⟩, .value .int (.int 4), .tuple [.symbol ⟨5⟩, .type .bool]]

theorem places_shelf : shelfPattern.places =
    [.const (.inst (.param ⟨1⟩) [.type (.ptr (.param ⟨0⟩)), .type (.staticArray .int (.param ⟨2⟩)),
        .value .int (.int 3), .type (.param ⟨3⟩)]),
      .param .template ⟨1⟩, .param .type ⟨0⟩, .param .length ⟨2⟩, .param (.arg true) ⟨3⟩] := rfl

theorem suits_shelf : Bindings.Suits shelfParams (.ofArgs shelfArgs) shelfPattern where
  complete {i _} hk :=
    match i, hk with
    | ⟨0⟩, _ | ⟨1⟩, _ | ⟨2⟩, _ | ⟨3⟩, _ => ⟨_, rfl⟩
  kinded i _ _ hk ha :=
    match i, hk, ha with
    | ⟨0⟩, rfl, rfl | ⟨1⟩, rfl, rfl | ⟨2⟩, rfl, rfl | ⟨3⟩, rfl, rfl => rfl
  lengths {i p} hi hp := by
    obtain rfl : i = ⟨2⟩ := by simpa [places_shelf] using hi
    cases hp
    exact ⟨.int 4, rfl, rfl⟩
  noError := by simp [places_shelf]

/-- `const(X!(T*, int[n], 3, U))` with these bindings is taken apart again. -/
theorem ty_undoes_shelf : Bindings.Suits shelfParams (.ofArgs shelfArgs) shelfPattern ∧
    Deduce.ty shelfParams (shelfPattern.subst (.ofArgs shelfArgs)) shelfPattern
      (.ofArgs shelfArgs) = some (.exact, .ofArgs shelfArgs) := by
  refine ⟨suits_shelf, (Deduce.ty_undoes suits_shelf).mpr ⟨fun spot i hi => ?_, fun t ht => ?_,
    fun _ i _ _ ha => ?_⟩⟩
  · simp only [places_shelf, List.mem_cons, Place.param.injEq, reduceCtorEq, false_or,
      List.not_mem_nil, or_false] at hi
    rcases hi with ⟨rfl, rfl⟩ | ⟨rfl, rfl⟩ | ⟨rfl, rfl⟩ | ⟨rfl, rfl⟩ <;> exact ⟨_, rfl, rfl⟩
  · simp only [places_shelf, List.mem_cons, Place.const.injEq, reduceCtorEq, List.not_mem_nil,
      or_false] at ht
    subst ht
    rfl
  · exact match i, ha with
      | ⟨0⟩, rfl | ⟨1⟩, rfl | ⟨2⟩, rfl => Arg.isFlattened_of_isLeaf rfl
      | ⟨3⟩, rfl => fun
        | _, rfl => rfl

/-- A type parameter and a sequence parameter. -/
def nestedParams : List Param := [{ name := "T", kind := .type {} }, { name := "S", kind := .tuple }]

/-- The type is `const(int)`, and the sequence has another one in it. -/
def nestedArgs : List Arg := [.type (.const .int), .tuple [.tuple [.type .int]]]

theorem suits_nested (h : .error ∉ P.places) :
    Bindings.Suits nestedParams (.ofArgs nestedArgs) P where
  complete {i _} hk :=
    match i, hk with
    | ⟨0⟩, _ | ⟨1⟩, _ => ⟨_, rfl⟩
  kinded i _ _ hk ha :=
    match i, hk, ha with
    | ⟨0⟩, rfl, rfl | ⟨1⟩, rfl, rfl => rfl
  lengths {i _} _ hp :=
    match i, hp with
    | ⟨0⟩, hp | ⟨1⟩, hp => nomatch hp
  noError := h

/-- The deduction fails along `const(T)`, where `T` is `const` itself, along `const(const(int))`, along
`int[T]`, where `T` is a type, and along `X!(S)`, where `S` has a sequence in it. -/
theorem not_ty_undoes_nested : (∀ a ∈ nestedArgs, a.mentions = []) ∧
    ∀ P ∈ [Ty.const (.param ⟨0⟩), .const (.const .int), .staticArray .int (.param ⟨0⟩),
        .inst (.symbol ⟨1⟩) [.type (.param ⟨1⟩)]],
      P.containsError = false ∧ Bindings.Suits nestedParams (.ofArgs nestedArgs) P ∧
        Deduce.ty nestedParams (P.subst (.ofArgs nestedArgs)) P (.ofArgs nestedArgs) = none := by
  refine ⟨by simp [nestedArgs, Arg.mentions, Ty.mentions], ?_⟩
  simp only [List.forall_mem_cons]
  exact ⟨⟨rfl, suits_nested (by simp [Ty.places]), rfl⟩,
    ⟨rfl, suits_nested (by simp [Ty.places]), rfl⟩,
    ⟨rfl, suits_nested (by simp [Ty.places, Dim.places]), rfl⟩,
    ⟨rfl, suits_nested (by simp [Ty.places, TemplateRef.places, Arg.placesList, Arg.places]), rfl⟩,
    nofun⟩

end Templates
