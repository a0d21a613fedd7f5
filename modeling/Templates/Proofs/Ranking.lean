import Templates.Proofs.Ranking.StandIns

/-!
# What the order of declarations says

If one declaration is at least as specialized as another by its stand-ins, the other takes every
list of arguments that it takes itself, as many as there are stand-ins
(`Semantics.leastAsSpecialized_sound`). This holds where the stand-ins show the declaration and the
match drops nothing of the arguments. Otherwise the stand-ins can mislead (`misled_verdicts`).
-/

namespace Templates

namespace Semantics

variable {σ : Type} {sem : Semantics σ} {a b : DeclId × Decl} {s s₁ s₂ : σ} {args : List Arg}
  {ded : Deduction}

theorem accepts_of_leastAsSpecialized (ha : ∀ p ∈ a.2.params, p.isThis = false)
    (h : .noMatch < (sem.leastAsSpecialized a b s).1) : ∃ ded s',
      (sem.matchDecl b.2 (sem.standIns a.1 a.2.scope 0 a.2.params s).1.1 none .rank s').1 =
        .ok ded ∧ ded.level = (sem.leastAsSpecialized a b s).1 := by
  obtain ⟨⟨ded, hmatch, hlevel⟩, -⟩ := (leastAsSpecialized_eq_iff h).mp rfl
  rw [standIns_receiver ha] at hmatch
  exact ⟨ded, _, hmatch, hlevel⟩

/-- **A declaration that is at least as specialized as another by its stand-ins is so by its
arguments:** the other takes what it takes. -/
theorem leastAsSpecialized_sound (hsem : sem.Steady) (ha : a.2.Plain sem) (hb : b.2.Plain sem)
    (hshown : a.2.Shown sem) (hfits : .noMatch < (sem.leastAsSpecialized a b s).1)
    (hlen : args.length = (sem.standIns a.1 a.2.scope 0 a.2.params s).1.1.length)
    (hmatch : (sem.matchDecl a.2 args none .rank s₁).1 = .ok ded)
    (hkeeps : a.2.Keeps sem ded.args args) :
    ∃ ded', (sem.matchDecl b.2 args none .rank s₂).1 = .ok ded' ∧
      ded'.level = (sem.leastAsSpecialized a b s).1 := by
  obtain ⟨found, s', hfound, hlevel⟩ := accepts_of_leastAsSpecialized (fun p hp => (ha p hp).isThis)
    hfits
  have hfew : ded.args.length ≤ 256 := (matchDecl_takes hmatch).length_eq ▸ hshown.few
  obtain ⟨hfill, hready⟩ := standIns_fill a.1 s a.2.scope hsem ha hshown hfew rfl (.free ..)
    (fun j k x hk hx => hkeeps (Nat.zero_add j ▸ hk) hx) hlen
    (matchDecl_eq_ok hmatch) (.refl _)
  have h := matchDecl_fill s₂ hsem hb hready hfound
  rw [hfill] at h
  exact ⟨_, h, hlevel⟩

end Semantics

/-- A front end where an expression's value is its number and symbol 1 is an alias of symbol 2. -/
def counting : Semantics Unit where
  evaluate e _ := pure (.ok (.int e.index))
  openScope s := pure s
  declareSymbol _ _ _ := pure ()
  canonicalSymbol _ x := if x = ⟨1⟩ then ⟨2⟩ else x
  symbolType _ x := if x = ⟨1⟩ then some .int else none
  symbolName _ _ := ""

theorem counting_steady : counting.Steady where
  canonicalSymbol _ _ := rfl
  symbolType _ _ := rfl
  canonical_real {_ x} hx := by
    change SymbolId.isPlaceholder (if x = ⟨1⟩ then ⟨2⟩ else x) = false
    split
    · rfl
    · exact hx
  symbolType_plain {_ x t} ht := by
    change (if x = ⟨1⟩ then some Ty.int else none) = some t at ht
    split at ht
    · cases ht
      trivial
    · cases ht
  conversion h := if_neg h

theorem counting_folds (e : ExprId) :
    ∃ v, counting.Folds e v ∧ (Arg.ofValue v).All .plain :=
  ⟨.int e.index, fun _ _ => rfl, trivial, nofun⟩

/-- `D(alias S, int k : 3, T : const(U)[n], U, ulong n)`. -/
def grids : Decl where
  name := "D"
  params := [
    { name := "S", kind := .symbol {} },
    { name := "k", kind := .value { ty := .int, spec := some ⟨3⟩ } },
    { name := "T"
      kind := .type { spec := some (.staticArray (.const (.param ⟨3⟩)) (.param ⟨4⟩)) } },
    { name := "U", dependent := true, kind := .type {} },
    { name := "n", dependent := true, kind := .value { ty := .ulong } }]

/-- `E(alias R, int m, T : V[l], V, ulong l)`. -/
def arrays : Decl where
  name := "E"
  params := [
    { name := "R", kind := .symbol {} },
    { name := "m", kind := .value { ty := .int } },
    { name := "T", kind := .type { spec := some (.staticArray (.param ⟨3⟩) (.param ⟨4⟩)) } },
    { name := "V", dependent := true, kind := .type {} },
    { name := "l", dependent := true, kind := .value { ty := .ulong } }]

theorem grids_plain : grids.Plain counting :=
  .cons (.ofSymbol nofun nofun) <| .cons (.ofValue trivial fun e _ => counting_folds e) <|
    .cons (.ofType fun | _, rfl => ⟨⟨trivial, trivial⟩, nofun⟩) <| .cons (.ofType nofun) <|
    .cons (.ofValue trivial nofun) .nil

theorem grids_shown : grids.Shown counting where
  few := by decide
  kind hp := by
    simp only [grids, List.mem_cons, List.not_mem_nil, or_false] at hp
    obtain rfl | rfl | rfl | rfl | rfl := hp
    · exact ⟨nofun, nofun, nofun⟩
    · exact ⟨nofun, fun | rfl => trivial, nofun⟩
    · exact ⟨fun | rfl, rfl => ⟨⟨trivial, trivial⟩, trivial⟩, nofun, nofun⟩
    · exact ⟨fun | rfl => nofun, nofun, nofun⟩
    · exact ⟨nofun, fun | rfl => trivial, nofun⟩

theorem arrays_plain : arrays.Plain counting :=
  .cons (.ofSymbol nofun nofun) <| .cons (.ofValue trivial nofun) <|
    .cons (.ofType fun | _, rfl => ⟨trivial, nofun⟩) <| .cons (.ofType nofun) <|
    .cons (.ofValue trivial nofun) .nil

/-- `D!(X, 3, const(char)[4])`. -/
def gridArgs : List Arg :=
  [.symbol ⟨7⟩, .value .int (.int 3), .type (.staticArray (.const .char) (.known 4))]

/-- What `D!(X, 3, const(char)[4])` binds. -/
def gridDeduced : List Arg := gridArgs ++ [.type .char, .value .ulong (.int 4)]

theorem grids_keeps : grids.Keeps counting gridDeduced gridArgs := by
  rintro ⟨_ | _ | _ | _ | _ | n⟩ k a hk ha <;> cases hk <;> cases ha
  · exact trivial
  · rintro e v ⟨⟩ hv
    cases hv ⟨0⟩ ()
    rfl
  · rintro pat ⟨⟩
    rfl

/-- `D` fits into `E` and takes `X, 3, const(char)[4]`, so `E` takes them too. -/
theorem leastAsSpecialized_sound_grids :
    (counting.Steady ∧ grids.Plain counting ∧ arrays.Plain counting ∧ grids.Shown counting) ∧
    (.noMatch < (counting.leastAsSpecialized (⟨0⟩, grids) (⟨1⟩, arrays) ()).1 ∧
      gridArgs.length = (counting.standIns ⟨0⟩ ⟨0⟩ 0 grids.params ()).1.1.length) ∧
    ((counting.matchDecl grids gridArgs none .rank ()).1 = .ok ⟨.exact, gridDeduced⟩ ∧
      grids.Keeps counting gridDeduced gridArgs) ∧
    ∃ ded, (counting.matchDecl arrays gridArgs none .rank ()).1 = .ok ded ∧
      ded.level = (counting.leastAsSpecialized (⟨0⟩, grids) (⟨1⟩, arrays) ()).1 := by
  have hfits : .noMatch < (counting.leastAsSpecialized (⟨0⟩, grids) (⟨1⟩, arrays) ()).1 := by decide
  have hmatch : (counting.matchDecl grids gridArgs none .rank ()).1 = .ok ⟨.exact, gridDeduced⟩ :=
    rfl
  exact ⟨⟨counting_steady, grids_plain, arrays_plain, grids_shown⟩, ⟨hfits, rfl⟩,
    ⟨hmatch, grids_keeps⟩, Semantics.leastAsSpecialized_sound counting_steady grids_plain
      arrays_plain grids_shown hfits rfl hmatch grids_keeps⟩

/-! ## Stand-ins that mislead -/

/-- The second declaration does not take arguments that the first one takes, although the first is
at least as specialized. The declarations are ranked in the first state and matched in the
second. -/
structure Semantics.Misled {σ : Type} (sem : Semantics σ) (a b : DeclId × Decl) (args : List Arg)
    (s s' : σ) : Prop where
  accepted : a.2.Accepted ∧ b.2.Accepted
  errorFree : ∀ p ∈ a.2.params ++ b.2.params, p.kind.pattern?.any Ty.containsError = false
  fits : .noMatch < (sem.leastAsSpecialized a b s).1
  length : args.length = (sem.standIns a.1 a.2.scope 0 a.2.params s).1.1.length
  takes : ∃ ded, (sem.matchDecl a.2 args none .rank s').1 = .ok ded
  rejects : ∃ why, (sem.matchDecl b.2 args none .rank s').1 = .error why

/-- The declarations mislead although neither they nor the front end hold stand-ins. -/
structure Semantics.MisledPlain {σ : Type} (sem : Semantics σ) (a b : DeclId × Decl)
    (args : List Arg) (s : σ) : Prop extends sem.Misled a b args s s where
  steady : sem.Steady
  plain : a.2.Plain sem ∧ b.2.Plain sem

/-- The declarations mislead although the stand-ins show the first one and its match drops nothing.
No parameter has a default or is `this`, every expression is a constant, and nothing is
converted. -/
structure Semantics.MisledShown {σ : Type} (sem : Semantics σ) (a b : DeclId × Decl)
    (args : List Arg) (s s' : σ) : Prop extends sem.Misled a b args s s' where
  constant (e : ExprId) : ∃ v, sem.Folds e v
  conversion {s : σ} {t u : Ty} : t ≠ u → sem.conversion s t u = .noMatch
  simple : ∀ p ∈ a.2.params ++ b.2.params, p.isThis = false ∧ p.kind.hasDefault = false
  shown : a.2.Shown sem
  keeps {ded : Deduction} : (sem.matchDecl a.2 args none .rank s').1 = .ok ded →
    a.2.Keeps sem ded.args args

/-- `D(T : int, S : int)`. -/
def twoInts : Decl where
  name := "D"
  params := [
    { name := "T", kind := .type { spec := some .int } },
    { name := "S", kind := .type { spec := some .int } }]

/-- `E(T, S : T)`. -/
def twice : Decl where
  name := "E"
  params := [
    { name := "T", kind := .type {} },
    { name := "S", kind := .type { spec := some (.param ⟨0⟩) } }]

/-- `D!(const(int), int)` drops the `const`. For `E` the two types differ. -/
theorem misled_twoInts : counting.MisledPlain (⟨0⟩, twoInts) (⟨1⟩, twice)
    [.type (.const .int), .type .int] () where
  steady := counting_steady
  accepted := ⟨⟨twoInts, rfl⟩, ⟨twice, rfl⟩⟩
  plain := ⟨.cons (.ofType fun | _, rfl => trivial) <| .cons (.ofType fun | _, rfl => trivial) .nil,
    .cons (.ofType nofun) <| .cons (.ofType fun | _, rfl => trivial) .nil⟩
  errorFree := by decide
  fits := by decide
  length := rfl
  takes := ⟨_, rfl⟩
  rejects := ⟨_, rfl⟩

/-- `D(T : X!(n), int n)`. -/
def sized : Decl where
  name := "D"
  params := [
    { name := "T", kind := .type { spec := some (.inst (.symbol ⟨9⟩) [.type (.param ⟨1⟩)]) } },
    { name := "n", dependent := true, kind := .value { ty := .int } }]

/-- `D(T : X!(S), S...)`. -/
def listed : Decl where
  name := "D"
  params := [
    { name := "T", kind := .type { spec := some (.inst (.symbol ⟨9⟩) [.type (.param ⟨1⟩)]) } },
    { name := "S", dependent := true, kind := .tuple }]

/-- `E(T : X!(U), U)`. -/
def boxed : Decl where
  name := "E"
  params := [
    { name := "T", kind := .type { spec := some (.inst (.symbol ⟨9⟩) [.type (.param ⟨1⟩)]) } },
    { name := "U", dependent := true, kind := .type {} }]

theorem boxed_plain : boxed.Plain counting :=
  .cons (.ofType fun | _, rfl => ⟨rfl, trivial, trivial⟩) <| .cons (.ofType nofun) .nil

/-- The declaration before its dependent parameters are marked. -/
def Decl.unmarked (d : Decl) : Decl :=
  { d with params := d.params.map fun p => { p with dependent := false } }

/-- In `X!(n)` the stand-in is a type. For `E` 3 is none. -/
theorem misled_sized : counting.MisledPlain (⟨0⟩, sized) (⟨1⟩, boxed)
    [.type (.inst (.symbol ⟨9⟩) [.value .int (.int 3)])] () where
  steady := counting_steady
  accepted := ⟨⟨sized.unmarked, rfl⟩, ⟨boxed.unmarked, rfl⟩⟩
  plain := ⟨.cons (.ofType fun | _, rfl => ⟨rfl, trivial, trivial⟩) <|
      .cons (.ofValue trivial nofun) .nil, boxed_plain⟩
  errorFree := by decide
  fits := by decide
  length := rfl
  takes := ⟨_, rfl⟩
  rejects := ⟨_, rfl⟩

/-- In `X!(S)` the stand-in is one type. A sequence may have two. -/
theorem misled_listed : counting.MisledPlain (⟨0⟩, listed) (⟨1⟩, boxed)
    [.type (.inst (.symbol ⟨9⟩) [.type .int, .type .int])] () where
  steady := counting_steady
  accepted := ⟨⟨listed.unmarked, rfl⟩, ⟨boxed.unmarked, rfl⟩⟩
  plain := ⟨.cons (.ofType fun | _, rfl => ⟨rfl, trivial, trivial⟩) <| .cons .ofTuple .nil,
    boxed_plain⟩
  errorFree := by decide
  fits := by decide
  length := rfl
  takes := ⟨_, rfl⟩
  rejects := ⟨_, rfl⟩

/-- `D(uint n : 3)`. -/
def three : Decl where
  name := "D"
  params := [{ name := "n", kind := .value { ty := .basic .uint, spec := some ⟨3⟩ } }]

/-- `E(int m)`. -/
def anInt : Decl where
  name := "E"
  params := [{ name := "m", kind := .value { ty := .int } }]

/-- The value that is asked for is an `int` and not of the declared type. -/
theorem misled_three : counting.MisledPlain (⟨0⟩, three) (⟨1⟩, anInt)
    [.value (.basic .uint) (.int 3)] () where
  steady := counting_steady
  accepted := ⟨⟨three, rfl⟩, ⟨anInt, rfl⟩⟩
  plain := ⟨.cons (.ofValue trivial fun e _ => counting_folds e) .nil,
    .cons (.ofValue trivial nofun) .nil⟩
  errorFree := by decide
  fits := by decide
  length := rfl
  takes := ⟨_, rfl⟩
  rejects := ⟨_, rfl⟩

/-- `D(alias S : a)` for an alias `a`. -/
def followed : Decl where
  name := "D"
  params := [{ name := "S", kind := .symbol { specSymbol := some ⟨1⟩ } }]

/-- `E(alias R : int)`, for a symbol of that type. -/
def typed : Decl where
  name := "E"
  params := [{ name := "R", kind := .symbol { specType := some .int } }]

/-- The stand-in is the alias, the argument what it names. -/
theorem misled_followed : counting.MisledPlain (⟨0⟩, followed) (⟨1⟩, typed) [.symbol ⟨2⟩] ()
    where
  steady := counting_steady
  accepted := ⟨⟨followed, rfl⟩, ⟨typed, rfl⟩⟩
  plain := ⟨.cons (.ofSymbol nofun fun | _, rfl => rfl) .nil,
    .cons (.ofSymbol (fun | _, rfl => trivial) nofun) .nil⟩
  errorFree := by decide
  fits := by decide
  length := rfl
  takes := ⟨_, rfl⟩
  rejects := ⟨_, rfl⟩

/-! ### Stand-ins that are written or known -/

theorem exists_of_isOk {ε α : Type} {x : Except ε α} (h : x.isOk = true) : ∃ a, x = .ok a := by
  cases x with
  | ok a => exact ⟨a, rfl⟩
  | error => cases h

theorem exists_of_not_isOk {ε α : Type} {x : Except ε α} (h : x.isOk = false) :
    ∃ e, x = .error e := by
  cases x with
  | ok => cases h
  | error e => exact ⟨e, rfl⟩

/-- `D(T : ~U, U)`, where `~U` is the stand-in of `U`. -/
def betrayed : Decl where
  name := "D"
  params := [
    { name := "T", kind := .type { spec := some (.standIn ⟨⟨0⟩, ⟨1⟩⟩) } },
    { name := "U", kind := .type {} }]

/-- Both stand-ins are `~U`. -/
theorem misled_betrayed : counting.MisledShown (⟨0⟩, betrayed) (⟨1⟩, twice)
    [.type (.standIn ⟨⟨0⟩, ⟨1⟩⟩), .type .int] () () where
  accepted := ⟨⟨betrayed, rfl⟩, ⟨twice, rfl⟩⟩
  errorFree := by decide
  fits := by decide
  length := rfl
  takes := ⟨_, rfl⟩
  rejects := ⟨_, rfl⟩
  constant _ := ⟨_, fun _ _ => rfl⟩
  conversion h := if_neg h
  simple := by decide
  shown := {
    few := by decide
    kind hp := by
      simp only [betrayed, List.mem_cons, List.not_mem_nil, or_false] at hp
      obtain rfl | rfl := hp
      · exact ⟨fun | rfl, rfl => trivial, nofun, nofun⟩
      · exact ⟨fun | rfl => nofun, nofun, nofun⟩ }
  keeps _ := by
    rintro ⟨_ | _ | n⟩ k a hk ha <;> cases hk <;> cases ha
    · rintro pat ⟨⟩
      rfl
    · exact nofun

/-- `D(T, alias S : X, alias R, T n)`. -/
def parcel : Decl where
  name := "D"
  params := [
    { name := "T", kind := .type {} },
    { name := "S", kind := .symbol { specSymbol := some ⟨8⟩ } },
    { name := "R", kind := .symbol {} },
    { name := "n", kind := .value { ty := .param ⟨0⟩ } }]

/-- `D!(int, X, Y, 3)`. -/
def parcelArgs : List Arg := [.type .int, .symbol ⟨8⟩, .symbol ⟨9⟩, .value .int (.int 3)]

theorem parcel_keeps {σ : Type} (sem : Semantics σ) (as : List Arg) :
    parcel.Keeps sem as parcelArgs := by
  rintro ⟨_ | _ | _ | _ | n⟩ k a hk ha <;> cases hk <;> cases ha
  · exact nofun
  · exact trivial
  · exact trivial
  · exact nofun

/-- `E(T, alias S, alias R, T n)`, where more is asked of the parameters. -/
def asking (t : TypeParam) (s r : SymbolParam) (n : ValueParam) : Decl where
  name := "E"
  params := [
    { name := "T", kind := .type t },
    { name := "S", kind := .symbol s },
    { name := "R", kind := .symbol r },
    { name := "n", kind := .value n }]

/-- What a front end answers, at first in the state `true` and later in the state `false`: every
expression is the same constant, symbol 7 is an alias, and all symbols have one type. -/
structure Answers where
  constant : Const := .int 0
  canonical : Bool → SymbolId := fun _ => ⟨7⟩
  type : Bool → Ty := fun _ => .int

def Answers.semantics (x : Answers) : Semantics Bool where
  evaluate _ _ := pure (.ok ⟨.int, x.constant⟩)
  openScope s := pure s
  declareSymbol _ _ _ := pure ()
  canonicalSymbol s y := if y = ⟨7⟩ then x.canonical s else y
  symbolType s _ := some (x.type s)
  symbolName _ _ := ""

theorem parcel_shown (x : Answers) : parcel.Shown x.semantics where
  few := by decide
  kind hp := by
    simp only [parcel, List.mem_cons, List.not_mem_nil, or_false] at hp
    obtain rfl | rfl | rfl | rfl := hp
    · exact ⟨fun | rfl => nofun, nofun, nofun⟩
    · exact ⟨nofun, nofun, fun | _, rfl, rfl => rfl⟩
    · exact ⟨nofun, nofun, fun | _, rfl => nofun⟩
    · exact ⟨nofun, fun | rfl => trivial, nofun⟩

/-- Declarations that take the stand-ins of `parcel` and not its arguments, each with the answers of a
front end. -/
def deceptions : List (Answers × Decl) := [
  -- `E(T : ~T, alias S, alias R, T n)`, where `~T` is the stand-in of `T`.
  ({}, asking { spec := some (.standIn ⟨⟨0⟩, ⟨0⟩⟩) } {} {} { ty := .param ⟨0⟩ }),
  -- `E(T, alias S, alias R, ~T n)`.
  ({}, asking {} {} {} { ty := .standIn ⟨⟨0⟩, ⟨0⟩⟩ }),
  -- `E(T, alias S, alias R : ~R, T n)`.
  ({}, asking {} {} { specSymbol := some (.placeholder ⟨⟨0⟩, ⟨2⟩⟩) } { ty := .param ⟨0⟩ }),
  -- `E(T, alias S, alias R, T n : ~n)`.
  ({ constant := .standIn ⟨⟨0⟩, ⟨3⟩⟩ },
    asking {} {} {} { ty := .param ⟨0⟩, spec := some ⟨0⟩ }),
  -- `E(T, alias S : T, alias R, T n)`, where symbols have the type `~T`.
  ({ type := fun _ => .standIn ⟨⟨0⟩, ⟨0⟩⟩ },
    asking {} { specType := some (.param ⟨0⟩) } {} { ty := .param ⟨0⟩ }),
  -- `E(T, alias S, alias R : r, T n)`, where `r` is an alias of `~R`.
  ({ canonical := fun _ => .placeholder ⟨⟨0⟩, ⟨2⟩⟩ },
    asking {} {} { specSymbol := some ⟨7⟩ } { ty := .param ⟨0⟩ }),
  -- `E(T, alias S : int, alias R, T n)`, where symbols have the type `int` at first only.
  ({ type := fun s => if s then .int else .char },
    asking {} { specType := some .int } {} { ty := .param ⟨0⟩ }),
  -- `E(T, alias S : s, alias R, T n)`, where `s` is an alias of `X` at first only.
  ({ canonical := fun s => if s then ⟨8⟩ else ⟨7⟩ },
    asking {} { specSymbol := some ⟨7⟩ } {} { ty := .param ⟨0⟩ })]

theorem misled_parcel {t : Answers × Decl} (ht : t ∈ deceptions) :
    t.1.semantics.MisledShown (⟨0⟩, parcel) (⟨1⟩, t.2) parcelArgs true false := by
  have hparams : ∀ t ∈ deceptions, ∀ p ∈ parcel.params ++ t.2.params,
      p.kind.pattern?.any Ty.containsError = false ∧ p.isThis = false ∧
        p.kind.hasDefault = false := by decide
  have haccepted : ∀ t ∈ deceptions, t.2.finalize? = .ok t.2 := by
    simp only [deceptions, List.forall_mem_cons]
    exact ⟨rfl, rfl, rfl, rfl, rfl, rfl, rfl, rfl, List.forall_mem_nil _⟩
  have hverdict : ∀ t ∈ deceptions,
      .noMatch < (t.1.semantics.leastAsSpecialized (⟨0⟩, parcel) (⟨1⟩, t.2) true).1 ∧
      (t.1.semantics.matchDecl parcel parcelArgs none .rank false).1.isOk = true ∧
      (t.1.semantics.matchDecl t.2 parcelArgs none .rank false).1.isOk = false := by decide
  obtain ⟨hfits, htakes, hrejects⟩ := hverdict t ht
  exact {
    accepted := ⟨⟨parcel, rfl⟩, ⟨t.2, haccepted t ht⟩⟩
    errorFree := fun p hp => (hparams t ht p hp).1
    fits := hfits
    length := rfl
    takes := exists_of_isOk htakes
    rejects := exists_of_not_isOk hrejects
    constant := fun _ => ⟨_, fun _ _ => rfl⟩
    conversion := fun h => if_neg h
    simple := fun p hp => (hparams t ht p hp).2
    shown := parcel_shown t.1
    keeps := fun _ => parcel_keeps .. }

/-! ### More parameters than stand-ins for symbols -/

/-- What is asked of a parameter list. -/
theorem Decl.paramsError?_eq_none {ps : List Param}
    (htuple : ∀ p ∈ ps, p.isTuple = false) (hthis : ∀ p ∈ ps, p.isThis = false)
    (hnames : ∀ (i j : Nat) (p q : Param), ps[i]? = some p → ps[j]? = some q →
      p.name = q.name → i = j)
    (hrefs : ∀ p ∈ ps, ∀ t ∈ p.kind.patternRefs, t.index < ps.length) :
    paramsError? ps = none := by
  refine Option.or_eq_none_iff.mpr ⟨List.findSome?_eq_none_iff.mpr ?_,
    List.findSome?_eq_none_iff.mpr ?_⟩
  · rintro ⟨p, i⟩ hp
    have hi := List.mem_zipIdx_iff_getElem?.mp hp
    have hmem := List.mem_of_getElem? hi
    have hname : ¬(ps.take i).any (·.name = p.name) := by
      rw [List.any_eq_true]
      rintro ⟨q, hq, hqp⟩
      obtain ⟨j, hj⟩ := List.mem_iff_getElem?.mp hq
      rw [List.getElem?_take] at hj
      split at hj
      · next hlt => exact Nat.lt_irrefl j (hnames j i q p hj hi (of_decide_eq_true hqp) ▸ hlt)
      · cases hj
    simp [shapeError?, htuple p hmem, hthis p hmem, hname]
  · rintro ⟨p, i⟩ hp
    have hmem := List.mem_of_getElem? (List.mem_zipIdx_iff_getElem?.mp hp)
    have hnone : p.kind.patternRefs.find? (fun t => ps.length ≤ t.index) = none :=
      List.find?_eq_none.mpr fun t ht => by simpa using hrefs p hmem t ht
    simp [refError?, hnone]

theorem Decl.accepted_of_paramsError? {d : Decl} (ps : List Param) (h : paramsError? ps = none)
    (hps : ps.zipIdx.map (fun (p, i) => { p with dependent := isDependent ps i }) = d.params) :
    d.Accepted := by
  refine ⟨{ d with params := ps }, ?_⟩
  unfold finalize?
  dsimp only
  rw [h, hps]

/-- Parameters of the given kinds. The name of each is as long as there are parameters before it. -/
def lettered (kinds : Nat → ParamKind) (n : Nat) : List Param :=
  (List.range n).map fun i => { name := .ofList (.replicate i 'A'), kind := kinds i }

theorem getElem?_lettered {kinds : Nat → ParamKind} {n i : Nat} {p : Param}
    (h : (lettered kinds n)[i]? = some p) :
    i < n ∧ p = { name := .ofList (.replicate i 'A'), kind := kinds i } := by
  rw [lettered, List.getElem?_map] at h
  obtain ⟨j, hj, rfl⟩ := Option.map_eq_some_iff.mp h
  obtain ⟨hi, rfl⟩ := List.getElem?_eq_some_iff.mp hj
  rw [List.length_range] at hi
  exact ⟨hi, by rw [List.getElem_range]⟩

theorem Decl.paramsError?_lettered {kinds : Nat → ParamKind} {n : Nat}
    (hkinds : ∀ i, (kinds i).isTuple = false ∧ (kinds i).isThis = false)
    (hrefs : ∀ i < n, ∀ t ∈ (kinds i).patternRefs, t.index < n) :
    paramsError? (lettered kinds n) = none := by
  have hkind {p : Param} (h : p ∈ lettered kinds n) : ∃ i < n, p.kind = kinds i := by
    obtain ⟨i, hi⟩ := List.mem_iff_getElem?.mp h
    obtain ⟨hlt, rfl⟩ := getElem?_lettered hi
    exact ⟨i, hlt, rfl⟩
  refine paramsError?_eq_none (fun p hp => ?_) (fun p hp => ?_) (fun i j p q hi hj h => ?_)
    fun p hp t ht => ?_
  · obtain ⟨i, -, hi⟩ := hkind hp
    rw [Param.isTuple, hi, (hkinds i).1]
  · obtain ⟨i, -, hi⟩ := hkind hp
    rw [Param.isThis, hi, (hkinds i).2]
  · rw [(getElem?_lettered hi).2, (getElem?_lettered hj).2] at h
    simpa using congrArg String.length h
  · obtain ⟨i, hlt, hi⟩ := hkind hp
    rw [lettered, List.length_map, List.length_range]
    exact hrefs i hlt t (hi ▸ ht)

/-- No parameter is marked if patterns only look back. -/
theorem Decl.finalize?_lettered {d : Decl} {kinds : Nat → ParamKind} {n : Nat}
    (hd : d.params = lettered kinds n)
    (hkinds : ∀ i, (kinds i).isTuple = false ∧ (kinds i).isThis = false)
    (hrefs : ∀ i, ∀ t ∈ (kinds i).patternRefs, t.index ≤ i) : d.finalize? = .ok d := by
  have hmarks (t : Nat) : isDependent (lettered kinds n) t = false := by
    refine List.any_eq_false.mpr fun p hp hmem => ?_
    obtain ⟨i, hi⟩ := List.mem_iff_getElem?.mp hp
    rw [List.getElem?_take] at hi
    split at hi
    · next hlt =>
      obtain ⟨-, rfl⟩ := getElem?_lettered hi
      exact Nat.not_le_of_lt hlt (hrefs i ⟨t⟩ (List.contains_iff_mem.mp hmem))
    · cases hi
  have hnone : paramsError? d.params = none :=
    hd ▸ paramsError?_lettered hkinds fun i hi t ht => (hrefs i t ht).trans_lt hi
  have hsame : d.params.zipIdx.map (fun (p, i) => { p with dependent := isDependent d.params i }) =
      d.params := by
    rw [hd]
    refine List.ext_getElem? fun i => ?_
    rw [List.getElem?_map, List.getElem?_zipIdx]
    cases hi : (lettered kinds n)[i]? with
    | none => rfl
    | some p =>
      obtain ⟨-, rfl⟩ := getElem?_lettered hi
      simp [hmarks]
  unfold finalize?
  rw [hnone, hsame]

/-- A symbol, a type, 254 more types and another symbol. -/
def crowdKind : Nat → ParamKind
  | 0 | 256 => .symbol {}
  | 1 => .type { spec := some (.inst (.param ⟨256⟩) []) }
  | _ => .type {}

/-- The parameter at a place; its name is as long as there are parameters before it. -/
def crowdParam (i : Nat) : Param where
  name := .ofList (.replicate i 'A')
  dependent := i = 256
  kind := crowdKind i

/-- `D(alias S, T : R!(), ..., alias R)`, where `R` is parameter 256. -/
def crowded : Decl where
  name := "D"
  params := (List.range 257).map crowdParam

theorem crowdKind_patternRefs (i : Nat) :
    (crowdKind i).patternRefs = if i = 1 then [⟨256⟩] else [] := by
  unfold crowdKind
  split
  · rfl
  · rfl
  · rfl
  · next h =>
    rw [if_neg h]
    rfl

/-- The parameter before it is marked. -/
def crowdPlain (i : Nat) : Param := { crowdParam i with dependent := false }

theorem crowd_isDependent {i : Nat} (hi : i < 257) :
    Decl.isDependent ((List.range 257).map crowdPlain) i = decide (i = 256) := by
  rw [Decl.isDependent, ← List.map_take, List.take_range, Nat.min_eq_left hi.le, List.any_map,
    Bool.eq_iff_iff, List.any_eq_true, decide_eq_true_iff]
  constructor
  · rintro ⟨j, -, hj⟩
    change (crowdKind j).patternRefs.contains ⟨i⟩ = true at hj
    rw [crowdKind_patternRefs] at hj
    split at hj
    · simpa using hj
    · cases hj
  · rintro rfl
    exact ⟨1, by simp, rfl⟩

theorem crowded_accepted : crowded.Accepted := by
  refine Decl.accepted_of_paramsError? (lettered crowdKind 257)
    (Decl.paramsError?_lettered (fun i => ?_) fun i _ t ht => ?_) ?_
  · unfold crowdKind
    split <;> exact ⟨rfl, rfl⟩
  · rw [crowdKind_patternRefs] at ht
    split at ht
    · rw [List.mem_singleton.mp ht]
      decide
    · cases ht
  · have hplain : lettered crowdKind 257 = (List.range 257).map crowdPlain := rfl
    rw [hplain]
    refine List.ext_getElem (by simp [crowded]) fun i hi _ => ?_
    have hi : i < 257 := by simpa using hi
    simp [crowded, crowd_isDependent hi, crowdPlain, crowdParam]

theorem crowded_plain : crowded.Plain counting := by
  intro p hp
  obtain ⟨i, -, rfl⟩ := List.mem_map.mp hp
  change (crowdKind i).Plain counting
  unfold crowdKind
  split
  · exact .ofSymbol nofun nofun
  · exact .ofSymbol nofun nofun
  · exact .ofType fun | _, rfl => ⟨trivial, trivial⟩
  · exact .ofType nofun

/-- `E(alias S, T : S!(), R...)`. -/
def heads : Decl where
  name := "E"
  params := [
    { name := "S", kind := .symbol {} },
    { name := "T", kind := .type { spec := some (.inst (.param ⟨0⟩) []) } },
    { name := "R", kind := .tuple }]

/-- `X`, an instance of `Y`, and 254 more types. -/
def crowdArgs : List Arg :=
  .symbol ⟨7⟩ :: .type (.inst (.symbol ⟨8⟩) []) :: List.replicate 254 (.type .int)

/-- Parameters 0 and 256 have one stand-in. -/
theorem misled_crowded : counting.MisledPlain (⟨0⟩, crowded) (⟨1⟩, heads) crowdArgs () where
  steady := counting_steady
  accepted := ⟨crowded_accepted, ⟨heads, rfl⟩⟩
  plain := ⟨crowded_plain, .cons (.ofSymbol nofun nofun) <|
    .cons (.ofType fun | _, rfl => ⟨trivial, trivial⟩) <| .cons .ofTuple .nil⟩
  errorFree p hp := by
    have heads_errorFree : ∀ p ∈ heads.params, p.kind.pattern?.any Ty.containsError = false := by
      decide
    obtain hp | hp := List.mem_append.mp hp
    · obtain ⟨i, -, rfl⟩ := List.mem_map.mp hp
      change (crowdKind i).pattern?.any Ty.containsError = false
      unfold crowdKind
      split <;> rfl
    · exact heads_errorFree p hp
  fits := by decide +kernel
  length := by decide +kernel
  takes := exists_of_isOk (by decide +kernel)
  rejects := ⟨.mismatch ⟨1⟩, rfl⟩

/-- **The order of declarations can mislead** where a match drops a `const`, where a value or a
sequence is an argument of an instance pattern, where the value that is asked for has not the
declared type, where the symbol that is asked for is an alias, and where there are more parameters
than stand-ins for symbols. So it can where a declaration or the front end holds stand-ins, and
where the front end changes its answers. -/
theorem misled_verdicts :
    counting.MisledPlain (⟨0⟩, twoInts) (⟨1⟩, twice) [.type (.const .int), .type .int] () ∧
    counting.MisledPlain (⟨0⟩, sized) (⟨1⟩, boxed)
      [.type (.inst (.symbol ⟨9⟩) [.value .int (.int 3)])] () ∧
    counting.MisledPlain (⟨0⟩, listed) (⟨1⟩, boxed)
      [.type (.inst (.symbol ⟨9⟩) [.type .int, .type .int])] () ∧
    counting.MisledPlain (⟨0⟩, three) (⟨1⟩, anInt) [.value (.basic .uint) (.int 3)] () ∧
    counting.MisledPlain (⟨0⟩, followed) (⟨1⟩, typed) [.symbol ⟨2⟩] () ∧
    counting.MisledPlain (⟨0⟩, crowded) (⟨1⟩, heads) crowdArgs () ∧
    counting.MisledShown (⟨0⟩, betrayed) (⟨1⟩, twice)
      [.type (.standIn ⟨⟨0⟩, ⟨1⟩⟩), .type .int] () () ∧
    ∀ t ∈ deceptions,
      t.1.semantics.MisledShown (⟨0⟩, parcel) (⟨1⟩, t.2) parcelArgs true false :=
  ⟨misled_twoInts, misled_sized, misled_listed, misled_three, misled_followed, misled_crowded,
    misled_betrayed, fun _ => misled_parcel⟩

end Templates
