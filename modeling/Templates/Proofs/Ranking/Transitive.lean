import Templates.Proofs.Ranking
import Templates.Proofs.Ranking.Fits

/-!
# Being more specific is transitive

A declaration that is more specific than a second, which is more specific than a third, is more
specific than the third (`Semantics.moreSpecific_trans`), if the stand-ins of the three do not
mislead (`Semantics.Transparent`). Otherwise it need not be (`not_moreSpecific_trans`).
-/

namespace Templates

namespace Semantics

variable {σ : Type} {sem : Semantics σ} {a b c : DeclId × Decl} {s s' : σ}

theorem Fits.argCount_le (ha : a.2.Accepted) (hb : b.2.Accepted) (hplain : b.2.core.Plain sem)
    (h : sem.Fits a b s s') : b.2.argCount ≤ a.2.argCount := by
  have hle := h.accepts.front_length_le hb hplain
  rw [length_offered ha h.receiver, hb.length_front] at hle
  exact Nat.le_of_add_le_add_right hle

/-- Three declarations whose stand-ins do not mislead: they hold no stand-ins themselves, no default
is needed where one is compared with another, those of the second and the third show all of these,
each of the two drops nothing of the stand-ins of the one before, and no pattern gives a sequence of
theirs or, where the first has more stand-ins than the second, any parameter of theirs. -/
structure Transparent (sem : Semantics σ) (a b c : DeclId × Decl) : Prop where
  accepted : ∀ x ∈ [a, b, c], x.2.Accepted
  plain : ∀ x ∈ [a, b, c], x.2.core.Plain sem
  noDefault : ∀ x ∈ [(a, b), (b, a), (b, c), (a, c), (c, a)], x.2.2.NeedsNoDefault x.1.2.argCount
  shown : ∀ x ∈ [b, c], x.2.core.Shown sem
  keepsFirst : sem.KeepsStandIns a b
  keepsSecond : sem.KeepsStandIns b c
  openVariadic : ∀ x ∈ [b, c], x.2.isVariadic = true → x.2.isOpenVariadic = true
  arity : a.2.argCount = b.2.argCount ∨ ∀ p ∈ b.2.params ++ c.2.params, p.dependent = false

/-- **Being more specific is transitive.** -/
theorem moreSpecific_trans {s₁ s₂ : σ} (hsem : sem.Steady) (H : sem.Transparent a b c)
    (hab : (sem.compare a b s₁).1 = .moreSpecific) (hbc : (sem.compare b c s₂).1 = .moreSpecific)
    (s : σ) : (sem.compare a c s).1 = .moreSpecific := by
  obtain ⟨ha, hb, hc⟩ : a.2.Accepted ∧ b.2.Accepted ∧ c.2.Accepted := by simpa using H.accepted
  obtain ⟨hpa, hpb, hpc⟩ : a.2.core.Plain sem ∧ b.2.core.Plain sem ∧ c.2.core.Plain sem := by
    simpa using H.plain
  have fits_iff {x y : DeclId × Decl} (hx : x.2.Accepted) (hy : y.2.Accepted)
      (hxy : (x, y) ∈ [(a, b), (b, a), (b, c), (a, c), (c, a)]) (s : σ) :
      .noMatch < (sem.leastAsSpecialized x y s).1 ↔
        sem.Fits x y s (sem.standIns x.1 x.2.scope 0 x.2.params s).2 :=
    leastAsSpecialized_pos_iff_fits hx hy (H.noDefault _ hxy)
  rw [compare_eq_moreSpecific_iff, fits_iff ha hb (by simp), fits_iff hb ha (by simp)] at hab
  rw [compare_eq_moreSpecific_iff, fits_iff hb hc (by simp)] at hbc
  rw [compare_eq_moreSpecific_iff, fits_iff ha hc (by simp), fits_iff hc ha (by simp)]
  refine ⟨hab.1.trans hsem H.accepted H.plain (H.shown b List.mem_cons_self) H.keepsFirst
    (H.openVariadic b List.mem_cons_self) H.arity hbc.1 _ _, fun hca => hab.2 ?_⟩
  -- If the third fitted into the first, the numbers of arguments would be equal and the second
  -- would fit into the first.
  have hcount : b.2.argCount = c.2.argCount := Nat.le_antisymm
    ((hab.1.argCount_le ha hb hpb).trans (hca.argCount_le hc ha hpa)) (hbc.1.argCount_le hb hc hpc)
  have hmem : c ∈ [b, c] := List.mem_cons_of_mem _ List.mem_cons_self
  exact hbc.1.trans hsem (by simp [ha, hb, hc]) (by simp [hpa, hpb, hpc]) (H.shown c hmem)
    H.keepsSecond (H.openVariadic c hmem) (.inl hcount) hca _ _

end Semantics

theorem Decl.needsNoDefault_of_none {d : Decl} {n : Nat}
    (h : ∀ p ∈ d.params, p.kind.hasDefault = false) : d.NeedsNoDefault n := by
  intro i p hp hdefault
  rw [h p (List.mem_of_getElem? hp)] at hdefault
  cases hdefault

/-- `D(this T : int[], int k : 3, U : X!(int))`. -/
def threes : Decl where
  name := "D"
  params := [
    { name := "T", kind := .this { spec := some (.array .int) } },
    { name := "k", kind := .value { ty := .int, spec := some ⟨3⟩ } },
    { name := "U", kind := .type { spec := some (.inst (.symbol ⟨9⟩) [.type .int]) } }]

/-- `E(this T : V[], int k, U : X!(W), V, W, S...)`. -/
def shelves : Decl where
  name := "E"
  params := [
    { name := "T", kind := .this { spec := some (.array (.param ⟨3⟩)) } },
    { name := "k", kind := .value { ty := .int } },
    { name := "U", kind := .type { spec := some (.inst (.symbol ⟨9⟩) [.type (.param ⟨4⟩)]) } },
    { name := "V", dependent := true, kind := .type {} },
    { name := "W", dependent := true, kind := .type {} },
    { name := "S", kind := .tuple }]

/-- `F(this T, int k = 5, U, S...)`. -/
def stores : Decl where
  name := "F"
  params := [
    { name := "T", kind := .this {} },
    { name := "k", kind := .value { ty := .int, default := some ⟨5⟩ } },
    { name := "U", kind := .type {} },
    { name := "S", kind := .tuple }]

theorem threes_plain : threes.core.Plain counting :=
  .cons (.ofType fun | _, rfl => trivial) <| .cons (.ofValue trivial fun e _ => counting_folds e) <|
    .cons (.ofType fun | _, rfl => ⟨rfl, trivial, trivial⟩) .nil

theorem shelves_plain : shelves.core.Plain counting :=
  .cons (.ofType fun | _, rfl => trivial) <| .cons (.ofValue trivial nofun) <|
    .cons (.ofType fun | _, rfl => ⟨rfl, trivial, trivial⟩) <| .cons (.ofType nofun) <|
    .cons (.ofType nofun) <| .cons .ofTuple .nil

theorem stores_plain : stores.core.Plain counting :=
  .cons (.ofType nofun) <| .cons (.ofValue trivial nofun) <| .cons (.ofType nofun) <|
    .cons .ofTuple .nil

theorem stores_needsNoDefault {n : Nat} (hn : 0 < n) : stores.NeedsNoDefault n := by
  rintro (_ | _ | _ | _ | i) p hp hdefault <;> cases hp
  · cases hdefault
  · exact ⟨rfl, hn⟩
  · cases hdefault
  · cases hdefault

theorem shelves_shown : shelves.core.Shown counting where
  few := by decide
  kind hp := by
    simp only [Decl.core, shelves, List.map_cons, List.map_nil, List.mem_cons, List.not_mem_nil,
      or_false] at hp
    obtain rfl | rfl | rfl | rfl | rfl | rfl := hp
    · exact ⟨fun | rfl, rfl => trivial, nofun, nofun⟩
    · exact ⟨nofun, fun | rfl => trivial, nofun⟩
    · exact ⟨fun | rfl, rfl => ⟨trivial, ⟨_, rfl⟩, trivial⟩, nofun, nofun⟩
    · exact ⟨fun | rfl => nofun, nofun, nofun⟩
    · exact ⟨fun | rfl => nofun, nofun, nofun⟩
    · exact ⟨nofun, nofun, nofun⟩

theorem stores_shown : stores.core.Shown counting where
  few := by decide
  kind hp := by
    simp only [Decl.core, stores, List.map_cons, List.map_nil, List.mem_cons, List.not_mem_nil,
      or_false] at hp
    obtain rfl | rfl | rfl | rfl := hp
    · exact ⟨fun | rfl => nofun, nofun, nofun⟩
    · exact ⟨nofun, fun | rfl => trivial, nofun⟩
    · exact ⟨fun | rfl => nofun, nofun, nofun⟩
    · exact ⟨nofun, nofun, nofun⟩

theorem shelves_keeps : counting.KeepsStandIns (⟨0⟩, threes) (⟨1⟩, shelves) := by
  intro s s' ded h
  have hded : (counting.matchDecl shelves.core [.type (.array .int), .value .int (.int 3),
      .type (.inst (.symbol ⟨9⟩) [.type .int])] none .rank s').1 = .ok ⟨.exact,
        [.type (.array .int), .value .int (.int 3), .type (.inst (.symbol ⟨9⟩) [.type .int]),
          .type .int, .type .int, .tuple []]⟩ := rfl
  cases hded.symm.trans h
  rintro ⟨_ | _ | _ | n⟩ k a hk ha
  · cases hk
    cases ha
    exact fun | _, rfl => rfl
  · cases hk
    cases ha
    exact nofun
  · cases hk
    cases ha
    exact fun | _, rfl => rfl
  · cases ha

theorem stores_keeps : counting.KeepsStandIns (⟨1⟩, shelves) (⟨2⟩, stores) := by
  intro s s' ded h
  rintro ⟨_ | _ | _ | n⟩ k a hk ha
  · cases hk
    cases ha
    exact nofun
  · cases hk
    cases ha
    exact nofun
  · cases hk
    cases ha
    exact nofun
  · cases ha

theorem transparent_stores :
    counting.Transparent (⟨0⟩, threes) (⟨1⟩, shelves) (⟨2⟩, stores) where
  accepted := by
    simp only [List.forall_mem_cons]
    exact ⟨⟨threes, rfl⟩, ⟨shelves.unmarked, rfl⟩, ⟨stores, rfl⟩, List.forall_mem_nil _⟩
  plain := by
    simp only [List.forall_mem_cons]
    exact ⟨threes_plain, shelves_plain, stores_plain, List.forall_mem_nil _⟩
  noDefault := by
    simp only [List.forall_mem_cons]
    exact ⟨Decl.needsNoDefault_of_none (by decide), Decl.needsNoDefault_of_none (by decide),
      stores_needsNoDefault (by decide), stores_needsNoDefault (by decide),
      Decl.needsNoDefault_of_none (by decide), List.forall_mem_nil _⟩
  shown := by
    simp only [List.forall_mem_cons]
    exact ⟨shelves_shown, stores_shown, List.forall_mem_nil _⟩
  keepsFirst := shelves_keeps
  keepsSecond := stores_keeps
  openVariadic := by decide
  arity := .inl rfl

theorem moreSpecific_trans_stores : counting.Steady ∧
    counting.Transparent (⟨0⟩, threes) (⟨1⟩, shelves) (⟨2⟩, stores) ∧
    (counting.compare (⟨0⟩, threes) (⟨1⟩, shelves) ()).1 = .moreSpecific ∧
    (counting.compare (⟨1⟩, shelves) (⟨2⟩, stores) ()).1 = .moreSpecific ∧
    (counting.compare (⟨0⟩, threes) (⟨2⟩, stores) ()).1 = .moreSpecific := by
  have hab : (counting.compare (⟨0⟩, threes) (⟨1⟩, shelves) ()).1 = .moreSpecific := by decide
  have hbc : (counting.compare (⟨1⟩, shelves) (⟨2⟩, stores) ()).1 = .moreSpecific := by decide
  exact ⟨counting_steady, transparent_stores, hab, hbc,
    Semantics.moreSpecific_trans counting_steady transparent_stores hab hbc ()⟩

/-! ## Where it is not -/

/-- The first is more specific than the second and the second than the third, but the first is not
more specific than the third. -/
structure Semantics.Intransitive {σ : Type} (sem : Semantics σ) (a b c : Decl) (s : σ) : Prop where
  steady : sem.Steady
  constant (e : ExprId) : ∃ v, sem.Folds e v
  accepted : a.Accepted ∧ b.Accepted ∧ c.Accepted
  first : (sem.compare (⟨0⟩, a) (⟨1⟩, b) s).1 = .moreSpecific
  second : (sem.compare (⟨1⟩, b) (⟨2⟩, c) s).1 = .moreSpecific
  third : (sem.compare (⟨0⟩, a) (⟨2⟩, c) s).1 ≠ .moreSpecific

/-- A front end like `counting` where the expressions from 10 on are unsigned. -/
def tallying : Semantics Unit :=
  { counting with
    evaluate e _ := pure (.ok (if e.index < 10 then .int e.index
      else ⟨.basic .uint, .int (e.index % 10 : Nat)⟩)) }

theorem tallying_steady : tallying.Steady where
  canonicalSymbol := counting_steady.canonicalSymbol
  symbolType := counting_steady.symbolType
  canonical_real := counting_steady.canonical_real (s := ())
  symbolType_plain := counting_steady.symbolType_plain (s := ())
  conversion := counting_steady.conversion (s := ())

/-- The declaration with these parameters, marked where an earlier pattern mentions them. -/
def Decl.ofParams (ps : List Param) : Decl where
  name := "D"
  params := ps.zipIdx.map fun (p, i) => { p with dependent := isDependent ps i }

theorem Decl.Accepted.ofParams {ps : List Param} (h : paramsError? ps = none) :
    (Decl.ofParams ps).Accepted := ⟨{ name := "D", params := ps }, by rw [finalize?, h]; rfl⟩

/-- An instance of `X`. -/
def instX (args : List Arg) : Ty := .inst (.symbol ⟨9⟩) args

/-- Triples where a stand-in of the first misleads the second or one of the second misleads the
third. -/
def misleading : List (List Param × List Param × List Param) := [
  -- `(T : const(int), S : int)`, `(T : int, S : int)` and `(T, S : T)`: the second drops the
  -- `const`.
  ([.ofType "T" (some (.const .int)) none, .ofType "S" (some .int) none],
    [.ofType "T" (some .int) none, .ofType "S" (some .int) none],
    [.ofType "T" none none, .ofType "S" (some (.param ⟨0⟩)) none]),
  -- `(T : X!(3))`, `(T : X!(n), int n)` and `(T : X!(U), U)`: the stand-in in `X!(n)` is a type.
  ([.ofType "T" (some (instX [.value .int (.int 3)])) none],
    [.ofType "T" (some (instX [.type (.param ⟨1⟩)])) none, .ofValue "n" .int none],
    [.ofType "T" (some (instX [.type (.param ⟨1⟩)])) none, .ofType "U" none none]),
  -- `(T : X!(int, int))`, `(T : X!(S), S...)` and `(T : R!(U), alias R, U)`: the stand-in in
  -- `X!(S)` is one type.
  ([.ofType "T" (some (instX [.type .int, .type .int])) none],
    [.ofType "T" (some (instX [.type (.param ⟨1⟩)])) none, .ofTuple "S"],
    [.ofType "T" (some (.inst (.param ⟨1⟩) [.type (.param ⟨2⟩)])) none,
      .ofSymbol "R" none none, .ofType "U" none none]),
  -- `(uint n : 3u)`, `(uint n : 3)` and `(int m)`: the stand-in of the second is an `int`.
  ([.ofValue "n" (.basic .uint) (some ⟨13⟩)], [.ofValue "n" (.basic .uint) (some ⟨3⟩)],
    [.ofValue "m" .int none]),
  -- `(alias S : b)`, `(alias S : a)` and `(alias R : int)` for an alias `a` of `b`: the stand-in of
  -- the second is the alias.
  ([.ofSymbol "S" (some ⟨2⟩) none], [.ofSymbol "S" (some ⟨1⟩) none],
    [.ofSymbol "R" none (some .int)]),
  -- `(T : int, R : int)`, `(U, W : U)` and `(V : ~U, Z)`, where `~U` is the stand-in of `U`.
  ([.ofType "T" (some .int) none, .ofType "R" (some .int) none],
    [.ofType "U" none none, .ofType "W" (some (.param ⟨0⟩)) none],
    [.ofType "V" (some (.standIn ⟨⟨1⟩, ⟨0⟩⟩)) none, .ofType "Z" none none]),
  -- `(T : int)`, `(T : int, U = int)` and `(T, U)`: the second takes its default.
  ([.ofType "T" (some .int) none], [.ofType "T" (some .int) none, .ofType "U" none (some .int)],
    [.ofType "T" none none, .ofType "U" none none]),
  -- `(T, U : int = int, S...)`, `(T, U, S...)` and `(T, S...)`: the first takes its default from
  -- the third.
  ([.ofType "T" none none, .ofType "U" (some .int) (some .int), .ofTuple "S"],
    [.ofType "T" none none, .ofType "U" none none, .ofTuple "S"],
    [.ofType "T" none none, .ofTuple "S"]),
  -- `(this T : int = int, B)`, `(this T, B)` and `(B)`: without a receiver the first takes its
  -- default.
  ([{ name := "T", kind := .this { spec := some .int, default := some .int } },
      .ofType "B" none none],
    [{ name := "T", kind := .this {} }, .ofType "B" none none], [.ofType "B" none none]),
  -- `(T : int[], U : int)`, `(T : V[], V)` and `(T)`: the second takes two arguments and has one
  -- stand-in.
  ([.ofType "T" (some (.array .int)) none, .ofType "U" (some .int) none],
    [.ofType "T" (some (.array (.param ⟨1⟩))) none, .ofType "V" none none],
    [.ofType "T" none none]),
  -- `(T : int[], U : char)`, `(T : int[], S...)` and `(T : U[], U, S...)`: `char` is not `U`.
  ([.ofType "T" (some (.array .int)) none, .ofType "U" (some .char) none],
    [.ofType "T" (some (.array .int)) none, .ofTuple "S"],
    [.ofType "T" (some (.array (.param ⟨1⟩))) none, .ofType "U" none none, .ofTuple "S"]),
  -- `(T : int[], S...)`, `(T : U[], U : S[], S...)` and `(T)`: only the sequence of the first is
  -- open.
  ([.ofType "T" (some (.array .int)) none, .ofTuple "S"],
    [.ofType "T" (some (.array (.param ⟨1⟩))) none, .ofType "U" (some (.array (.param ⟨2⟩))) none,
      .ofTuple "S"],
    [.ofType "T" none none])]

theorem misleading_intransitive {t : List Param × List Param × List Param} (h : t ∈ misleading) :
    tallying.Intransitive (.ofParams t.1) (.ofParams t.2.1) (.ofParams t.2.2) () := by
  have hacc : ∀ t ∈ misleading, Decl.paramsError? t.1 = none ∧ Decl.paramsError? t.2.1 = none ∧
      Decl.paramsError? t.2.2 = none := by decide
  have hcompare : ∀ t ∈ misleading,
      (tallying.compare (⟨0⟩, .ofParams t.1) (⟨1⟩, .ofParams t.2.1) ()).1 = .moreSpecific ∧
      (tallying.compare (⟨1⟩, .ofParams t.2.1) (⟨2⟩, .ofParams t.2.2) ()).1 = .moreSpecific ∧
      (tallying.compare (⟨0⟩, .ofParams t.1) (⟨2⟩, .ofParams t.2.2) ()).1 ≠ .moreSpecific := by
    decide
  obtain ⟨ha, hb, hc⟩ := hacc t h
  obtain ⟨hab, hbc, hac⟩ := hcompare t h
  exact {
    steady := tallying_steady
    constant := fun _ => ⟨_, fun _ _ => rfl⟩
    accepted := ⟨.ofParams ha, .ofParams hb, .ofParams hc⟩
    first := hab
    second := hbc
    third := hac }

/-- `X`, an instance of `Y` and 254 types. -/
def bookKind : Nat → ParamKind
  | 0 => .symbol { specSymbol := some ⟨7⟩ }
  | 1 => .type { spec := some (.inst (.symbol ⟨8⟩) []) }
  | _ => .type {}

def bookParam (i : Nat) : Param := { crowdPlain i with kind := bookKind i }

/-- `(alias S : X, T : Y!(), ...)` with 256 parameters. -/
def booked : Decl where
  name := "D"
  params := (List.range 256).map bookParam

theorem bookKind_patternRefs (i : Nat) : (bookKind i).patternRefs = [] := by
  unfold bookKind
  split <;> rfl

theorem booked_accepted : booked.Accepted := by
  have hparams : booked.params = lettered bookKind 256 := rfl
  refine ⟨booked, Decl.finalize?_lettered hparams (fun i => ?_) fun i t ht => ?_⟩
  · unfold bookKind
    split <;> exact ⟨rfl, rfl⟩
  · rw [bookKind_patternRefs] at ht
    cases ht

/-- The declaration of 257 parameters has one stand-in for two of them, and `E(alias S, T : S!(),
R...)` takes it. -/
theorem intransitive_crowded : tallying.Intransitive booked crowded heads () where
  steady := tallying_steady
  constant _ := ⟨_, fun _ _ => rfl⟩
  accepted := ⟨booked_accepted, crowded_accepted, ⟨heads, rfl⟩⟩
  first := by decide +kernel
  second := by decide +kernel
  third := by decide +kernel

/-- **Being more specific is not transitive** where a match drops a `const`, where a value or a
sequence is an argument of an instance pattern, where a value that is asked for has not the declared
type, where a symbol that is asked for is an alias, where a pattern holds a stand-in, where a
default is needed, where a declaration takes more arguments than it has stand-ins, where only some
sequences are open, and where there are more parameters than stand-ins for symbols. -/
theorem not_moreSpecific_trans :
    (∀ t ∈ misleading,
      tallying.Intransitive (.ofParams t.1) (.ofParams t.2.1) (.ofParams t.2.2) ()) ∧
    tallying.Intransitive booked crowded heads () :=
  ⟨fun _ => misleading_intransitive, intransitive_crowded⟩

end Templates
