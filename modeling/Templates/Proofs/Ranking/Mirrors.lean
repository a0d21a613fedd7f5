import Templates.Proofs.Matching.Accepted
import Templates.Proofs.Ranking.Faces

/-!
# Parameters and their own stand-ins

A declaration mirrors its stand-ins (`Decl.Mirrors`) if each of its patterns is given back by
deduction, mentions no earlier parameter that asks for something, and gives every later parameter
that has no fitting default. A visit to a parameter with its own stand-in then binds it to what
stands for it (`Semantics.visitArg_faced`), and one to a parameter without a stand-in takes the
default (`Semantics.visitMissing_of_supplied`).
-/

namespace Templates

/-! ## Parameters that take their stand-ins -/

/-- The pattern takes the type whatever is bound, and binds nothing. -/
def Ty.Takes (ps : List Param) (pat t : Ty) : Prop :=
  ∀ b, ∃ l, .noMatch < l ∧ Deduce.ty ps t pat b = some (l, b)

namespace Semantics

variable {σ : Type} (sem : Semantics σ)

/-- A value of the first type is taken where the second is declared. -/
def Suits (t u : Ty) : Prop := t = u ∨ ∀ s, sem.conversion s t u ≠ .noMatch

/-- The symbol is no stand-in and has a type that the pattern takes. -/
def TypeFits (ps : List Param) (s : σ) (x : SymbolId) (pat : Ty) : Prop :=
  x.isPlaceholder = false ∧ ∃ t, sem.symbolType s x = some t ∧ pat.Takes ps t

end Semantics

namespace ParamKind

/-- The pattern for a type. -/
def typePattern? : ParamKind → Option Ty
  | .type p | .this p => p.spec
  | .value _ | .symbol _ | .tuple => none

/-- The parameter asks for nothing, so that its stand-in is its face. A pattern that mentions the
parameter itself binds it to its face, too. -/
def isUnspecified (i : ParamIdx) : ParamKind → Bool
  | .type p | .this p => p.spec.all fun t => t.mentions.contains i
  | .value p => p.spec.isNone
  | .symbol p => p.specSymbol.isNone
  | .tuple => true

variable {σ : Type} (sem : Semantics σ) (id : DeclId) (ps : List Param)

/-- The parameter takes its own stand-in if the parameters that it mentions are bound to their
faces. -/
def Mirrors : ParamKind → Prop
  | .type p | .this p => ∀ t, p.spec = some t → t.placed ps = true ∧ t.sequencesLast ps = true ∧
      t.singlyConst = true ∧ t.containsError = false
  | .value p => p.ty.placed ps = true ∧
      ∀ e, p.spec = some e → ∃ v, sem.Folds e v ∧ sem.Suits v.ty (p.ty.withStandIns id)
  | .symbol p => (∀ x, p.specSymbol = some x → ∀ s, sem.canonicalSymbol s x = x) ∧
      ∀ t, p.specType = some t → ∃ x, p.specSymbol = some x ∧ ∀ s, sem.TypeFits ps s x t
  | .tuple => True

/-- The parameter has a default that fits it, and the default mentions only parameters of which
`shown` holds. -/
def Supplied (shown : ParamIdx → Prop) : ParamKind → Prop
  | .type p | .this p => ∃ t, p.default = some t ∧ t.placed ps = true ∧
      (∀ j ∈ t.mentions, shown j) ∧ ∀ pat, p.spec = some pat → pat.Takes ps (t.withStandIns id)
  | .value p => p.ty.placed ps = true ∧ (∀ j ∈ p.ty.mentions, shown j) ∧
      ∃ e v, p.default = some e ∧ sem.Folds e v ∧ sem.Suits v.ty (p.ty.withStandIns id) ∧
        ∀ f, p.spec = some f → ∃ w, sem.Folds f w ∧ w.const = v.const
  | .symbol p => ∃ x, p.default = some x ∧ ∀ s,
      (∀ y, p.specSymbol = some y → sem.canonicalSymbol s y = sem.canonicalSymbol s x) ∧
      ∀ t, p.specType = some t → sem.TypeFits ps s (sem.canonicalSymbol s x) t
  | .tuple => False

end ParamKind

/-! ## Declarations -/

namespace Decl

variable (d : Decl)

/-- The parameter has a stand-in among those of the declaration. -/
def Given (i : ParamIdx) : Prop :=
  ∀ p ∈ d.params.take (i.index + 1), p.dependent = false ∧ p.isTuple = false

/-- A pattern for a type that is given to one of the first `n` parameters mentions parameter `j`. -/
def Pins (n : Nat) (j : ParamIdx) : Prop :=
  ∃ i k t, i.index < n ∧ d.Given i ∧ Deduce.kind? d.params i = some k ∧
    k.typePattern? = some t ∧ j ∈ t.mentions

/-- After the visits to the first `n` parameters parameter `j` is bound to its face. -/
def Offers (n : Nat) (j : ParamIdx) : Prop :=
  (j.index < n ∧ d.Given j ∧ ∃ k, Deduce.kind? d.params j = some k ∧ k.isUnspecified j = true) ∨
    d.Pins n j

/-- What makes a declaration accept its own stand-ins. -/
structure Mirrors {σ : Type} (sem : Semantics σ) (id : DeclId) : Prop where
  kind {i : ParamIdx} {k : ParamKind} : d.Given i → Deduce.kind? d.params i = some k →
    k.Mirrors sem id d.params
  /-- An earlier parameter in a pattern asks for nothing, and a value has the type that a length
  gives. -/
  pattern {i j : ParamIdx} {k k' : ParamKind} {t : Ty} : d.Given i →
    Deduce.kind? d.params i = some k → k.typePattern? = some t → j ∈ t.mentions →
    j.index < i.index → Deduce.kind? d.params j = some k' →
    k'.isUnspecified j = true ∧ k'.declared.withStandIns id = k'.lengthTy
  /-- What a declared type mentions is bound to its face before. -/
  declared {i j : ParamIdx} {p : ValueParam} : d.Given i →
    Deduce.kind? d.params i = some (.value p) → j ∈ p.ty.mentions → d.Offers i.index j
  /-- A parameter without a stand-in is a sequence, or a pattern gives it, or its default. -/
  rest {i : ParamIdx} {k : ParamKind} : ¬d.Given i → Deduce.kind? d.params i = some k →
    k.isTuple = true ∨ d.Pins d.params.length i ∨
      k.Supplied sem id d.params (d.Offers d.params.length)

/-- What the visits to the first `n` parameters have bound, all of which have a stand-in. -/
structure Faced (id : DeclId) (n : Nat) (b : Bindings) : Prop where
  length : b.length = d.params.length
  bound {j : ParamIdx} : j.index < n → (b.get? j).isSome
  own {j : ParamIdx} {k : ParamKind} : j.index < n → Deduce.kind? d.params j = some k →
    k.isUnspecified j = true → b.get? j = some (k.face ⟨id, j⟩ (k.declared.withStandIns id))
  pins {j : ParamIdx} : d.Pins n j → b.Shows d.params id j
  later {j : ParamIdx} : n ≤ j.index → b.get? j = none ∨ d.Pins n j

variable {d : Decl} {n m : Nat} {i j : ParamIdx} {k : ParamKind} {id : DeclId} {b c : Bindings}

theorem Pins.mono (h : d.Pins n j) (hnm : n ≤ m) : d.Pins m j :=
  let ⟨i, k, t, hi, h⟩ := h
  ⟨i, k, t, Nat.lt_of_lt_of_le hi hnm, h⟩

/-- A parameter that an earlier pattern mentions has no stand-in. -/
theorem Pins.not_given (hd : d.Accepted) (h : d.Pins n j) (hn : n ≤ j.index)
    (hj : Deduce.kind? d.params j = some k) : ¬d.Given j := by
  intro hgiven
  obtain ⟨i, k', t, hi, -, hk', ht, hmem⟩ := h
  obtain ⟨p, hp, rfl⟩ := Option.map_eq_some_iff.mp hk'
  obtain ⟨q, hq, rfl⟩ := Option.map_eq_some_iff.mp hj
  have hdep : q.dependent = true := by
    refine (hd.dependent_iff hq).mpr ⟨p, mem_take hp (Nat.lt_of_lt_of_le hi hn), ?_⟩
    refine ParamKind.mem_patternRefs.mpr ⟨t, ?_, hmem⟩
    cases hkind : p.kind <;> rw [hkind] at ht <;> first | exact ht | cases ht
  rw [(hgiven q (mem_take hq (Nat.lt_succ_self _))).1] at hdep
  cases hdep

namespace Faced

/-- Before the first visit. -/
theorem free : d.Faced id 0 (.free d.params.length) where
  length := List.length_replicate
  bound h := absurd h (Nat.not_lt_zero _)
  own h := absurd h (Nat.not_lt_zero _)
  pins := fun ⟨_, _, _, h, _⟩ => absurd h (Nat.not_lt_zero _)
  later _ := .inl (Bindings.get?_free ..)

theorem stands (H : d.Faced id n b) (h : d.Offers n j) : b.Stands d.params id j := by
  obtain ⟨hj, -, k, hk, hun⟩ | h := h
  · exact ⟨k, _, hk, H.own hj hk hun⟩
  · exact (H.pins h).stands

/-- A visit binds the parameter and shows what its pattern mentions. -/
theorem visit (H : d.Faced id n b) (hgiven : d.Given ⟨n⟩) (hk : Deduce.kind? d.params ⟨n⟩ = some k)
    (is : List ParamIdx) (hbinds : Bindings.Binds (⟨n⟩ :: is) b c)
    (his : ∀ j ∈ is, c.Shows d.params id j ∧ ∃ t, k.typePattern? = some t ∧ j ∈ t.mentions)
    (hpattern : ∀ t, k.typePattern? = some t → t.mentions ⊆ is) (hbound : (c.get? ⟨n⟩).isSome)
    (hown : k.isUnspecified ⟨n⟩ = true →
      c.get? ⟨n⟩ = some (k.face ⟨id, ⟨n⟩⟩ (k.declared.withStandIns id))) :
    d.Faced id (n + 1) c := by
  have heq {j : ParamIdx} (h : j.index = n) : j = ⟨n⟩ := congrArg ParamIdx.mk h
  constructor
  case length => exact hbinds.length.trans H.length
  case bound =>
    intro j hj
    obtain hj | hj := Nat.lt_succ_iff_lt_or_eq.mp hj
    · obtain ⟨a, ha⟩ := Option.isSome_iff_exists.mp (H.bound hj)
      rw [hbinds.le ha]
      rfl
    · exact heq hj ▸ hbound
  case own =>
    intro j k' hj hk' hun
    obtain hj | hj := Nat.lt_succ_iff_lt_or_eq.mp hj
    · exact hbinds.le (H.own hj hk' hun)
    · obtain rfl := heq hj
      rw [hk] at hk'
      cases hk'
      exact hown hun
  case pins =>
    rintro j ⟨i, k', t, hi, hgi, hk', ht, hmem⟩
    obtain hi | hi := Nat.lt_succ_iff_lt_or_eq.mp hi
    · exact (H.pins ⟨i, k', t, hi, hgi, hk', ht, hmem⟩).mono hbinds.le
    · obtain rfl := heq hi
      rw [hk] at hk'
      cases hk'
      exact (his j (hpattern t ht hmem)).1
  case later =>
    intro j hj
    by_cases hmem : j ∈ is
    · obtain ⟨-, t, ht, hmem⟩ := his j hmem
      exact .inr ⟨⟨n⟩, k, t, Nat.lt_succ_self n, hgiven, hk, ht, hmem⟩
    · have hne : j ≠ ⟨n⟩ := by
        rintro rfl
        exact Nat.not_succ_le_self n hj
      rw [hbinds.only fun h => (List.mem_cons.mp h).elim hne hmem]
      exact (H.later (Nat.le_of_succ_le hj)).imp_right (·.mono (Nat.le_succ n))

/-- The next parameter is free. -/
theorem next (H : d.Faced id n b) (hd : d.Accepted) (hgiven : d.Given ⟨n⟩)
    (hk : Deduce.kind? d.params ⟨n⟩ = some k) : b.get? ⟨n⟩ = none :=
  (H.later (Nat.le_refl n)).resolve_right fun h => h.not_given hd (Nat.le_refl n) hk hgiven

theorem exists_unify (H : d.Faced id n b) (hd : d.Accepted) (hgiven : d.Given ⟨n⟩)
    (hk : Deduce.kind? d.params ⟨n⟩ = some k) (a : Arg) : ∃ c, b.unify ⟨n⟩ a = some c :=
  Bindings.exists_unify (H.length.symm ▸ Deduce.lt_of_kind? hk) (.inl (H.next hd hgiven hk))

/-- Each parameter that the next pattern mentions is free or bound to its face. -/
theorem awaits {σ : Type} {sem : Semantics σ} (H : d.Faced id n b) (hd : d.Mirrors sem id)
    (hgiven : d.Given ⟨n⟩) (hk : Deduce.kind? d.params ⟨n⟩ = some k) {t : Ty}
    (ht : k.typePattern? = some t) (hj : j ∈ t.mentions) :
    b.get? j = none ∨ b.Shows d.params id j := by
  by_cases hlt : j.index < n
  · obtain ⟨k', hkj⟩ : ∃ k', Deduce.kind? d.params j = some k' := by
      rw [Deduce.kind?, List.getElem?_eq_getElem (hlt.trans (Deduce.lt_of_kind? hk))]
      exact ⟨_, rfl⟩
    obtain ⟨hun, hty⟩ := hd.pattern hgiven hk ht hj hlt hkj
    exact .inr ⟨k', hkj, hty ▸ H.own hlt hkj hun⟩
  · exact (H.later (Nat.le_of_not_lt hlt)).imp_right H.pins

end Faced

end Decl

/-! ## Arguments that fit -/

namespace Semantics

variable {σ : Type} {sem : Semantics σ} {d : Decl} {n : Nat} {i : ParamIdx} {k : ParamKind}
  {id : DeclId} {b c : Bindings} {s s' : σ} {scope : ScopeId} {ps : List Param}

theorem matchType_of_takes {p : TypeParam} {t : Ty} (hp : ∀ pat, p.spec = some pat → pat.Takes ps t)
    (hfree : b.get? i = none) (hc : b.unify i (.type t) = some c) :
    ∃ l, matchType i ps p (.type t) b = some (l, c) ∧ .noMatch < l := by
  unfold matchType
  dsimp only
  cases hspec : p.spec with
  | none => exact ⟨.exact, by rw [hc]; rfl, by decide⟩
  | some pat =>
    obtain ⟨l, hl, hded⟩ := hp pat hspec b
    dsimp only
    rw [hded, Option.bind_some]
    dsimp only
    rw [hfree, hc]
    refine ⟨_, rfl, ?_⟩
    split
    · decide
    · exact hl

/-- The level is that of the deduction if it is `exact`. -/
theorem matchType_of_ty {p : TypeParam} {t pat : Ty} {e : Bindings} (hp : p.spec = some pat)
    (hded : Deduce.ty ps t pat b = some (.exact, c))
    (h : (∃ own, c.get? i = some (.type own) ∧ e = c) ∨
      c.get? i = none ∧ c.unify i (.type t) = some e) :
    matchType i ps p (.type t) b = some (.exact, e) := by
  unfold matchType
  dsimp only
  rw [hp]
  dsimp only
  rw [hded, Option.bind_some]
  dsimp only
  obtain ⟨own, hown, rfl⟩ | ⟨hget, he⟩ := h
  · rw [hown]
    dsimp only
    rw [Bindings.unify_self hown, ite_self]
    rfl
  · rw [hget]
    dsimp only
    rw [he, ite_self]
    rfl

theorem matchValue_of_suits {p : ValueParam} {v : Value} {t : Ty} (hty : p.ty.subst b = t)
    (hn : t.hasParams = false) (hv : sem.Suits v.ty t)
    (hp : ∀ e, p.spec = some e → ∃ w, sem.Folds e w ∧ w.const = v.const)
    (hc : b.unify i (.value t v.const) = some c) :
    ∃ l, (sem.matchValue i d p (.ofValue v) b s).1 = some (l, c) ∧ .noMatch < l := by
  have hconvert : ∃ l, sem.convert? s p (.ofValue v) b = some (l, ⟨t, v.const⟩) ∧ .noMatch < l := by
    have hlt {l : Level} (h : l ≠ .noMatch) : .noMatch < l := by
      cases l <;> first | exact absurd rfl h | decide
    unfold convert?
    dsimp only [Arg.ofValue]
    rw [hty, hn]
    obtain heq | hconv := hv
    · exact ⟨.exact, by simp [heq], by decide⟩
    · by_cases heq : v.ty = t
      · exact ⟨.exact, by simp [heq], by decide⟩
      · exact ⟨sem.conversion s v.ty t, by simp [heq, hconv s], hlt (hconv s)⟩
  obtain ⟨l, hconvert, hl⟩ := hconvert
  refine ⟨l, ?_, hl⟩
  have hbound : b.unify i (.ofValue ⟨t, v.const⟩) = some c := hc
  rw [matchValue, bind_run, get_run, hconvert]
  dsimp only
  cases hspec : p.spec with
  | none =>
    dsimp only
    rw [hbound]
    rfl
  | some e =>
    obtain ⟨w, hw, hconst⟩ := hp e hspec
    dsimp only
    rw [bind_run, bind_run, hw]
    dsimp only
    rw [if_pos hconst, hbound]
    rfl

theorem matchSymbol_of_fits {p : SymbolParam} {x : SymbolId}
    (hx : ∀ y, p.specSymbol = some y → sem.canonicalSymbol s y = x)
    (ht : ∀ t, p.specType = some t → sem.TypeFits ps s x t) (hc : b.unify i (.symbol x) = some c) :
    sem.matchSymbol s i ps p (.symbol x) b = some (.exact, c) := by
  have hspec : ¬(p.specSymbol.any fun y => sem.canonicalSymbol s y ≠ x) := by
    cases hy : p.specSymbol with
    | none => exact Bool.false_ne_true
    | some y => simpa using hx y hy
  unfold matchSymbol
  dsimp only
  rw [if_neg hspec]
  cases htype : p.specType with
  | none =>
    dsimp only
    rw [hc]
    rfl
  | some pat =>
    obtain ⟨hreal, t, hst, htakes⟩ := ht pat htype
    obtain ⟨l, -, hded⟩ := htakes b
    dsimp only
    rw [hreal, hst]
    simp [hded, hc]

/-! ## A parameter and its stand-in -/

/-- The face of a parameter for types that takes the type. -/
theorem matchType_faced {p : TypeParam} (hacc : d.Accepted) (hd : d.Mirrors sem id)
    (H : d.Faced id n b) (hgiven : d.Given ⟨n⟩) (hk : Deduce.kind? d.params ⟨n⟩ = some k)
    (hkind : k = .type p ∨ k = .this p) : ∃ c, matchType ⟨n⟩ d.params p
      (.type ((p.spec.map (Ty.withStandIns id)).getD (.standIn ⟨id, ⟨n⟩⟩))) b = some (.exact, c) ∧
        d.Faced id (n + 1) c := by
  have hpattern : k.typePattern? = p.spec := by obtain rfl | rfl := hkind <;> rfl
  have hface (t : Ty) : k.face ⟨id, ⟨n⟩⟩ t = .type (.standIn ⟨id, ⟨n⟩⟩) := by
    obtain rfl | rfl := hkind <;> rfl
  have hfree := H.next hacc hgiven hk
  cases hp : p.spec with
  | none =>
    rw [hp] at hpattern
    obtain ⟨c, hc⟩ := H.exists_unify hacc hgiven hk (.type (.standIn ⟨id, ⟨n⟩⟩))
    refine ⟨c, ?_, H.visit hgiven hk [] (Bindings.unify_binds hc) nofun ?_ ?_ fun _ => ?_⟩
    · unfold matchType
      dsimp only
      rw [hp]
      dsimp only [Option.map_none, Option.getD_none]
      rw [hc]
      rfl
    · rw [hpattern]
      exact nofun
    · rw [Bindings.get?_unify hc]
      rfl
    · rw [hface, Bindings.get?_unify hc]
  | some pat =>
    rw [hp] at hpattern
    have hmirrors : pat.placed d.params = true ∧ pat.sequencesLast d.params = true ∧
        pat.singlyConst = true ∧ pat.containsError = false := by
      have hkind' := hd.kind hgiven hk
      obtain rfl | rfl := hkind <;> exact hkind' pat hp
    obtain ⟨hplaced, hseq, hconst, herr⟩ := hmirrors
    obtain ⟨c, hder, hshows⟩ := (Deduce.derives_withStandIns d.params id).1 pat hplaced hseq hconst
      herr b H.length fun j hj => H.awaits hd hgiven hk hpattern hj
    have hded : Deduce.ty d.params (pat.withStandIns id) pat b = some (.exact, c) := hder.run
    have hbinds : Bindings.Binds pat.mentions b c := hder.binds
    dsimp only [Option.map_some, Option.getD_some]
    have hvisit {e : Bindings} (hce : Bindings.Binds [⟨n⟩] c e) (he : (e.get? ⟨n⟩).isSome)
        (hown : ⟨n⟩ ∈ pat.mentions → e.get? ⟨n⟩ = some (.type (.standIn ⟨id, ⟨n⟩⟩))) :
        d.Faced id (n + 1) e := by
      refine H.visit hgiven hk pat.mentions ?_ (fun j hj => ?_) ?_ he fun hun => ?_
      · exact (hbinds.trans hce).mono fun j hj =>
          (List.mem_append.mp hj).elim (List.mem_cons_of_mem _) fun h =>
            List.mem_singleton.mp h ▸ List.mem_cons_self
      · exact ⟨(hshows j hj).mono hce.le, pat, hpattern, hj⟩
      · intro t ht
        rw [hpattern] at ht
        cases ht
        exact List.Subset.refl _
      · rw [hface]
        refine hown ?_
        have hspec : p.spec.all (fun t => t.mentions.contains ⟨n⟩) = true := by
          obtain rfl | rfl := hkind <;> exact hun
        rw [hp] at hspec
        simpa using hspec
    by_cases hmem : ⟨n⟩ ∈ pat.mentions
    · obtain ⟨k', hk', hget⟩ := hshows ⟨n⟩ hmem
      rw [hk] at hk'
      cases hk'
      rw [hface] at hget
      refine ⟨c, matchType_of_ty hp hded (.inl ⟨_, hget, rfl⟩), hvisit (.refl _ c) ?_ fun _ => hget⟩
      rw [hget]
      rfl
    · have hget : c.get? ⟨n⟩ = none := (hbinds.only hmem).trans hfree
      have hlen : c.length = d.params.length := hbinds.length.trans H.length
      obtain ⟨e, he⟩ := Bindings.exists_unify (i := ⟨n⟩) (a := .type (pat.withStandIns id))
        (hlen ▸ Deduce.lt_of_kind? hk) (.inl hget)
      refine ⟨e, matchType_of_ty hp hded (.inr ⟨hget, he⟩), hvisit (Bindings.unify_binds he) ?_
        fun h => absurd h hmem⟩
      rw [Bindings.get?_unify he]
      rfl

theorem matchValue_faced {p : ValueParam} (hacc : d.Accepted) (hd : d.Mirrors sem id)
    (H : d.Faced id n b) (hgiven : d.Given ⟨n⟩)
    (hk : Deduce.kind? d.params ⟨n⟩ = some (.value p)) : ∃ l c, (sem.matchValue ⟨n⟩ d p
      ((ParamKind.value p).standIn ⟨id, ⟨n⟩⟩ (sem.specValue scope (.value p) s').1) b s).1 =
        some (l, c) ∧ .noMatch < l ∧ d.Faced id (n + 1) c := by
  obtain ⟨hplaced, hspec⟩ : p.ty.placed d.params = true ∧
    ∀ e, p.spec = some e → ∃ v, sem.Folds e v ∧ sem.Suits v.ty (p.ty.withStandIns id) :=
    hd.kind hgiven hk
  have hty : p.ty.subst b = p.ty.withStandIns id :=
    (subst_of_stands d.params b id).1 p.ty hplaced fun j hj => H.stands (hd.declared hgiven hk hj)
  have hfits {v : Value} (hv : sem.Suits v.ty (p.ty.withStandIns id))
      (hp : ∀ e, p.spec = some e → ∃ w, sem.Folds e w ∧ w.const = v.const)
      (hown : p.spec = none → v.const = .standIn ⟨id, ⟨n⟩⟩) :
      ∃ l c, (sem.matchValue ⟨n⟩ d p (.ofValue v) b s).1 = some (l, c) ∧ .noMatch < l ∧
        d.Faced id (n + 1) c := by
    obtain ⟨c, hc⟩ := H.exists_unify hacc hgiven hk (.value (p.ty.withStandIns id) v.const)
    obtain ⟨l, hm, hl⟩ := matchValue_of_suits hty p.ty.hasParams_withStandIns hv hp hc
    refine ⟨l, c, hm, hl, H.visit hgiven hk [] (Bindings.unify_binds hc) nofun nofun ?_
      fun hun => ?_⟩
    · rw [Bindings.get?_unify hc]
      rfl
    · rw [Bindings.get?_unify hc, hown (Option.isNone_iff_eq_none.mp hun)]
      rfl
  cases hp : p.spec with
  | none =>
    rw [specValue_none hp]
    exact hfits (.inl rfl) (fun e he => by rw [hp] at he; cases he) fun _ => rfl
  | some e =>
    obtain ⟨v, hv, hsuits⟩ := hspec e hp
    rw [specValue_folds hp hv]
    refine hfits hsuits (fun e' he => ?_) fun he => ?_
    · rw [hp] at he
      cases he
      exact ⟨v, hv, rfl⟩
    · rw [hp] at he
      cases he

theorem matchSymbol_faced {p : SymbolParam} (hacc : d.Accepted) (hd : d.Mirrors sem id)
    (H : d.Faced id n b) (hgiven : d.Given ⟨n⟩)
    (hk : Deduce.kind? d.params ⟨n⟩ = some (.symbol p)) : ∃ c, sem.matchSymbol s ⟨n⟩ d.params p
      (.symbol (p.specSymbol.getD (.placeholder ⟨id, ⟨n⟩⟩))) b = some (.exact, c) ∧
        d.Faced id (n + 1) c := by
  obtain ⟨hreal, htype⟩ : (∀ x, p.specSymbol = some x → ∀ s, sem.canonicalSymbol s x = x) ∧
    ∀ t, p.specType = some t → ∃ x, p.specSymbol = some x ∧ ∀ s, sem.TypeFits d.params s x t :=
    hd.kind hgiven hk
  obtain ⟨c, hc⟩ := H.exists_unify hacc hgiven hk
    (.symbol (p.specSymbol.getD (.placeholder ⟨id, ⟨n⟩⟩)))
  refine ⟨c, matchSymbol_of_fits (fun y hy => ?_) (fun t ht => ?_) hc,
    H.visit hgiven hk [] (Bindings.unify_binds hc) nofun nofun ?_ fun hun => ?_⟩
  · rw [hy]
    exact hreal y hy s
  · obtain ⟨x, hx, hfits⟩ := htype t ht
    rw [hx]
    exact hfits s
  · rw [Bindings.get?_unify hc]
    rfl
  · rw [Bindings.get?_unify hc, Option.isNone_iff_eq_none.mp hun]
    rfl

variable (s s' scope) in
/-- **A parameter takes its own stand-in.** -/
theorem visitArg_faced (hacc : d.Accepted) (hd : d.Mirrors sem id) (H : d.Faced id n b)
    (hgiven : d.Given ⟨n⟩) (hk : Deduce.kind? d.params ⟨n⟩ = some k) (htuple : k.isTuple = false) :
    ∃ l c, (sem.visitArg d ⟨n⟩ k (k.standIn ⟨id, ⟨n⟩⟩ (sem.specValue scope k s').1) b s).1 =
      .ok (l, c) ∧ .noMatch < l ∧ d.Faced id (n + 1) c := by
  have hmatch : ∃ l c, (sem.matchArg d ⟨n⟩ k
      (k.standIn ⟨id, ⟨n⟩⟩ (sem.specValue scope k s').1) b s).1 = some (l, c) ∧ .noMatch < l ∧
        d.Faced id (n + 1) c := by
    cases k with
    | type p =>
      obtain ⟨c, hm, hc⟩ := matchType_faced hacc hd H hgiven hk (.inl rfl)
      exact ⟨.exact, c, hm, by decide, hc⟩
    | this p =>
      obtain ⟨c, hm, hc⟩ := matchType_faced hacc hd H hgiven hk (.inr rfl)
      exact ⟨.exact, c, hm, by decide, hc⟩
    | value p => exact matchValue_faced hacc hd H hgiven hk
    | symbol p =>
      obtain ⟨c, hm, hc⟩ := matchSymbol_faced hacc hd H hgiven hk
      exact ⟨.exact, c, hm, by decide, hc⟩
    | tuple => cases htuple
  obtain ⟨l, c, hm, h⟩ := hmatch
  refine ⟨l, c, ?_, h⟩
  rw [visitArg, bind_run, hm]
  rfl

/-! ## Parameters without a stand-in -/

/-- A parameter that is free takes a default that fits it. -/
theorem visitMissing_of_supplied {shown : ParamIdx → Prop} (hlt : i.index < b.length)
    (hfree : b.get? i = none) (hshown : ∀ j, shown j → b.Stands d.params id j)
    (h : k.Supplied sem id d.params shown) :
    ∃ l c, (sem.visitMissing d i k b s).1 = .ok (l, c) ∧ .noMatch < l ∧ b.Extends c ∧
      (c.get? i).isSome := by
  have hbound (a : Arg) : ∃ c, b.unify i a = some c ∧ b.Extends c ∧ (c.get? i).isSome := by
    obtain ⟨c, hc⟩ := Bindings.exists_unify (a := a) hlt (.inl hfree)
    exact ⟨c, hc, (Bindings.unify_binds hc).toExtends, by rw [Bindings.get?_unify hc]; rfl⟩
  have hsubst {t : Ty} (hplaced : t.placed d.params = true) (ht : ∀ j ∈ t.mentions, shown j) :
      t.subst b = t.withStandIns id :=
    (subst_of_stands d.params b id).1 t hplaced fun j hj => hshown j (ht j hj)
  have hvisit (hdefault : k.hasDefault = true)
      (hm : ∀ scope s, ∃ a l c, (sem.defaultArg k scope b s).1 = .ok (some a) ∧
        (sem.matchArg d i k a b (sem.defaultArg k scope b s).2).1 = some (l, c) ∧ .noMatch < l ∧
          b.Extends c ∧ (c.get? i).isSome) :
      ∃ l c, (sem.visitMissing d i k b s).1 = .ok (l, c) ∧ .noMatch < l ∧ b.Extends c ∧
        (c.get? i).isSome := by
    obtain ⟨a, l, c, ha, hm, h⟩ := hm (sem.paramScope d b s).1 (sem.paramScope d b s).2
    refine ⟨l, c, ?_, h⟩
    unfold visitMissing
    rw [hfree, hdefault]
    change ((sem.paramScope d b >>= _) s).1 = _
    rw [bind_run, bind_run, ha]
    change (sem.visitArg d i k a b _).1 = _
    rw [visitArg, bind_run, hm]
    rfl
  have htype {p : TypeParam} {t : Ty} (hp : p.default = some t) (hplaced : t.placed d.params = true)
      (ht : ∀ j ∈ t.mentions, shown j)
      (htakes : ∀ pat, p.spec = some pat → pat.Takes d.params (t.withStandIns id)) :
      ((p.default.map (Ty.subst b)).filter fun t => !t.hasParams).map Arg.type =
        some (.type (t.withStandIns id)) ∧
      ∃ l c, matchType i d.params p (.type (t.withStandIns id)) b = some (l, c) ∧ .noMatch < l ∧
        b.Extends c ∧ (c.get? i).isSome := by
    obtain ⟨c, hc, h⟩ := hbound (.type (t.withStandIns id))
    obtain ⟨l, hm, hl⟩ := matchType_of_takes htakes hfree hc
    refine ⟨?_, l, c, hm, hl, h⟩
    rw [hp, Option.map_some, hsubst hplaced ht]
    simp [Ty.hasParams_withStandIns]
  cases k with
  | type p | this p =>
    obtain ⟨t, hp, hplaced, ht, htakes⟩ := h
    obtain ⟨hdefault, l, c, h⟩ := htype hp hplaced ht htakes
    refine hvisit ?_ fun scope s => ⟨_, l, c, congrArg Except.ok hdefault, h⟩
    rw [ParamKind.hasDefault, hp]
    rfl
  | value p =>
    obtain ⟨hplaced, ht, e, v, hp, hv, hsuits, hspec⟩ := h
    obtain ⟨c, hc, h⟩ := hbound (.value (p.ty.withStandIns id) v.const)
    refine hvisit ?_ fun scope s => ?_
    · rw [ParamKind.hasDefault, hp]
      rfl
    · obtain ⟨l, hm, hl⟩ := matchValue_of_suits (s := (sem.defaultArg (.value p) scope b s).2)
        (hsubst hplaced ht) p.ty.hasParams_withStandIns hsuits hspec hc
      refine ⟨.ofValue v, l, c, ?_, hm, hl, h⟩
      unfold defaultArg
      dsimp only
      rw [hp]
      dsimp only
      rw [bind_run, hv]
      rfl
  | symbol p =>
    obtain ⟨x, hp, hfits⟩ := h
    refine hvisit ?_ fun scope s => ?_
    · rw [ParamKind.hasDefault, hp]
      rfl
    · obtain ⟨c, hc, h⟩ := hbound (.symbol (sem.canonicalSymbol s x))
      obtain ⟨hspec, htype⟩ := hfits s
      refine ⟨.symbol (sem.canonicalSymbol s x), .exact, c, ?_,
        matchSymbol_of_fits hspec htype hc, by decide, h⟩
      change Except.ok (p.default.map _) = _
      rw [hp]
      rfl
  | tuple => exact h.elim

end Semantics

end Templates
