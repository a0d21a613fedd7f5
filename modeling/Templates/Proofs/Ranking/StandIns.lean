import Templates.Rank
import Templates.Proofs.Deduction.Later
import Templates.Proofs.Matching.Kinds
import Templates.Proofs.Ranking.Lifting

/-!
# What stand-ins stand for

The stand-ins of a declaration, filled with what the parameters are bound to in a match, are the
arguments of that match (`Semantics.standIns_fill`), if the match has dropped nothing of these and
the stand-ins show all of the patterns.
-/

namespace Templates

variable {ps : List Param} {b c e : Bindings} {l : Level} {i : ParamIdx} {id : DeclId}
  {as : List Arg}

/-- In the place of each stand-in of declaration `id` stands what its parameter is bound to. -/
def Filling.ofArgs (id : DeclId) (as : List Arg) : Filling where
  ty p :=
    match as[p.param.index]? with
    | some (.type t) => t
    | _ => .standIn p
  const p :=
    match as[p.param.index]? with
    | some (.value _ c) => c
    | _ => .standIn p
  dim p := (Dim.param p.param).subst (.ofArgs as)
  symbol s :=
    match as[s.index % 0x100]? with
    | some (.symbol x) => if s = .placeholder ⟨id, ⟨s.index % 0x100⟩⟩ then x else s
    | _ => s
  symbol_of_real {s} hs := by
    split
    · refine if_neg fun h => ?_
      rw [h, SymbolId.isPlaceholder_placeholder] at hs
      cases hs
    · rfl

namespace Filling

theorem ofArgs_ty {t : Ty} (h : (Bindings.ofArgs as).get? i = some (.type t)) (id : DeclId) :
    (ofArgs id as).ty ⟨id, i⟩ = t := by
  rw [Bindings.get?_ofArgs] at h
  simp only [ofArgs, h]

theorem ofArgs_const {t : Ty} {x : Const}
    (h : (Bindings.ofArgs as).get? i = some (.value t x)) (id : DeclId) :
    (ofArgs id as).const ⟨id, i⟩ = x := by
  rw [Bindings.get?_ofArgs] at h
  simp only [ofArgs, h]

/-- Symbols tell the stand-ins of 256 parameters apart. -/
theorem ofArgs_symbol {x : SymbolId} (has : as.length ≤ 256)
    (h : (Bindings.ofArgs as).get? i = some (.symbol x)) (id : DeclId) :
    (ofArgs id as).symbol (.placeholder ⟨id, i⟩) = x := by
  rw [Bindings.get?_ofArgs] at h
  obtain ⟨hi, -⟩ := List.getElem?_eq_some_iff.mp h
  have hmod : (SymbolId.placeholder ⟨id, i⟩).index % 0x100 = i.index :=
    (SymbolId.index_placeholder_mod _).trans (Nat.mod_eq_of_lt (hi.trans_le has))
  simp only [ofArgs, hmod, h, if_pos]

/-- What puts a length in the place of a parameter puts it in the place of its stand-in. -/
theorem ofArgs_measured (h : ((Dim.param i).subst (.ofArgs as)).mentions = []) (id : DeclId) :
    (Dim.standIn ⟨id, i⟩).Measured (ofArgs id as) := by
  change Deduce.lengthConst? ((Dim.param i).subst (.ofArgs as)) =
    some ((ofArgs id as).const ⟨id, i⟩)
  cases hi : (Bindings.ofArgs as).get? i with
  | none =>
    rw [Dim.subst, hi] at h
    cases h
  | some a =>
    cases a with
    | type | symbol | tuple =>
      rw [Dim.subst, hi] at h
      cases h
    | value t x =>
      rw [ofArgs_const hi]
      rw [Dim.subst, hi] at h ⊢
      cases x with
      | bool | char | str | null => cases h
      | standIn => rfl
      | int n =>
        dsimp only at h ⊢
        split at h
        · next hn =>
          have hw : n.toNat < 2 ^ 64 := Nat.lt_succ_of_le hn.2
          rw [if_pos hn, Deduce.lengthConst?, UInt64.toNat_ofNat_of_lt' hw,
            Int.toNat_of_nonneg hn.1]
        · cases h

end Filling

/-! ## Types of values -/

/-- In the place of an argument of an instance stand parameters for types only. -/
def Places.typesBare (ps : List Param) : Places where
  bare i := ∃ p, Deduce.kind? ps i = some (.type p)

variable (id) in
theorem TemplateRef.fill_withStandIn {r : TemplateRef} (hr : r.All .plain) (has : as.length ≤ 256)
    (hb : b.Le (.ofArgs as)) (hm : (r.subst b).mentions = []) :
    (r.withStandIn id).fill (.ofArgs id as) = r.subst b := by
  cases r with
  | symbol s => exact fill_of_plain hr
  | param i =>
    cases hi : b.get? i with
    | none =>
      rw [subst, hi] at hm
      cases hm
    | some a =>
      cases a with
      | type | value | tuple =>
        rw [subst, hi] at hm
        cases hm
      | symbol x =>
        rw [subst, hi]
        exact congrArg TemplateRef.symbol (Filling.ofArgs_symbol has (hb hi) id)

variable (id) in
theorem Dim.fill_withStandIn {n : Dim} (hn : ∀ p, n ≠ .standIn p)
    (hm : (n.subst (.ofArgs as)).mentions = []) :
    (n.withStandIn id).fill (.ofArgs id as) = n.subst (.ofArgs as) ∧
      (n.withStandIn id).Measured (.ofArgs id as) := by
  cases n with
  | known => exact ⟨rfl, trivial⟩
  | standIn p => exact absurd rfl (hn p)
  | param i => exact ⟨rfl, Filling.ofArgs_measured hm id⟩

variable (id) in
/-- A type of a value in which every parameter has got its argument. -/
theorem fill_withStandIns (has : as.length ≤ 256) (hb : b.Le (.ofArgs as)) (hk : b.Kinded ps) :
    (∀ t : Ty, t.All .plain → t.All (.typesBare ps) → (t.subst b).mentions = [] →
      (t.withStandIns id).fill (.ofArgs id as) = t.subst b ∧
        (t.withStandIns id).All (.measured (.ofArgs id as))) ∧
    (∀ a : Arg, a.All .plain → a.All (.typesBare ps) → Arg.mentionsList (a.subst b) = [] →
      [(a.withStandIns id).fill (.ofArgs id as)] = a.subst b ∧
        (a.withStandIns id).All (.measured (.ofArgs id as))) ∧
    (∀ xs : List Arg, Arg.AllList .plain xs → Arg.AllList (.typesBare ps) xs →
      Arg.mentionsList (Arg.substList b xs) = [] →
      Arg.fillList (.ofArgs id as) (Arg.withStandInsList id xs) = Arg.substList b xs ∧
        Arg.AllList (.measured (.ofArgs id as)) (Arg.withStandInsList id xs)) := by
  have stays {a : Arg} (hp : a.All .plain) :
      [a.fill (.ofArgs id as)] = [a] ∧ a.All (.measured (.ofArgs id as)) := by
    obtain ⟨hfill, hall⟩ := (fill_of_plain (.ofArgs id as)).2.1 a hp
    exact ⟨congrArg (fun a => [a]) hfill, (measured_of_proper _).2.1 a hall⟩
  refine Ty.induct ?basic ?named ?const ?ptr ?array ?staticArray ?inst ?param ?standIn ?error
    ?type ?value ?symbol ?tuple ?nil ?cons
  case basic | named => exact fun _ _ _ _ => ⟨rfl, trivial⟩
  case error => exact fun _ _ _ => ⟨rfl, trivial⟩
  case standIn => exact fun p h => h.elim
  case param =>
    intro i _ _ hm
    cases hi : b.get? i with
    | none =>
      rw [Ty.subst, hi] at hm
      cases hm
    | some a =>
      cases a with
      | value | symbol | tuple =>
        rw [Ty.subst, hi] at hm
        cases hm
      | type t =>
        rw [Ty.subst, hi]
        exact ⟨Filling.ofArgs_ty (hb hi) id, trivial⟩
  case const =>
    intro t ih hp hbare hm
    rw [Ty.subst, Ty.mentions_constant] at hm
    obtain ⟨hfill, hall⟩ := ih hp.2 hbare.2 hm
    rw [Ty.withStandIns, Ty.subst, Ty.fill_constant, hfill]
    exact ⟨rfl, (Ty.all_constant (fun _ => trivial) _).mpr hall⟩
  case ptr | array =>
    intro t ih hp hbare hm
    obtain ⟨hfill, hall⟩ := ih hp hbare hm
    exact ⟨congrArg _ hfill, hall⟩
  case staticArray =>
    intro t n ih hp hbare hm
    obtain ⟨hmn, hmt⟩ := List.append_eq_nil_iff.mp hm
    obtain ⟨hfill, hall⟩ := ih hp.1 hbare.1 hmt
    have hn := Dim.subst_of_le hb hmn
    obtain ⟨hfn, hmeas⟩ := Dim.fill_withStandIn id hp.2 (hn ▸ hmn)
    exact ⟨by rw [Ty.withStandIns, Ty.fill, Ty.subst, hfill, hfn, hn], hall, hmeas⟩
  case inst =>
    intro r xs ih hp hbare hm
    obtain ⟨hmr, hmxs⟩ := List.append_eq_nil_iff.mp hm
    obtain ⟨hfill, hall⟩ := ih hp.2 hbare.2 hmxs
    refine ⟨by rw [Ty.withStandIns, Ty.fill, Ty.subst, hfill,
      TemplateRef.fill_withStandIn id hp.1 has hb hmr], ?_, hall⟩
    cases r <;> trivial
  case type =>
    intro t ih hp hbare hm
    by_cases ht : ∃ i, t = .param i
    · obtain ⟨i, rfl⟩ := ht
      obtain ⟨p, hkind⟩ : ∃ p, Deduce.kind? ps i = some (.type p) := hbare
      cases hi : b.get? i with
      | none =>
        rw [Arg.subst, Bindings.splice, hi] at hm
        cases hm
      | some a =>
        have htakes := hk hkind hi
        cases a with
        | value | symbol | tuple => cases htakes
        | type t =>
          rw [Arg.subst, Bindings.splice_of_leaf hi rfl]
          refine ⟨?_, trivial⟩
          rw [Arg.withStandIns, Ty.withStandIns, Arg.fill, Ty.fill, Filling.ofArgs_ty (hb hi)]
    · have ht (i : ParamIdx) : t ≠ .param i := fun hi => ht ⟨i, hi⟩
      rw [Arg.subst_type ht, Arg.mentionsList, Arg.mentionsList, List.append_nil] at hm
      rw [Arg.all_type fun _ => trivial] at hp
      rw [Arg.all_type_of_ne ht] at hbare
      obtain ⟨hfill, hall⟩ := ih hp hbare hm
      rw [Arg.subst_type ht, Arg.withStandIns, Arg.fill, hfill]
      exact ⟨rfl, (Arg.all_type (fun _ => trivial) _).mpr hall⟩
  case value => exact fun _ _ _ hp _ _ => stays hp
  case symbol => exact fun _ hp _ _ => stays hp
  case tuple => exact fun _ _ hp _ _ => stays hp
  case nil => exact fun _ _ _ => ⟨rfl, trivial⟩
  case cons =>
    intro a xs iha ihxs hp hbare hm
    rw [Arg.substList, Arg.mentionsList_append] at hm
    obtain ⟨hma, hmxs⟩ := List.append_eq_nil_iff.mp hm
    obtain ⟨hfa, ha⟩ := iha hp.1 hbare.1 hma
    obtain ⟨hfxs, hxs⟩ := ihxs hp.2 hbare.2 hmxs
    exact ⟨by rw [Arg.withStandInsList, Arg.fillList, Arg.substList, hfxs, ← hfa]; rfl, ha, hxs⟩

/-! ## Patterns -/

namespace Ty

/-- How often the type is `const` on the outside. -/
def qualifiers : Ty → Nat
  | .const t => t.qualifiers + 1
  | _ => 0

theorem qualifiers_constant_le (t : Ty) : t.constant.qualifiers ≤ t.qualifiers + 1 := by
  cases t with
  | const t => exact Nat.le_succ _
  | _ => exact Nat.le_refl _

theorem subst_ne_const {p t : Ty} (hi : ∀ i, p ≠ .param i) (hq : ∀ q, p ≠ .const q) :
    p.subst b ≠ .const t := by
  cases p with
  | param i => exact absurd rfl (hi i)
  | const q => exact absurd rfl (hq q)
  | _ => exact nofun

/-- A `const` that stays outside when the type below is filled is not lost. -/
theorem fill_const {f : Filling} {t : Ty} (h : (t.fill f).constant = .const (t.fill f)) :
    (Ty.const t).fill f = .const (t.fill f) := by
  rw [Ty.fill]
  split
  · rfl
  · exact h

theorem all_proper_constant {f : Filling} {t : Ty} (h : (t.fill f).constant = .const (t.fill f))
    (ht : t.All (.proper f)) : t.constant.All (.proper f) := by
  cases t with
  | const t => exact ht
  | _ => exact ⟨fill_const h, ht⟩

end Ty

namespace Deduce

/-- The length that is taken apart is none of a pattern. -/
theorem mentions_of_dim {d n : Dim} (h : dim ps d n b = some c) : d.mentions = [] := by
  obtain ⟨rfl, hm, -⟩ | ⟨i, p, x, -, -, hx, -⟩ := dim_eq_some h
  · exact hm
  · cases d with
    | param => cases hx
    | known | standIn => rfl

theorem mentions_of_templateRef {r q : TemplateRef} (h : templateRef ps r q b = some c) :
    r.mentions = [] := by
  obtain ⟨rfl, hm, -⟩ | ⟨i, p, s, -, rfl, -, -⟩ := templateRef_eq_some h
  · exact hm
  · rfl

namespace Goal

/-- The pattern has no more `const` outside than what is taken apart. -/
def Qualifies (e : Bindings) : Goal → Prop
  | .ty t pat => (pat.subst e).qualifiers ≤ t.qualifiers
  | .arg _ _ | .args _ _ => True

/-- The pattern with the bindings put in is what is taken apart. -/
def Exact (e : Bindings) : Goal → Prop
  | .ty t pat => pat.subst e = t
  | .arg a pat => pat.subst e = [a]
  | .args as pats => Arg.substList e pats = as

def TypesBare (ps : List Param) : Goal → Prop
  | .ty _ pat => pat.All (.typesBare ps)
  | .arg _ pat => pat.All (.typesBare ps)
  | .args _ pats => Arg.AllList (.typesBare ps) pats

/-- The pattern with stand-ins may be filled, and is then what is taken apart. -/
def Stands (id : DeclId) (f : Filling) : Goal → Prop
  | .ty t pat => (pat.withStandIns id).fill f = t ∧ (pat.withStandIns id).All (.proper f)
  | .arg a pat => (pat.withStandIns id).fill f = a ∧ (pat.withStandIns id).All (.proper f)
  | .args as pats => Arg.fillList f (Arg.withStandInsList id pats) = as ∧
      Arg.AllList (.proper f) (Arg.withStandInsList id pats)

end Goal

theorem Derives.qualifies {g : Goal} (h : Derives ps g b l c) (hc : c.Le e) : g.Qualifies e := by
  induction h with
  | @param t i _ _ h =>
    obtain ⟨k, -, -, h⟩ := tyParam_eq_some h
    change (Ty.subst e (.param i)).qualifiers ≤ t.qualifiers
    rw [Ty.subst, hc (Bindings.get?_unify h)]
  | @const t p _ _ _ _ ih =>
    exact (Ty.qualifiers_constant_le _).trans (Nat.succ_le_succ (ih hc))
  | @unqualify t p _ _ _ _ _ _ ih => exact (ih hc).trans (Nat.le_succ _)
  | basic | named | standIn | ptr | array | staticArray | inst => exact Nat.zero_le _
  | argParam | type | value | symbol | tuple | nil | soak | cons => exact trivial

/-- What stands in the place of an argument. -/
theorem Derives.exists_subst_arg {a p : Arg} (h : Derives ps (.arg a p) b l c) (hc : c.Le e) :
    ∃ x, p.subst e = [x] := by
  cases h with
  | argParam h =>
    obtain ⟨ha, k, -, -, h⟩ := argParam_eq_some h
    exact ⟨a, Bindings.splice_of_leaf (hc (Bindings.get?_unify h)) ha⟩
  | type hi => exact ⟨_, Arg.subst_type hi⟩
  | value | symbol | tuple => exact ⟨_, rfl⟩

variable (id) in
theorem Derives.stands {g : Goal} (has : as.length ≤ 256) (h : Derives ps g b l c)
    (hc : c.Le (.ofArgs as)) (hp : g.PlainPattern) (hbare : g.TypesBare ps)
    (hg : g.Exact (.ofArgs as)) : g.Stands id (.ofArgs id as) := by
  induction h with
  | @param t i _ _ h =>
    obtain ⟨k, -, -, h⟩ := tyParam_eq_some h
    exact ⟨Filling.ofArgs_ty (hc (Bindings.get?_unify h)) id, trivial⟩
  | @const t p _ _ _ hder ih =>
    have hg : (p.subst (.ofArgs as)).constant = .const t := hg
    have hpt : p.subst (.ofArgs as) = t := by
      have hq : (p.subst (.ofArgs as)).qualifiers ≤ t.qualifiers := hder.qualifies hc
      cases hs : p.subst (.ofArgs as) with
      | const u =>
        rw [hs] at hg hq
        cases hg
        exact absurd hq (Nat.not_succ_le_self _)
      | _ =>
        rw [hs] at hg
        exact Ty.const.inj hg
    obtain ⟨hfill, hall⟩ := ih hc hp.2 hbare.2 hpt
    have hconst : ((p.withStandIns id).fill (.ofArgs id as)).constant = .const t := by
      rw [hfill, ← hg, hpt]
    refine ⟨(Ty.fill_constant _).trans hconst, Ty.all_proper_constant ?_ hall⟩
    rw [hconst, hfill]
  | @unqualify t p _ _ _ hi hq _ _ => exact absurd hg (Ty.subst_ne_const hi hq)
  | basic | named => exact ⟨rfl, trivial⟩
  | standIn => exact hp.elim
  | ptr _ ih =>
    obtain ⟨hfill, hall⟩ := ih hc hp hbare (Ty.ptr.inj hg)
    exact ⟨congrArg Ty.ptr hfill, hall⟩
  | array _ ih =>
    obtain ⟨hfill, hall⟩ := ih hc hp hbare (Ty.array.inj hg)
    exact ⟨congrArg Ty.array hfill, hall⟩
  | @staticArray t p d n _ _ _ _ _ hd ih =>
    obtain ⟨hgt, hgn⟩ := Ty.staticArray.inj hg
    obtain ⟨hfill, hall⟩ := ih ((dim_binds hd).le.trans hc) hp.1 hbare.1 hgt
    obtain ⟨hfn, hmeas⟩ := Dim.fill_withStandIn id hp.2 (hgn.symm ▸ mentions_of_dim hd)
    refine ⟨?_, hall, hmeas⟩
    change Ty.staticArray _ _ = _
    rw [hfill, hfn, hgn]
  | @inst r q xs pats _ _ _ _ hr _ ih =>
    obtain ⟨hgr, hgxs⟩ := Ty.inst.inj hg
    obtain ⟨hfill, hall⟩ := ih hc hp.2 hbare.2 hgxs
    have hfr := TemplateRef.fill_withStandIn id hp.1 has (.refl _)
      (hgr ▸ mentions_of_templateRef hr)
    refine ⟨?_, ?_, hall⟩
    · change Ty.inst _ _ = _
      rw [hfill, hfr, hgr]
    · cases q <;> trivial
  | @argParam a i _ _ h =>
    obtain ⟨p, hk⟩ : ∃ p, kind? ps i = some (.type p) := hbare
    obtain ⟨-, k, hk', ha, h⟩ := argParam_eq_some h
    rw [hk] at hk'
    cases hk'
    cases a with
    | value | symbol | tuple => cases ha
    | type t =>
      exact ⟨congrArg Arg.type (Filling.ofArgs_ty (hc (Bindings.get?_unify h)) id), trivial⟩
  | @type t p _ _ _ hi _ ih =>
    rw [Goal.Exact, Arg.subst_type hi] at hg
    rw [Goal.PlainPattern, Arg.all_type fun _ => trivial] at hp
    rw [Goal.TypesBare, Arg.all_type_of_ne hi] at hbare
    cases hg
    obtain ⟨hfill, hall⟩ := ih hc hp hbare rfl
    exact ⟨congrArg Arg.type hfill, (Arg.all_type (fun _ => trivial) _).mpr hall⟩
  | @value t u x _ =>
    cases hg
    exact (fill_of_plain _).2.1 (.value t x) hp
  | @symbol s _ => exact (fill_of_plain _).2.1 (.symbol s) hp
  | @tuple xs _ => exact (fill_of_plain _).2.1 (.tuple xs) hp
  | nil => exact ⟨rfl, trivial⟩
  | @soak xs p i _ _ hi _ =>
    obtain ⟨rfl, hk⟩ := soaking?_eq_some hi
    obtain ⟨q, hq⟩ : ∃ q, kind? ps i = some (.type q) := hbare.1
    rw [hk] at hq
    cases hq
  | @cons a xs p pats _ _ _ _ _ hi ha hxs iha ihxs =>
    have hg : p.subst (.ofArgs as) ++ Arg.substList (.ofArgs as) pats = a :: xs := hg
    have hc' := hxs.binds.le.trans hc
    obtain ⟨x, hx⟩ := ha.exists_subst_arg hc'
    rw [hx] at hg
    cases hg
    obtain ⟨hfa, hall⟩ := iha hc' hp.1 hbare.1 hx
    obtain ⟨hfxs, halls⟩ := ihxs hc hp.2 hbare.2 rfl
    refine ⟨?_, hall, halls⟩
    change Arg.fill _ _ :: Arg.fillList _ _ = _
    rw [hfa, hfxs]

end Deduce

/-! ## Parameters -/

/-- Nothing is left out of the stand-in: of a pattern or declared type it shows every parameter as
what it is, and a symbol that is asked for is no alias. -/
structure ParamKind.Shown {σ : Type} (sem : Semantics σ) (ps : List Param) (k : ParamKind) :
    Prop where
  type {p : TypeParam} {pat : Ty} : k = .type p → p.spec = some pat → pat.All (.typesBare ps)
  value {p : ValueParam} : k = .value p → p.ty.All (.typesBare ps)
  symbol {p : SymbolParam} {x : SymbolId} (s : σ) : k = .symbol p → p.specSymbol = some x →
    sem.canonicalSymbol s x = x

/-- The parameter keeps all of the argument: its pattern gives the type back, and the value that it
asks for has the type of the argument. -/
def ParamKind.Keeps {σ : Type} (sem : Semantics σ) (as : List Arg) (k : ParamKind) : Arg → Prop
  | .type t => ∀ pat, k.specialization? = some (.type pat) → pat.subst (.ofArgs as) = t
  | .value t _ => ∀ e v, k.specialization? = some (.value e) → sem.Folds e v → t = v.ty
  | .symbol _ | .tuple _ => True

/-- The stand-ins show all of the declaration, and those for symbols can be told apart. -/
structure Decl.Shown {σ : Type} (sem : Semantics σ) (d : Decl) : Prop where
  few : d.params.length ≤ 256
  kind {p : Param} : p ∈ d.params → p.kind.Shown sem d.params

/-- Each parameter keeps all of its argument. There is no `this` parameter, so that the parameters
take the arguments in order. -/
def Decl.Keeps {σ : Type} (sem : Semantics σ) (d : Decl) (as args : List Arg) : Prop :=
  ∀ ⦃i : ParamIdx⦄ ⦃k a⦄, Deduce.kind? d.params i = some k → args[i.index]? = some a →
    k.Keeps sem as a

namespace Semantics

variable {σ : Type} {sem : Semantics σ} {d : Decl} {s s' : σ} {a : Arg} {k : ParamKind}
  {scope : ScopeId}

theorem specValue_none {p : ValueParam} (hp : p.spec = none) :
    (sem.specValue scope (.value p) s).1 = none := by
  obtain ⟨t, spec, dflt⟩ := p
  cases hp
  rfl

theorem specValue_folds {p : ValueParam} {e : ExprId} {v : Value} (hp : p.spec = some e)
    (hv : sem.Folds e v) : (sem.specValue scope (.value p) s).1 = some v := by
  obtain ⟨t, spec, dflt⟩ := p
  cases hp
  rw [specValue, bind_run, hv]
  rfl

theorem standIn_type {p : TypeParam} (has : as.length ≤ 256) (hplain : (ParamKind.type p).Plain sem)
    (hshown : (ParamKind.type p).Shown sem ps) (hkeeps : (ParamKind.type p).Keeps sem as a)
    (h : matchType i ps p a b = some (l, c)) (hc : c.Le (.ofArgs as)) (spec : Option Value) :
    ((ParamKind.type p).standIn ⟨id, i⟩ spec).fill (.ofArgs id as) = a ∧
      ((ParamKind.type p).standIn ⟨id, i⟩ spec).Ready (.ofArgs id as) := by
  obtain ⟨t, rfl, ⟨hp, hu⟩ | ⟨pat, m, b', hp, hded, hb'⟩⟩ := matchType_eq_some h
  · rw [ParamKind.standIn, hp]
    exact ⟨congrArg Arg.type (Filling.ofArgs_ty (hc (Bindings.get?_unify hu)) id), trivial⟩
  · have hle : b'.Le c := by
      obtain ⟨own, -, rfl⟩ | ⟨-, hu⟩ := hb'
      · exact .refl _
      · exact (Bindings.unify_binds hu).le
    have hder : Deduce.Derives ps (.ty t pat) b m b' := Deduce.run_eq_some_iff.mp hded
    obtain ⟨hfill, hall⟩ := hder.stands id has (hle.trans hc) (hplain.pattern hp)
      (hshown.type rfl hp) (hkeeps pat (congrArg (Option.map Specialization.type) hp))
    rw [ParamKind.standIn, hp]
    exact ⟨congrArg Arg.type hfill, hall⟩

theorem standIn_value {p : ValueParam} (hsem : sem.Steady) (has : as.length ≤ 256)
    (hplain : (ParamKind.value p).Plain sem) (hshown : (ParamKind.value p).Shown sem ps)
    (hkeeps : (ParamKind.value p).Keeps sem as a) (hb : b.Kinded ps)
    (h : (sem.matchValue i d p a b s).1 = some (l, c)) (hc : c.Le (.ofArgs as)) :
    ((ParamKind.value p).standIn ⟨id, i⟩ (sem.specValue scope (.value p) s').1).fill
        (.ofArgs id as) = a ∧
      ((ParamKind.value p).standIn ⟨id, i⟩ (sem.specValue scope (.value p) s').1).Ready
        (.ofArgs id as) := by
  obtain ⟨x, rfl, hn, -, hx, hu⟩ := (matchValue_eq_some_iff hsem hplain.folds).mp h
  cases hp : p.spec with
  | none =>
    obtain ⟨hfill, hall⟩ := (fill_withStandIns id has
      ((Bindings.unify_binds hu).le.trans hc) hb).1 p.ty (hplain.pattern rfl) (hshown.value rfl)
      (Ty.hasParams_eq_false.mp hn)
    rw [specValue_none hp, ParamKind.standIn]
    refine ⟨?_, hall, hfill ▸ hn⟩
    rw [Option.getD_none, Arg.ofValue, Arg.fill, hfill, Const.fill,
      Filling.ofArgs_const (hc (Bindings.get?_unify hu))]
  | some e =>
    obtain ⟨v, hv, hplain⟩ := hplain.value rfl hp
    have hty : p.ty.subst b = v.ty := hkeeps e v (congrArg (Option.map Specialization.value) hp) hv
    obtain ⟨hfill, hall⟩ := (fill_of_plain (.ofArgs id as)).2.1 _ hplain
    rw [specValue_folds hp hv, ParamKind.standIn, Option.getD_some]
    refine ⟨?_, (measured_of_proper _).1 _ hall.1, ?_⟩
    · rw [hfill, Arg.ofValue, hty, hx e v hp hv]
    · rw [((fill_of_plain _).1 _ hplain.1).1, ← hty]
      exact hn

theorem standIn_symbol {p : SymbolParam} (has : as.length ≤ 256)
    (hplain : (ParamKind.symbol p).Plain sem) (hshown : (ParamKind.symbol p).Shown sem ps)
    (h : sem.matchSymbol s i ps p a b = some (l, c)) (hc : c.Le (.ofArgs as))
    (spec : Option Value) :
    ((ParamKind.symbol p).standIn ⟨id, i⟩ spec).fill (.ofArgs id as) = a ∧
      ((ParamKind.symbol p).standIn ⟨id, i⟩ spec).Ready (.ofArgs id as) := by
  obtain ⟨x, rfl, hx⟩ := matchSymbol_eq_some h
  refine ⟨?_, trivial⟩
  cases hp : p.specSymbol with
  | none =>
    have hget : c.get? i = some (.symbol x) := by
      obtain ⟨-, hu⟩ | ⟨_, _, _, _, -, -, -, hu⟩ := hx
      · exact Bindings.get?_unify hu
      · exact Bindings.get?_unify hu
    rw [ParamKind.standIn, hp]
    exact congrArg Arg.symbol (Filling.ofArgs_symbol has (hc hget) id)
  | some y =>
    have hyx := canonicalSymbol_of_matchSymbol h hp
    rw [hshown.symbol s rfl hp] at hyx
    rw [ParamKind.standIn, hp, Option.getD_some, Arg.fill,
      Filling.symbol_of_real _ (hplain.symbol rfl hp), hyx]

variable (id s' scope) in
theorem standIn_fill (hsem : sem.Steady) (has : as.length ≤ 256) (hplain : k.Plain sem)
    (hshown : k.Shown sem d.params) (hkeeps : k.Keeps sem as a) (hb : b.Kinded d.params)
    (htuple : k.isTuple = false) (h : (sem.matchArg d i k a b s).1 = some (l, c))
    (hc : c.Le (.ofArgs as)) :
    (k.standIn ⟨id, i⟩ (sem.specValue scope k s').1).fill (.ofArgs id as) = a ∧
      (k.standIn ⟨id, i⟩ (sem.specValue scope k s').1).Ready (.ofArgs id as) := by
  cases k with
  | type p => exact standIn_type has hplain hshown hkeeps h hc _
  | this p => cases hplain.isThis
  | value p => exact standIn_value hsem has hplain hshown hkeeps hb h hc
  | symbol p => exact standIn_symbol has hplain hshown h hc _
  | tuple => cases htuple

/-! ## The list of stand-ins -/

variable {p : Param} {qs : List Param} {n : Nat} {args rest : List Arg} {m : Level}

theorem standIns_step :
    (sem.standIns id scope n (p :: qs) s).1 = if p.dependent || p.isTuple then ([], none) else
      let a := p.kind.standIn ⟨id, ⟨n⟩⟩ (sem.specValue scope p.kind s).1
      let rest := (sem.standIns id scope (n + 1) qs (sem.specValue scope p.kind s).2).1
      if p.isThis then (rest.1, rest.2.or a.toType?) else (a :: rest.1, rest.2) := by
  rw [standIns]
  split
  · rfl
  · rw [bind_run, bind_run]
    generalize sem.standIns id scope (n + 1) qs (sem.specValue scope p.kind s).2 = r
    obtain ⟨⟨as, t⟩, s'⟩ := r
    dsimp only
    split <;> rfl

theorem standIns_cons (hp : p.isThis = false) :
    (sem.standIns id scope n (p :: qs) s).1 = if p.dependent || p.isTuple then ([], none) else
      (p.kind.standIn ⟨id, ⟨n⟩⟩ (sem.specValue scope p.kind s).1 ::
          (sem.standIns id scope (n + 1) qs (sem.specValue scope p.kind s).2).1.1,
        (sem.standIns id scope (n + 1) qs (sem.specValue scope p.kind s).2).1.2) := by
  rw [standIns_step, hp]
  rfl

theorem standIns_receiver (hqs : ∀ p ∈ qs, p.isThis = false) :
    (sem.standIns id scope n qs s).1.2 = none := by
  induction qs generalizing n s with
  | nil => rfl
  | cons p qs ih =>
    rw [standIns_cons (hqs p List.mem_cons_self)]
    split
    · rfl
    · exact ih fun q hq => hqs q (List.mem_cons_of_mem p hq)

/-- The stand-in of a `this` parameter is the receiver. -/
theorem standIns_this {p : Param} {q : TypeParam} (hp : p.kind = .this q)
    (hdep : p.dependent = false) (hqs : ∀ q ∈ qs, q.isThis = false) :
    (sem.standIns id scope n (p :: qs) s).1 = ((sem.standIns id scope (n + 1) qs s).1.1,
      some ((q.spec.map (Ty.withStandIns id)).getD (.standIn ⟨id, ⟨n⟩⟩))) := by
  have hrec : (sem.standIns id scope (n + 1) qs s).1.2 = none := standIns_receiver hqs
  have htuple : p.isTuple = false := by rw [Param.isTuple, hp]; rfl
  have hthis : p.isThis = true := by rw [Param.isThis, hp]; rfl
  have hspec : sem.specValue scope (.this q) s = (none, s) := rfl
  rw [standIns_step, hdep, htuple, hthis, hp, hspec]
  dsimp only
  rw [hrec]
  rfl

variable (id s' scope) in
/-- **The stand-ins, filled with what was deduced, are the arguments.** -/
theorem standIns_fill (hsem : sem.Steady) (hd : d.Plain sem) (hshown : d.Shown sem)
    (has : as.length ≤ 256) (hqs : d.params.drop n = qs) (hb : b.Kinded d.params)
    (hkeeps : ∀ j k a, Deduce.kind? d.params ⟨n + j⟩ = some k → args[j]? = some a →
      k.Keeps sem as a)
    (hlen : args.length = (sem.standIns id scope n qs s').1.1.length)
    (h : (sem.visitParams d none n qs args l b s).1 = .ok (m, c, rest))
    (hc : c.Le (.ofArgs as)) :
    Arg.fillList (.ofArgs id as) (sem.standIns id scope n qs s').1.1 = args ∧
      ∀ a ∈ (sem.standIns id scope n qs s').1.1, a.Ready (.ofArgs id as) := by
  induction qs generalizing n args l b s s' with
  | nil =>
    obtain rfl : args = [] := List.length_eq_zero_iff.mp hlen
    exact ⟨rfl, List.forall_mem_nil _⟩
  | cons p qs ih =>
    obtain ⟨hi, htail⟩ := kind?_of_drop hqs
    have hmem : p ∈ d.params := List.mem_of_mem_drop (hqs ▸ List.mem_cons_self)
    have hplain := hd p hmem
    have hthis : p.isThis = false := hplain.isThis
    rw [standIns_cons hthis] at hlen ⊢
    split at hlen
    · next hstop =>
      obtain rfl : args = [] := List.length_eq_zero_iff.mp hlen
      rw [if_pos hstop]
      exact ⟨rfl, List.forall_mem_nil _⟩
    · next hgo =>
      rw [if_neg hgo]
      obtain ⟨a, args, rfl⟩ := List.exists_cons_of_length_eq_add_one hlen
      have htuple : p.kind.isTuple = false := by
        rw [Bool.not_eq_true, Bool.or_eq_false_iff] at hgo
        exact hgo.2
      rw [visitParams_cons, visitParam_cons hplain.isThis htuple] at h
      dsimp only at h
      rcases hv : sem.visitArg d ⟨n⟩ p.kind a b s with ⟨_ | ⟨l', b'⟩, s₁⟩ <;> rw [hv] at h
      · cases h
      · have hm := visitArg_eq_ok (congrArg Prod.fst hv)
        have hle : b'.Le (.ofArgs as) := (visitParams_fills htail h).le.trans hc
        obtain ⟨hfill, hready⟩ := standIn_fill id s' scope hsem has
          hplain (hshown.kind hmem) (hkeeps 0 _ a hi rfl) hb htuple hm hle
        obtain ⟨hfills, hreadies⟩ := ih (sem.specValue scope p.kind s').2 htail
          ((matchArg_fills hi hm).kinded hb)
          (fun j k x hk hx => hkeeps (j + 1) k x (Nat.add_right_comm n 1 j ▸ hk) hx)
          (Nat.succ.inj hlen) h
        exact ⟨by rw [Arg.fillList, hfill, hfills], List.forall_mem_cons.mpr ⟨hready, hreadies⟩⟩

section

variable {a b : DeclId × Decl}

/-- One declaration fits into another as well as this accepts the stand-ins, unless an open sequence
would have to fit into a list of fixed length. -/
theorem leastAsSpecialized_eq_iff (hl : .noMatch < l) :
    (sem.leastAsSpecialized a b s).1 = l ↔ (∃ ded,
      (sem.matchDecl b.2 (sem.standIns a.1 a.2.scope 0 a.2.params s).1.1
        (sem.standIns a.1 a.2.scope 0 a.2.params s).1.2 .rank
        (sem.standIns a.1 a.2.scope 0 a.2.params s).2).1 = .ok ded ∧ ded.level = l) ∧
      (a.2.isOpenVariadic = true → b.2.isVariadic = true) := by
  have ne_noMatch : Level.noMatch ≠ l := by
    rintro rfl
    cases hl
  rw [leastAsSpecialized, bind_run]
  dsimp only
  generalize sem.standIns a.1 a.2.scope 0 a.2.params s = r
  obtain ⟨⟨as, receiver⟩, s'⟩ := r
  dsimp only
  rw [bind_run]
  cases hm : (sem.matchDecl b.2 as receiver .rank s').1 with
  | error why =>
    constructor
    · intro h
      dsimp only at h
      split at h <;> exact absurd h ne_noMatch
    · rintro ⟨⟨ded, h, -⟩, -⟩
      cases h
  | ok ded =>
    dsimp only
    split
    · next hc =>
      simp only [Bool.and_eq_true, decide_eq_true_eq, Bool.not_eq_true'] at hc
      refine ⟨fun h => absurd h ne_noMatch, fun h => ?_⟩
      cases hc.2.symm.trans (h.2 hc.1.2)
    · next hc =>
      simp only [Bool.and_eq_true, decide_eq_true_eq, Bool.not_eq_true', not_and,
        Bool.not_eq_false] at hc
      constructor
      · intro h
        have hlevel : ded.level = l := h
        exact ⟨⟨ded, rfl, hlevel⟩, fun hopen => hc ⟨hlevel ▸ hl, hopen⟩⟩
      · rintro ⟨⟨ded', h, hlevel⟩, -⟩
        cases h
        exact hlevel

/-- One declaration fits into another if this accepts the stand-ins, with the same exception. -/
theorem leastAsSpecialized_pos_iff :
    .noMatch < (sem.leastAsSpecialized a b s).1 ↔ (∃ ded,
      (sem.matchDecl b.2 (sem.standIns a.1 a.2.scope 0 a.2.params s).1.1
        (sem.standIns a.1 a.2.scope 0 a.2.params s).1.2 .rank
        (sem.standIns a.1 a.2.scope 0 a.2.params s).2).1 = .ok ded ∧ .noMatch < ded.level) ∧
      (a.2.isOpenVariadic = true → b.2.isVariadic = true) := by
  constructor
  · intro h
    obtain ⟨⟨ded, hm, hlevel⟩, hvar⟩ := (leastAsSpecialized_eq_iff h).mp rfl
    exact ⟨⟨ded, hm, hlevel ▸ h⟩, hvar⟩
  · rintro ⟨⟨ded, hm, hl⟩, hvar⟩
    rwa [(leastAsSpecialized_eq_iff hl).mpr ⟨⟨ded, hm, rfl⟩, hvar⟩]

end

end Semantics

end Templates
