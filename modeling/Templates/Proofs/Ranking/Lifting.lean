import Templates.Proofs.Matching
import Templates.Proofs.Ranking.Filling

/-!
# Matching what stand-ins stand for

A declaration whose patterns hold no stand-ins treats an argument with stand-ins as it treats the
argument with these filled: each deduction (`Deduce.Derives.fill`), each visit to a parameter and
the whole match (`Semantics.matchDecl_fill`) succeed at the same level with the filled bindings.
-/

namespace Templates

variable {f : Filling} {ps : List Param} {b c : Bindings} {l : Level} {i : ParamIdx}

/-! ## Deduction -/

/-- No declared type of a value holds a stand-in. -/
def PlainValues (ps : List Param) : Prop :=
  ∀ ⦃i p⦄, Deduce.kind? ps i = some (.value p) → p.ty.All .plain

namespace Deduce

theorem tyParam_fill {t : Ty} (h : tyParam ps i t b = some c) :
    tyParam ps i (t.fill f) (b.fill f) = some (c.fill f) := by
  unfold tyParam at h ⊢
  split at h
  · exact Bindings.unify_fill h
  · exact Bindings.unify_fill h
  · cases h

theorem argParam_fill {a : Arg} (h : argParam ps i a b = some c) :
    argParam ps i (a.fill f) (b.fill f) = some (c.fill f) := by
  unfold argParam at h ⊢
  split at h
  case h_5 => cases h
  all_goals
    next hk =>
      rw [hk]
      exact Bindings.unify_fill h

theorem templateRef_fill {r q : TemplateRef} (hq : q.All .plain)
    (h : templateRef ps r q b = some c) :
    templateRef ps (r.fill f) q (b.fill f) = some (c.fill f) := by
  obtain ⟨rfl, -, rfl⟩ | ⟨i, p, s, rfl, rfl, hk, h⟩ := templateRef_eq_some h
  · rw [TemplateRef.fill_of_plain hq]
    cases q with
    | param => cases h
    | symbol s => exact if_pos rfl
  · rw [TemplateRef.fill, templateRef, hk]
    exact Bindings.unify_fill h

theorem dim_fill {d n : Dim} (hps : PlainValues ps) (hn : ∀ p, n ≠ .standIn p)
    (hd : d.Measured f) (h : dim ps d n b = some c) :
    dim ps (d.fill f) n (b.fill f) = some (c.fill f) := by
  obtain ⟨rfl, hm, rfl⟩ | ⟨i, p, x, rfl, hk, hx, h⟩ := dim_eq_some h
  · rw [(Dim.fill_of_plain hn).1]
    cases n with
    | param => cases hm
    | known => exact if_pos rfl
    | standIn p => exact absurd rfl (hn p)
  · have hty : (lengthTy p).fill f = lengthTy p := by
      unfold lengthTy
      split
      · rfl
      · exact ((fill_of_plain f).1 _ (hps hk)).1
    have hx : lengthConst? (d.fill f) = some (x.fill f) := by
      cases d with
      | param => cases hx
      | known n =>
        cases hx
        rfl
      | standIn p =>
        cases hx
        exact hd
    have hu := Bindings.unify_fill (f := f) h
    rw [Arg.fill, hty] at hu
    rw [dim, hk, hx]
    exact hu

namespace Goal

def fill (f : Filling) : Goal → Goal
  | .ty t pat => .ty (t.fill f) pat
  | .arg a pat => .arg (a.fill f) pat
  | .args as pats => .args (Arg.fillList f as) pats

/-- The pattern holds no stand-in. -/
def PlainPattern : Goal → Prop
  | .ty _ pat => pat.All .plain
  | .arg _ pat => pat.All .plain
  | .args _ pats => Arg.AllList .plain pats

/-- What is taken apart may be filled. -/
def Proper (f : Filling) : Goal → Prop
  | .ty t _ => t.All (.proper f)
  | .arg a _ => a.All (.proper f)
  | .args as _ => Arg.AllList (.proper f) as

end Goal

theorem Derives.fill {g : Goal} (hps : PlainValues ps) (h : Derives ps g b l c)
    (hp : g.PlainPattern) (hf : g.Proper f) : Derives ps (g.fill f) (b.fill f) l (c.fill f) := by
  induction h with
  | param h => exact .param (tyParam_fill h)
  | argParam h => exact .argParam (argParam_fill h)
  | @const t p _ _ _ _ ih =>
    change Derives ps (.ty ((Ty.const t).fill f) (.const p)) _ _ _
    rw [show (Ty.const t).fill f = .const (t.fill f) from hf.1]
    exact .const (ih hp.2 hf.2)
  | @unqualify t p _ _ _ hi hq _ ih =>
    change Derives ps (.ty ((Ty.const t).fill f) p) _ _ _
    rw [show (Ty.const t).fill f = .const (t.fill f) from hf.1]
    exact .unqualify hi hq (ih hp hf.2)
  | basic => exact .basic
  | named => exact .named
  | standIn => exact hp.elim
  | ptr _ ih => exact .ptr (ih hp hf)
  | array _ ih => exact .array (ih hp hf)
  | staticArray _ hd ih => exact .staticArray (ih hp.1 hf.1) (dim_fill hps hp.2 hf.2 hd)
  | inst hr _ ih => exact .inst (templateRef_fill hp.1 hr) (ih hp.2 hf.2)
  | @type t p _ _ _ hi _ ih =>
    exact .type hi (ih ((Arg.all_type (fun _ => trivial) p).mp hp)
      ((Arg.all_type (fun _ => trivial) t).mp hf))
  | @value t u x _ =>
    change Derives ps (.arg (.value (t.fill f) (x.fill f)) (.value u x)) _ _ _
    rw [Const.fill_of_plain hp.2]
    exact .value
  | @symbol s _ =>
    change Derives ps (.arg ((Arg.symbol s).fill f) (.symbol s)) _ _ _
    rw [((fill_of_plain f).2.1 (.symbol s) hp).1]
    exact .symbol
  | @tuple as _ =>
    change Derives ps (.arg ((Arg.tuple as).fill f) (.tuple as)) _ _ _
    rw [((fill_of_plain f).2.1 (.tuple as) hp).1]
    exact .tuple
  | nil => exact .nil
  | @soak as p i _ _ hi h =>
    refine .soak hi ?_
    rw [← Arg.ofList_fill]
    exact Bindings.unify_fill h
  | cons hi _ _ iha ihas => exact .cons hi (iha hp.1 hf.1) (ihas hp.2 hf.2)

theorem ty_fill {t pat : Ty} (hps : PlainValues ps) (hp : pat.All .plain) (ht : t.All (.proper f))
    (h : ty ps t pat b = some (l, c)) :
    ty ps (t.fill f) pat (b.fill f) = some (l, c.fill f) :=
  ((run_eq_some_iff (g := .ty t pat)).mp h |>.fill hps hp ht).run

end Deduce

/-! ## Declarations and front ends without stand-ins -/

/-- The argument may be filled: lengths stay lengths, no `const` is lost, and the type of a value
comes to hold no parameters. -/
def Arg.Ready (f : Filling) : Arg → Prop
  | .type t => t.All (.proper f)
  | .value t _ => t.All (.measured f) ∧ (t.fill f).hasParams = false
  | .symbol _ | .tuple _ => True

/-- The expression is a constant: its value depends neither on the scope nor on the state. -/
def Semantics.Folds {σ : Type} (sem : Semantics σ) (e : ExprId) (v : Value) : Prop :=
  ∀ scope s, (sem.evaluate e scope s).1 = .ok v

theorem Semantics.Folds.unique {σ : Type} {sem : Semantics σ} {e : ExprId} {v w : Value}
    (hv : sem.Folds e v) (hw : sem.Folds e w) (s : σ) : v = w :=
  Except.ok.inj ((hv ⟨0⟩ s).symm.trans (hw ⟨0⟩ s))

/-- The front end answers the same in every state, knows of no stand-ins and converts nothing. -/
structure Semantics.Steady {σ : Type} (sem : Semantics σ) : Prop where
  canonicalSymbol (s s' : σ) : sem.canonicalSymbol s = sem.canonicalSymbol s'
  symbolType (s s' : σ) : sem.symbolType s = sem.symbolType s'
  canonical_real {s : σ} {x : SymbolId} : x.isPlaceholder = false →
    (sem.canonicalSymbol s x).isPlaceholder = false
  symbolType_plain {s : σ} {x : SymbolId} {t : Ty} : sem.symbolType s x = some t → t.All .plain
  conversion {s : σ} {t u : Ty} : t ≠ u → sem.conversion s t u = .noMatch

/-- The parameter has no default and no stand-ins, is not `this`, and a value that it asks for is a
constant. -/
structure ParamKind.Plain {σ : Type} (sem : Semantics σ) (k : ParamKind) : Prop where
  isThis : k.isThis = false
  hasDefault : k.hasDefault = false
  pattern {t : Ty} : k.pattern? = some t → t.All .plain
  symbol {p : SymbolParam} {x : SymbolId} : k = .symbol p → p.specSymbol = some x →
    x.isPlaceholder = false
  value {p : ValueParam} {e : ExprId} : k = .value p → p.spec = some e →
    ∃ v, sem.Folds e v ∧ (Arg.ofValue v).All .plain

namespace ParamKind.Plain

variable {σ : Type} {sem : Semantics σ}

theorem ofType {spec : Option Ty} (h : ∀ t, spec = some t → t.All .plain) :
    (ParamKind.type { spec }).Plain sem where
  isThis := rfl
  hasDefault := rfl
  pattern ht := h _ ht
  symbol := nofun
  value := nofun

theorem ofValue {t : Ty} {spec : Option ExprId} (ht : t.All .plain)
    (h : ∀ e, spec = some e → ∃ v, sem.Folds e v ∧ (Arg.ofValue v).All .plain) :
    (ParamKind.value { ty := t, spec }).Plain sem where
  isThis := rfl
  hasDefault := rfl
  pattern | rfl => ht
  symbol := nofun
  value | rfl => h _

theorem ofSymbol {specType : Option Ty} {specSymbol : Option SymbolId}
    (ht : ∀ t, specType = some t → t.All .plain)
    (h : ∀ x, specSymbol = some x → x.isPlaceholder = false) :
    (ParamKind.symbol { specType, specSymbol }).Plain sem where
  isThis := rfl
  hasDefault := rfl
  pattern := ht _
  symbol | rfl => h _
  value := nofun

theorem ofTuple : ParamKind.tuple.Plain sem where
  isThis := rfl
  hasDefault := rfl
  pattern := nofun
  symbol := nofun
  value := nofun

theorem folds {p : ValueParam} (h : (ParamKind.value p).Plain sem) (e : ExprId)
    (he : p.spec = some e) : ∃ v, sem.Folds e v :=
  (h.value rfl he).imp fun _ hv => hv.1

end ParamKind.Plain

def PlainParams {σ : Type} (sem : Semantics σ) (ps : List Param) : Prop :=
  ∀ p ∈ ps, p.kind.Plain sem

namespace PlainParams

variable {σ : Type} {sem : Semantics σ}

theorem nil : PlainParams sem [] := List.forall_mem_nil _

theorem cons {p : Param} (hp : p.kind.Plain sem) (hps : PlainParams sem ps) :
    PlainParams sem (p :: ps) := List.forall_mem_cons.mpr ⟨hp, hps⟩

end PlainParams

def Decl.Plain {σ : Type} (sem : Semantics σ) (d : Decl) : Prop := PlainParams sem d.params

theorem Decl.Plain.kind {σ : Type} {sem : Semantics σ} {d : Decl} {k : ParamKind}
    (hd : d.Plain sem) (h : Deduce.kind? d.params i = some k) : k.Plain sem := by
  obtain ⟨p, hp, rfl⟩ := Option.map_eq_some_iff.mp h
  exact hd p (List.mem_of_getElem? hp)

theorem Decl.Plain.plainValues {σ : Type} {sem : Semantics σ} {d : Decl} (hd : d.Plain sem) :
    PlainValues d.params := fun _ _ h => (hd.kind h).pattern rfl

namespace Semantics

variable {σ : Type} {sem : Semantics σ} {d : Decl} {s s' : σ} {a : Arg} {k : ParamKind}

/-! ## One argument -/

theorem matchType_fill {p : TypeParam} {t : Ty} (hps : PlainValues ps)
    (hp : ∀ pat, p.spec = some pat → pat.All .plain) (ht : t.All (.proper f))
    (h : matchType i ps p (.type t) b = some (l, c)) :
    matchType i ps p (.type (t.fill f)) (b.fill f) = some (l, c.fill f) := by
  unfold matchType at h ⊢
  dsimp only at h ⊢
  cases hspec : p.spec with
  | none =>
    rw [hspec] at h
    obtain ⟨c', hc, h⟩ := Option.map_eq_some_iff.mp h
    cases h
    exact Option.map_eq_some_iff.mpr ⟨_, Bindings.unify_fill hc, rfl⟩
  | some pat =>
    rw [hspec] at h
    obtain ⟨⟨m, b'⟩, hb', h⟩ := Option.bind_eq_some_iff.mp h
    obtain ⟨c', hc, h⟩ := Option.map_eq_some_iff.mp h
    cases h
    refine Option.bind_eq_some_iff.mpr ⟨_, Deduce.ty_fill hps (hp pat hspec) ht hb', ?_⟩
    refine Option.map_eq_some_iff.mpr ⟨_, ?_, rfl⟩
    -- what the parameter is bound to is filled too
    have hown := Bindings.unify_fill (f := f) hc
    rw [Bindings.get?_fill]
    rcases hg : b'.get? i with _ | _ | _ | _ | _ <;> rw [hg] at hown <;> exact hown

theorem convert?_eq_some_iff (hsem : sem.Steady) {p : ValueParam} {v : Value} :
    sem.convert? s p a b = some (l, v) ↔ ∃ x, a = .value (p.ty.subst b) x ∧
      (p.ty.subst b).hasParams = false ∧ l = .exact ∧ v = ⟨p.ty.subst b, x⟩ := by
  unfold convert?
  cases a with
  | type | symbol | tuple => simp
  | value t x =>
    dsimp only
    by_cases ht : t = p.ty.subst b
    · subst ht
      cases (p.ty.subst b).hasParams <;> simp [eq_comm]
    · simp [ht, hsem.conversion ht]

/-- The value has the declared type and the constant that is asked for. -/
theorem matchValue_eq_some_iff (hsem : sem.Steady) {p : ValueParam}
    (hp : ∀ e, p.spec = some e → ∃ v, sem.Folds e v) :
    (sem.matchValue i d p a b s).1 = some (l, c) ↔ ∃ x, a = .value (p.ty.subst b) x ∧
      (p.ty.subst b).hasParams = false ∧ l = .exact ∧
      (∀ e v, p.spec = some e → sem.Folds e v → v.const = x) ∧
      b.unify i (.value (p.ty.subst b) x) = some c := by
  rw [matchValue, bind_run, get_run]
  dsimp only
  cases hv : sem.convert? s p a b with
  | none =>
    constructor
    · intro h
      cases h
    rintro ⟨x, ha, hn, -⟩
    have hv' := (convert?_eq_some_iff (s := s) hsem).mpr ⟨x, ha, hn, rfl, rfl⟩
    rw [hv] at hv'
    cases hv'
  | some r =>
    obtain ⟨m, v⟩ := r
    obtain ⟨x, rfl, hn, rfl, rfl⟩ := (convert?_eq_some_iff hsem).mp hv
    have bound : (b.unify i (.value (p.ty.subst b) x)).map (Level.exact, ·) = some (l, c) ↔
        l = .exact ∧ b.unify i (.value (p.ty.subst b) x) = some c := by
      rw [Option.map_eq_some_iff]
      constructor
      · rintro ⟨c', hc, h⟩
        cases h
        exact ⟨rfl, hc⟩
      · rintro ⟨rfl, hc⟩
        exact ⟨c, hc, rfl⟩
    cases hspec : p.spec with
    | none =>
      refine bound.trans ⟨?_, ?_⟩
      · rintro ⟨hl, hc⟩
        exact ⟨x, rfl, hn, hl, fun _ _ h => (by cases h), hc⟩
      · rintro ⟨x', h, -, hl, -, hc⟩
        cases h
        exact ⟨hl, hc⟩
    | some e =>
      obtain ⟨v, hfold⟩ := hp e hspec
      dsimp only
      rw [bind_run, bind_run, hfold]
      dsimp only
      by_cases hx : v.const = x
      · rw [if_pos hx]
        refine bound.trans ⟨?_, ?_⟩
        · rintro ⟨hl, hc⟩
          refine ⟨x, rfl, hn, hl, fun e' v' he' hv' => ?_, hc⟩
          cases he'
          exact hfold.unique hv' s ▸ hx
        · rintro ⟨x', h, -, hl, -, hc⟩
          cases h
          exact ⟨hl, hc⟩
      · rw [if_neg hx]
        constructor
        · intro h
          cases h
        · rintro ⟨x', h, -, -, hx', -⟩
          cases h
          exact absurd (hx' e v rfl hfold) hx

theorem matchValue_fill (hsem : sem.Steady) {p : ValueParam} (hp : (ParamKind.value p).Plain sem)
    (ha : a.Ready f) (h : (sem.matchValue i d p a b s).1 = some (l, c)) :
    (sem.matchValue i d p (a.fill f) (b.fill f) s').1 = some (l, c.fill f) := by
  obtain ⟨x, rfl, hn, rfl, hx, hc⟩ := (matchValue_eq_some_iff hsem hp.folds).mp h
  have hty := (fill_subst f b).1 p.ty (hp.pattern rfl) ha.1
  refine (matchValue_eq_some_iff hsem hp.folds).mpr ⟨x.fill f, ?_, ?_, rfl, fun e v he hv => ?_, ?_⟩
  · rw [Arg.fill, hty]
  · rw [← hty]
    exact ha.2
  · obtain ⟨v', hv', hplain⟩ := hp.value rfl he
    cases hv.unique hv' s
    rw [← hx e v he hv, Const.fill_of_plain hplain.2]
  · rw [← hty]
    exact Bindings.unify_fill hc

theorem matchSymbol_fill (hsem : sem.Steady) (hps : PlainValues ps) {p : SymbolParam} {x : SymbolId}
    (hp : (ParamKind.symbol p).Plain sem)
    (h : sem.matchSymbol s i ps p (.symbol x) b = some (l, c)) :
    sem.matchSymbol s' i ps p (.symbol (f.symbol x)) (b.fill f) = some (l, c.fill f) := by
  -- a symbol that is asked for is no stand-in
  have hspec : ¬(p.specSymbol.any fun y => sem.canonicalSymbol s y ≠ f.symbol x) := by
    cases hy : p.specSymbol with
    | none => exact Bool.false_ne_true
    | some y =>
      have hyx := canonicalSymbol_of_matchSymbol h hy
      have hx := hsem.canonical_real (s := s) (hp.symbol rfl hy)
      rw [hyx] at hx
      simpa [f.symbol_of_real hx] using hyx
  unfold matchSymbol at h ⊢
  dsimp only at h ⊢
  rw [hsem.canonicalSymbol s' s, hsem.symbolType s' s, if_neg hspec]
  split at h
  · cases h
  · clear hspec
    cases ht : p.specType with
    | none =>
      rw [ht] at h
      obtain ⟨c', hc, h⟩ := Option.map_eq_some_iff.mp h
      cases h
      exact Option.map_eq_some_iff.mpr ⟨_, Bindings.unify_fill hc, rfl⟩
    | some pat =>
      rw [ht] at h
      dsimp only at h ⊢
      cases hx : x.isPlaceholder with
      | true =>
        rw [hx] at h
        cases h
      | false =>
        rw [hx] at h
        obtain ⟨t, hst, h⟩ := Option.bind_eq_some_iff.mp h
        obtain ⟨⟨m, b'⟩, hb', h⟩ := Option.bind_eq_some_iff.mp h
        obtain ⟨c', hc, h⟩ := Option.map_eq_some_iff.mp h
        cases h
        obtain ⟨hfill, hproper⟩ := (fill_of_plain f).1 t (hsem.symbolType_plain hst)
        have hded := Deduce.ty_fill hps (hp.pattern ht) hproper hb'
        have hu := Bindings.unify_fill (f := f) hc
        rw [hfill] at hded
        rw [Arg.fill, f.symbol_of_real hx] at hu
        rw [f.symbol_of_real hx, hx, hst]
        simp [hded, hu]

theorem matchTuple_fill {rest : List Arg} (h : matchTuple i rest b = some (l, c)) :
    matchTuple i (Arg.fillList f rest) (b.fill f) = some (l, c.fill f) := by
  unfold matchTuple at h ⊢
  have hrest : (Arg.fillList f rest).isEmpty = rest.isEmpty := by cases rest <;> rfl
  rw [hrest, Bindings.get?_fill, Option.isSome_map]
  split at h
  · next hc =>
    cases h
    rw [if_pos hc]
  · next hc =>
    obtain ⟨c', hc', h⟩ := Option.map_eq_some_iff.mp h
    cases h
    rw [if_neg hc, ← Arg.ofList_fill]
    exact Option.map_eq_some_iff.mpr ⟨_, Bindings.unify_fill hc', rfl⟩

theorem matchArg_fill (hsem : sem.Steady) (hd : d.Plain sem)
    (hi : Deduce.kind? d.params i = some k) (ha : a.Ready f)
    (h : (sem.matchArg d i k a b s).1 = some (l, c)) :
    (sem.matchArg d i k (a.fill f) (b.fill f) s').1 = some (l, c.fill f) := by
  cases k with
  | type p | this p =>
    cases a with
    | type t => exact matchType_fill hd.plainValues (fun _ hp => (hd.kind hi).pattern hp) ha h
    | value | symbol | tuple => cases h
  | value p => exact matchValue_fill hsem (hd.kind hi) ha h
  | symbol p =>
    cases a with
    | symbol x => exact matchSymbol_fill hsem hd.plainValues (hd.kind hi) h
    | type | value | tuple => cases h
  | tuple =>
    have h : matchTuple i [a] b = _ := h
    exact matchTuple_fill h

/-! ## One parameter -/

theorem visitArg_fill (hsem : sem.Steady) (hd : d.Plain sem)
    (hi : Deduce.kind? d.params i = some k) (ha : a.Ready f)
    (h : (sem.visitArg d i k a b s).1 = .ok (l, c)) :
    (sem.visitArg d i k (a.fill f) (b.fill f) s').1 = .ok (l, c.fill f) := by
  rw [visitArg, bind_run, matchArg_fill hsem hd hi ha (visitArg_eq_ok h)]
  rfl

/-- Without a default an earlier pattern must have bound the parameter. -/
theorem visitMissing_eq_ok_iff (hk : k.hasDefault = false) :
    (sem.visitMissing d i k b s).1 = .ok (l, c) ↔ (b.get? i).isSome ∧ l = .exact ∧ c = b := by
  unfold visitMissing
  rw [hk]
  cases (b.get? i).isSome with
  | false =>
    constructor
    · intro h
      cases h
    · rintro ⟨h, -⟩
      cases h
  | true =>
    constructor
    · intro h
      cases h
      exact ⟨rfl, rfl, rfl⟩
    · rintro ⟨-, rfl, rfl⟩
      rfl

theorem visitMissing_fill (hk : k.hasDefault = false)
    (h : (sem.visitMissing d i k b s).1 = .ok (l, c)) :
    (sem.visitMissing d i k (b.fill f) s').1 = .ok (l, c.fill f) := by
  obtain ⟨hs, rfl, rfl⟩ := (visitMissing_eq_ok_iff hk).mp h
  exact (visitMissing_eq_ok_iff hk).mpr ⟨by rwa [Bindings.get?_fill, Option.isSome_map], rfl, rfl⟩

variable {args rest : List Arg}

variable (s') in
theorem visitParam_fill (hsem : sem.Steady) (hd : d.Plain sem)
    (hi : Deduce.kind? d.params i = some k) (hargs : ∀ a ∈ args, a.Ready f)
    (h : ((sem.visitParam d none i k args b).1 s).1 = .ok (l, c)) :
    ((sem.visitParam d none i k (Arg.fillList f args) (b.fill f)).1 s').1 = .ok (l, c.fill f) ∧
      (sem.visitParam d none i k (Arg.fillList f args) (b.fill f)).2 =
        Arg.fillList f (sem.visitParam d none i k args b).2 := by
  cases k with
  | this p => cases (hd.kind hi).isThis
  | tuple =>
    refine ⟨?_, rfl⟩
    change ((matchTuple i args b).map Except.ok).getD (.error (Rejection.mismatch i)) = _ at h
    change ((matchTuple i (Arg.fillList f args) (b.fill f)).map Except.ok).getD
      (.error (Rejection.mismatch i)) = _
    rcases hm : matchTuple i args b with _ | ⟨m, c'⟩ <;> rw [hm] at h <;> cases h
    rw [matchTuple_fill hm]
    rfl
  | type p | value p | symbol p =>
    cases args with
    | nil => exact ⟨visitMissing_fill (hd.kind hi).hasDefault h, rfl⟩
    | cons a args =>
      exact ⟨visitArg_fill hsem hd hi (hargs a List.mem_cons_self) h, rfl⟩

/-! ## All parameters -/

theorem visitParam_rest_subset : (sem.visitParam d none i k args b).2 ⊆ args := by
  cases k with
  | this => exact List.Subset.refl _
  | tuple => exact List.nil_subset _
  | type | value | symbol =>
    cases args with
    | nil => exact List.nil_subset _
    | cons a args => exact List.subset_cons_self ..

variable (s') in
theorem visitParams_fill {n : Nat} {qs : List Param} {m : Level} (hsem : sem.Steady)
    (hd : d.Plain sem) (hqs : d.params.drop n = qs) (hargs : ∀ a ∈ args, a.Ready f)
    (h : (sem.visitParams d none n qs args l b s).1 = .ok (m, c, rest)) :
    (sem.visitParams d none n qs (Arg.fillList f args) l (b.fill f) s').1 =
      .ok (m, c.fill f, Arg.fillList f rest) := by
  induction qs generalizing n args l b s s' with
  | nil =>
    cases h
    rfl
  | cons q qs ih =>
    obtain ⟨hi, htail⟩ := kind?_of_drop hqs
    rw [visitParams_cons] at h ⊢
    rcases hv : (sem.visitParam d none ⟨n⟩ q.kind args b).1 s with ⟨_ | ⟨k, b'⟩, s₁⟩ <;>
      rw [hv] at h
    · cases h
    · obtain ⟨hfill, hrest⟩ := visitParam_fill s' hsem hd hi hargs (congrArg Prod.fst hv)
      rcases hv' : (sem.visitParam d none ⟨n⟩ q.kind (Arg.fillList f args) (b.fill f)).1 s' with
        ⟨r, s₂⟩
      rw [hv'] at hfill
      cases hfill
      rw [hrest]
      exact ih _ htail (fun a ha => hargs a (visitParam_rest_subset ha)) h

theorem matchDecl_of_visit {as : List Arg} {receiver : Option Ty}
    (h : (sem.visitParams d receiver 0 d.params args .exact (.free d.params.length) s).1 =
      .ok (l, .ofArgs as, [])) :
    (sem.matchDecl d args receiver .rank s).1 = .ok ⟨l, as⟩ := by
  rw [matchDecl, bind_run, h]
  simp only [List.isEmpty_nil, Bool.not_true, complete_ofArgs]
  rfl

variable (s') in
/-- **What a declaration without stand-ins makes of stand-ins, it makes of what they stand for.** -/
theorem matchDecl_fill {ded : Deduction} (hsem : sem.Steady) (hd : d.Plain sem)
    (hargs : ∀ a ∈ args, a.Ready f) (h : (sem.matchDecl d args none .rank s).1 = .ok ded) :
    (sem.matchDecl d (Arg.fillList f args) none .rank s').1 =
      .ok ⟨ded.level, Arg.fillList f ded.args⟩ := by
  refine matchDecl_of_visit ?_
  have hv := visitParams_fill s' hsem hd rfl hargs (matchDecl_eq_ok h)
  rwa [Bindings.fill_free, Bindings.fill_ofArgs] at hv
end Semantics

end Templates
