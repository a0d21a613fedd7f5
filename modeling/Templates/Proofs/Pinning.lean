import Templates.Proofs.Matching.Turns

/-!
# Parameters that an earlier pattern pins

The pattern of an earlier parameter may pin a parameter that is given no argument. An argument that is
given, and likewise a default, has to be what the specialization of the parameter asks for. What a
pattern pins is kept as it is: the specialization of the parameter itself is not looked at
(`Semantics.matchDecl_withKind`), and `Semantics.Enforces` says what that leaves of its meaning.
-/

namespace Templates

/-! ## Declarations that match alike -/

/-- The declaration with another kind for parameter `i`. -/
def Decl.withKind (d : Decl) (i : ParamIdx) (k : ParamKind) : Decl :=
  { d with params := d.params.modify i.index fun p => { p with kind := k } }

/-- Matching an argument to a parameter of its own sees no difference between the declarations. -/
structure Decl.MatchesAlike (d e : Decl) : Prop where
  scope : d.scope = e.scope
  names : d.params.map (·.name) = e.params.map (·.name)
  forms : Deduce.SameForms d.params e.params

namespace Semantics

variable {σ : Type} {sem : Semantics σ} {d e : Decl} {i : ParamIdx} {k k' : ParamKind}
  {args : List Arg} {receiver : Option Ty} {mode : MatchMode} {s : σ} {ded : Deduction} {a : Arg}

theorem declareParams_congr {ps qs : List Param} (h : ps.map (·.name) = qs.map (·.name))
    (scope : ScopeId) (b : Bindings) :
    sem.declareParams scope ps b = sem.declareParams scope qs b := by
  induction ps generalizing qs b with
  | nil =>
    obtain rfl := List.map_eq_nil_iff.mp h.symm
    rfl
  | cons p ps ih =>
    obtain ⟨q, qs, rfl, hq, hqs⟩ := List.map_eq_cons_iff.mp h.symm
    rcases b with _ | ⟨_ | a, b⟩
    · rfl
    · exact ih hqs.symm b
    · simp only [declareParams, hq, ih hqs.symm b]

theorem paramScope_congr (h : d.MatchesAlike e) (b : Bindings) :
    sem.paramScope d b = sem.paramScope e b := by
  simp only [paramScope, h.scope, declareParams_congr h.names]

theorem matchArg_congr (h : d.MatchesAlike e) (i : ParamIdx) (k : ParamKind) (a : Arg)
    (b : Bindings) : sem.matchArg d i k a b = sem.matchArg e i k a b := by
  cases k with
  | type | this => simp only [matchArg, matchType, h.forms.ty]
  | value => simp only [matchArg, matchValue, paramScope_congr h]
  | symbol => simp only [matchArg, matchSymbol, h.forms.ty]
  | tuple => rfl

theorem visitParam_congr (h : d.MatchesAlike e) (receiver : Option Ty) (i : ParamIdx)
    (k : ParamKind) (args : List Arg) (b : Bindings) :
    sem.visitParam d receiver i k args b = sem.visitParam e receiver i k args b := by
  cases k <;> simp only [visitParam, visitArg, visitMissing, paramScope_congr h, matchArg_congr h]

theorem visitParams_congr (h : d.MatchesAlike e) (receiver : Option Ty) (n : Nat) (ps : List Param)
    (args : List Arg) (l : Level) (b : Bindings) :
    sem.visitParams d receiver n ps args l b = sem.visitParams e receiver n ps args l b := by
  induction ps generalizing n args l b with
  | nil => rfl
  | cons p ps ih => simp only [visitParams, visitParam_congr h, ih]

/-! ## Another specialization -/

theorem params_withKind {q : Param} (hq : d.params[i.index]? = some q) (k' : ParamKind) :
    (d.withKind i k').params =
      d.params.take i.index ++ { q with kind := k' } :: d.params.drop (i.index + 1) := by
  obtain ⟨hlt, hget⟩ := List.getElem?_eq_some_iff.mp hq
  rw [Decl.withKind, List.modify_eq_take_cons_drop hlt, hget]

/-- Specializations and defaults leave no trace in what the other parameters see. -/
theorem withKind_matchesAlike (hk : Deduce.kind? d.params i = some k) (hform : k.form = k'.form) :
    (d.withKind i k').MatchesAlike d := by
  obtain ⟨q, hq, rfl⟩ := Option.map_eq_some_iff.mp hk
  refine ⟨rfl, ?_, ?_⟩
  · rw [params_withKind hq]
    conv_rhs => rw [params_split hq]
    simp
  · rw [Deduce.SameForms, params_withKind hq]
    conv_rhs => rw [params_split hq]
    simp [hform]

/-- Parameter `i` is given no argument, and in its turn an earlier pattern has bound it to `a`. -/
structure Pinned (sem : Semantics σ) (d : Decl) (args : List Arg) (receiver : Option Ty) (s : σ)
    (i : ParamIdx) (t : Turn σ) (a : Arg) : Prop where
  turn : sem.turn? d args receiver i s = some t
  missing : d.argument? args receiver i = none
  bound : t.bound.get? i = some a

theorem Pinned.argument? {t : Turn σ} (hd : d.Accepted) (hk : Deduce.kind? d.params i = some k)
    (h : sem.Pinned d args receiver s i t a) : k.argument? receiver t.rest = none := by
  rw [← argument?_of_turn? hd hk h.turn]
  exact h.missing

theorem visitParams_withKind {t : Turn σ} (hd : d.Accepted)
    (hk : Deduce.kind? d.params i = some k) (hform : k.form = k'.form)
    (h : sem.Pinned d args receiver s i t a) :
    sem.visitParams (d.withKind i k') receiver 0 (d.withKind i k').params args .exact
      (.free (d.withKind i k').params.length) s =
    sem.visitParams d receiver 0 d.params args .exact (.free d.params.length) s := by
  obtain ⟨q, hq, rfl⟩ := Option.map_eq_some_iff.mp hk
  have hlen : (d.withKind i k').params.length = d.params.length := List.length_modify ..
  obtain ⟨l, hv⟩ := turn?_eq_some h.turn
  have hn := h.argument? hd hk
  have hn' := (ParamKind.argument?_of_form hform receiver t.rest).symm.trans hn
  have hkept {k : ParamKind} (hn : k.argument? receiver t.rest = none) :
      (sem.visitParam d receiver i k t.rest t.bound).1 t.state = (.ok (.exact, t.bound), t.state) ∧
        (sem.visitParam d receiver i k t.rest t.bound).2 = t.rest :=
    visitParam_kept hn h.bound t.state
  have hlt : (d.params.take i.index).length = i.index :=
    List.length_take_of_le (List.getElem?_eq_some_iff.mp hq).1.le
  rw [visitParams_congr (withKind_matchesAlike hk hform), hlen, params_withKind hq,
    visitParams_append, hv]
  conv_rhs => rw [params_split hq, visitParams_append, ← params_split hq, hv]
  dsimp only
  rw [visitParams_cons, visitParams_cons, hlt, Nat.zero_add, (hkept hn).1, (hkept hn).2,
    (hkept hn').1, (hkept hn').2]

/-- **The specialization and the default of a pinned parameter do not count.** -/
theorem matchDecl_withKind {t : Turn σ} (hd : d.Accepted)
    (hk : Deduce.kind? d.params i = some k) (hform : k.form = k'.form)
    (h : sem.Pinned d args receiver s i t a) :
    sem.matchDecl (d.withKind i k') args receiver mode s = sem.matchDecl d args receiver mode s := by
  have hthis : ((d.withKind i k').params.filter fun p => !p.isThis).length =
      (d.params.filter fun p => !p.isThis).length := by
    obtain ⟨q, hq, rfl⟩ := Option.map_eq_some_iff.mp hk
    rw [params_withKind hq]
    conv_rhs => rw [params_split hq]
    simp only [List.filter_append, List.length_append, List.filter_cons, Param.isThis,
      ParamKind.isThis_of_form hform]
    split <;> rfl
  have hcheck (x : ExprId) (as : List Arg) :
      sem.checkConstraint (d.withKind i k') x as = sem.checkConstraint d x as := by
    simp only [checkConstraint, paramScope_congr (withKind_matchesAlike hk hform)]
    rfl
  rw [matchDecl, matchDecl, bind_run, bind_run, visitParams_withKind hd hk hform h, hthis]
  simp only [hcheck]
  rfl

/-! ## What a specialization asks for -/

/-- With the bindings `e` the argument is what the specialization of a parameter asks for. The front
end is asked in the state `s`, when the bindings were `b`. -/
def Satisfies (sem : Semantics σ) (d : Decl) (b : Bindings) (s : σ) (e : Bindings) :
    ParamKind → Arg → Prop
  | .type p, a | .this p, a => ∀ pat, p.spec = some pat →
    ∃ t, a = .type t ∧ Deduce.ty d.params t pat e ≠ none
  | .value p, a => ∀ x, p.spec = some x →
    ∃ t v, ((sem.paramScope d b >>= sem.evaluate x) s).1 = .ok v ∧ a = .value t v.const
  | .symbol p, a => (∀ x, p.specSymbol = some x → a = .symbol (sem.canonicalSymbol s x)) ∧
    ∀ pat, p.specType = some pat →
      ∃ x t, a = .symbol x ∧ sem.symbolType s x = some t ∧ Deduce.ty d.params t pat e ≠ none
  | .tuple, _ => True

/-- What matches a parameter satisfies its specialization. -/
theorem satisfies_of_matchArg {b c e : Bindings} {l : Level}
    (h : (sem.matchArg d i k a b s).1 = some (l, c)) (hc : c.Le e) : sem.Satisfies d b s e k a := by
  have again {t pat : Ty} {m : Level} {b' : Bindings}
      (h : Deduce.ty d.params t pat b = some (m, b')) (hle : b'.Le e) :
      Deduce.ty d.params t pat e ≠ none := by
    rw [Deduce.ty_again h hle]
    exact Option.some_ne_none _
  cases k with
  | type p | this p =>
    intro pat hp
    have h : matchType i d.params p a b = _ := h
    obtain ⟨t, rfl, ⟨hn, -⟩ | ⟨pat', m, b', hp', hb', hown⟩⟩ := matchType_eq_some h
    · rw [hp] at hn
      cases hn
    · rw [hp] at hp'
      cases hp'
      obtain ⟨own, -, rfl⟩ | ⟨-, hu⟩ := hown
      · exact ⟨t, rfl, again hb' hc⟩
      · exact ⟨t, rfl, again hb' ((Bindings.unify_binds hu).le.trans hc)⟩
  | value p => exact fun x hp => evaluate_of_matchValue hp h
  | symbol p =>
    have h : sem.matchSymbol s i d.params p a b = _ := h
    obtain ⟨x, rfl, hx⟩ := matchSymbol_eq_some h
    refine ⟨fun y hp => congrArg Arg.symbol (canonicalSymbol_of_matchSymbol h hp).symm,
      fun pat hp => ?_⟩
    obtain ⟨hn, -⟩ | ⟨pat', t, m, b', hp', ht, hb', hu⟩ := hx
    · rw [hp] at hn
      cases hn
    · rw [hp] at hp'
      cases hp'
      exact ⟨x, t, rfl, ht, again hb' ((Bindings.unify_binds hu).le.trans hc)⟩
  | tuple => trivial

/-- A pinned parameter is what the earlier pattern has bound it to. -/
theorem args_of_pinned {t : Turn σ} (hd : d.Accepted)
    (h : (sem.matchDecl d args receiver mode s).1 = .ok ded) (hk : Deduce.kind? d.params i = some k)
    (hp : sem.Pinned d args receiver s i t a) : ded.args[i.index]? = some a := by
  obtain ⟨t', l, c, ht', hv, hc⟩ := exists_turn hk h
  rw [hp.turn] at ht'
  cases ht'
  have hb := hp.bound
  cases hv with
  | offered ho =>
    rw [ho.free (hp.argument? hd hk)] at hb
    cases hb
  | kept => rw [← Bindings.get?_ofArgs, hc hb]
  | empty _ _ hfree =>
    rw [hfree] at hb
    cases hb

/-- Where the specializations of a match have been looked at. -/
structure Enforces (sem : Semantics σ) (d : Decl) (args : List Arg) (receiver : Option Ty)
    (mode : MatchMode) (s : σ) (deduced : List Arg) : Prop where
  /-- What is given to a parameter satisfies its specialization, and so does a default that is
  taken. -/
  offered {i : ParamIdx} {k : ParamKind} {t : Turn σ} {a : Arg} {s' : σ} :
    Deduce.kind? d.params i = some k → sem.turn? d args receiver i s = some t →
    sem.Offers d receiver i k t a s' → sem.Satisfies d t.bound s' (.ofArgs deduced) k a
  /-- A pinned parameter stays what the earlier pattern has bound it to. -/
  kept {i : ParamIdx} {k : ParamKind} {t : Turn σ} {a : Arg} : Deduce.kind? d.params i = some k →
    sem.Pinned d args receiver s i t a → deduced[i.index]? = some a
  /-- Its own specialization and default do not count, whether they are satisfied or not. -/
  ignored {i : ParamIdx} {k k' : ParamKind} {t : Turn σ} {a : Arg} :
    Deduce.kind? d.params i = some k → k.form = k'.form → sem.Pinned d args receiver s i t a →
    sem.matchDecl (d.withKind i k') args receiver mode s = sem.matchDecl d args receiver mode s

/-- **What is given satisfies the specialization of its parameter, what is pinned need not.** -/
theorem enforces (hd : d.Accepted) (h : (sem.matchDecl d args receiver mode s).1 = .ok ded) :
    sem.Enforces d args receiver mode s ded.args := by
  constructor
  case offered =>
    intro i k t a s' hk ht ho
    obtain ⟨t', l, c, ht', hv, hc⟩ := exists_turn hk h
    rw [ht] at ht'
    cases ht'
    cases hv with
    | offered ho' hm =>
      obtain ⟨rfl, rfl⟩ := ho.unique ho'
      exact satisfies_of_matchArg hm hc
    | kept hn hb =>
      rw [ho.free hn] at hb
      cases hb
    | empty hk => exact hk ▸ trivial
  case kept => exact fun hk hp => args_of_pinned hd h hk hp
  case ignored => exact fun hk hform hp => matchDecl_withKind hd hk hform hp

end Semantics

/-- `D!(char[])` enforces what is given and keeps what is pinned. -/
theorem enforces_pinned : pinned.Accepted ∧
    (blank.matchDecl pinned [.type (.array .char)] none .instantiate ()).1 =
      .ok ⟨.exact, [.type (.array .char), .type .char]⟩ ∧
    blank.Enforces pinned [.type (.array .char)] none .instantiate ()
      [.type (.array .char), .type .char] := by
  have h : (blank.matchDecl pinned [.type (.array .char)] none .instantiate ()).1 =
      .ok ⟨.exact, [.type (.array .char), .type .char]⟩ := rfl
  exact ⟨pinned_accepted, h, Semantics.enforces pinned_accepted h⟩

/-- In `D!(char[])` the pattern `U[]` pins `U : int` to `char`. -/
theorem not_satisfies_pinned : pinned.Accepted ∧
    (blank.matchDecl pinned [.type (.array .char)] none .instantiate ()).1 =
      .ok ⟨.exact, [.type (.array .char), .type .char]⟩ ∧
    Deduce.kind? pinned.params ⟨1⟩ = some (.type { spec := some .int }) ∧
    blank.Pinned pinned [.type (.array .char)] none () ⟨1⟩
      ⟨[], [some (.type (.array .char)), some (.type .char)], ()⟩ (.type .char) ∧
    ¬blank.Satisfies pinned [some (.type (.array .char)), some (.type .char)] ()
      (.ofArgs [.type (.array .char), .type .char]) (.type { spec := some .int }) (.type .char) := by
  refine ⟨pinned_accepted, rfl, rfl, ⟨rfl, rfl, rfl⟩, fun H => ?_⟩
  obtain ⟨t, ht, hne⟩ := H .int rfl
  cases ht
  exact hne rfl

end Templates
