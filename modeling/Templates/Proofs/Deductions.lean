import Templates.Proofs.Deduction.Exact
import Templates.Proofs.Matching.Accepted
import Templates.Proofs.Matching.Heredity
import Templates.Proofs.Matching.Kinds

/-!
# Deductions are well formed

A match fits, has one argument of its kind for each parameter, gives what is left of the arguments to the
sequence at the end, and has its constraint satisfied where every parameter has its argument
(`Semantics.deduces`). Sequences are spliced when they are made, so none stands inside another in a
match either.
-/

namespace Templates

/-! ## Spliced sequences -/

mutual

/-- No sequence stands directly inside another. -/
def Ty.isSpliced : Ty → Bool
  | .const t | .ptr t | .array t | .staticArray t _ => t.isSpliced
  | .inst _ args => Arg.areSpliced args
  | .basic _ | .named _ | .param _ | .standIn _ | .error => true

def Arg.isSpliced : Arg → Bool
  | .type t | .value t _ => t.isSpliced
  | .symbol _ => true
  | .tuple elems => elems.all Arg.isLeaf && Arg.areSpliced elems

def Arg.areSpliced : List Arg → Bool
  | [] => true
  | a :: as => a.isSpliced && Arg.areSpliced as

end

namespace Arg

theorem areSpliced_iff {as : List Arg} : areSpliced as = true ↔ ∀ a ∈ as, a.isSpliced = true := by
  induction as with
  | nil => simp [areSpliced]
  | cons a as ih => simp [areSpliced, ih]

theorem isSpliced_leaves {a x : Arg} (h : a.isSpliced = true) (hx : x ∈ a.leaves) :
    x.isLeaf = true ∧ x.isSpliced = true := by
  cases a with
  | tuple elems =>
    obtain ⟨hleaf, hall⟩ := Bool.and_eq_true_iff.mp h
    exact ⟨List.all_eq_true.mp hleaf x hx, areSpliced_iff.mp hall x hx⟩
  | type | value | symbol =>
    obtain rfl := List.mem_singleton.mp hx
    exact ⟨rfl, h⟩

/-- Sequences are spliced when they are made. -/
theorem isSpliced_ofList {as : List Arg} (h : ∀ a ∈ as, a.isSpliced = true) :
    (ofList as).isSpliced = true := by
  have hmem {x : Arg} (hx : x ∈ flatten as) : x.isLeaf = true ∧ x.isSpliced = true := by
    obtain ⟨a, ha, hx⟩ := List.mem_flatMap.mp hx
    exact isSpliced_leaves (h a ha) hx
  exact Bool.and_eq_true_iff.mpr
    ⟨List.all_eq_true.mpr fun x hx => (hmem hx).1, areSpliced_iff.mpr fun x hx => (hmem hx).2⟩

theorem isSpliced_hereditary : Hereditary (·.isSpliced = true) where
  ulong := rfl
  symbol _ := rfl
  value := .rfl
  const := .rfl
  ptr := .rfl
  array := .rfl
  staticArray := .rfl
  inst := areSpliced_iff
  elems h := areSpliced_iff.mp (Bool.and_eq_true_iff.mp h).2
  ofList := isSpliced_ofList

end Arg

namespace Semantics

variable {σ : Type} {sem : Semantics σ} {d : Decl} {i : ParamIdx} {k : ParamKind} {a : Arg}
  {args : List Arg} {receiver : Option Ty} {mode : MatchMode} {s s' : σ} {ded : Deduction}
  {l : Level} {b c : Bindings}

/-! ## Levels -/

theorem noMatch_lt_of_derives {ps : List Param} {g : Deduce.Goal} (h : Deduce.Derives ps g b l c) :
    .noMatch < l := by
  obtain rfl | rfl := h.level <;> decide

/-- Binding a parameter has no part in the level. -/
theorem level_of_map {o : Option Bindings} {m : Level} (h : o.map (m, ·) = some (l, c)) : m = l := by
  obtain ⟨_, -, h⟩ := Option.map_eq_some_iff.mp h
  exact congrArg Prod.fst h

theorem noMatch_lt_matchType {ps : List Param} {p : TypeParam}
    (h : matchType i ps p a b = some (l, c)) : .noMatch < l := by
  unfold matchType at h
  cases a with
  | type t =>
    dsimp only at h
    cases hp : p.spec with
    | none =>
      rw [hp] at h
      exact level_of_map h ▸ (by decide)
    | some pat =>
      rw [hp] at h
      obtain ⟨⟨m, b'⟩, hb', h⟩ := Option.bind_eq_some_iff.mp h
      have hd : Deduce.Derives ps (.ty t pat) b m b' := Deduce.run_eq_some_iff.mp hb'
      rw [← level_of_map h]
      split
      · decide
      · exact noMatch_lt_of_derives hd
  | value | symbol | tuple => cases h

theorem noMatch_lt_convert? {p : ValueParam} {v : Value}
    (h : sem.convert? s p a b = some (l, v)) : .noMatch < l := by
  unfold convert? at h
  cases a with
  | value t x =>
    simp only [Option.ite_none_left_eq_some, Option.some.injEq, Prod.mk.injEq] at h
    obtain ⟨-, hl, rfl, -⟩ := h
    revert hl
    generalize (if t = p.ty.subst b then Level.exact else _) = m
    cases m <;> decide
  | type | symbol | tuple => cases h

theorem exact_of_matchSymbol {ps : List Param} {p : SymbolParam}
    (h : sem.matchSymbol s i ps p a b = some (l, c)) : .exact = l := by
  unfold matchSymbol at h
  cases a with
  | symbol x =>
    dsimp only at h
    split at h
    · cases h
    · split at h
      · exact level_of_map h
      · split at h
        · cases h
        · obtain ⟨t, -, h⟩ := Option.bind_eq_some_iff.mp h
          obtain ⟨_, -, h⟩ := Option.bind_eq_some_iff.mp h
          exact level_of_map h
  | type | value | tuple => cases h

theorem exact_of_matchTuple {rest : List Arg} (h : matchTuple i rest b = some (l, c)) :
    .exact = l := by
  unfold matchTuple at h
  split at h
  · exact congrArg Prod.fst (Option.some.inj h)
  · exact level_of_map h

theorem noMatch_lt_matchArg (h : (sem.matchArg d i k a b s).1 = some (l, c)) : .noMatch < l := by
  cases k with
  | type p | this p => exact noMatch_lt_matchType h
  | value p =>
    obtain ⟨v, hv, -⟩ := matchValue_eq_some h
    exact noMatch_lt_convert? hv
  | symbol p => exact exact_of_matchSymbol h ▸ (by decide)
  | tuple =>
    have h : matchTuple i [a] b = _ := h
    exact exact_of_matchTuple h ▸ (by decide)

theorem noMatch_lt_visited {t : Turn σ} (h : sem.Visited d receiver i k t l c) : .noMatch < l := by
  cases h with
  | offered _ hm => exact noMatch_lt_matchArg hm
  | kept | empty => decide

theorem noMatch_lt_matchDecl (h : (sem.matchDecl d args receiver mode s).1 = .ok ded) :
    .noMatch < ded.level := by
  refine matchDecl_induct (M := fun l _ => .noMatch < l) h (by decide) ?_
  intro i k t l m c _ _ hv _ hl
  have hm := noMatch_lt_visited hv
  revert hl hm
  cases l <;> cases m <;> decide

/-! ## The rest of the arguments -/

/-- What is left goes to the sequence at the end. -/
theorem args_of_tuple (hd : d.Accepted) (h : (sem.matchDecl d args receiver mode s).1 = .ok ded)
    (hk : Deduce.kind? d.params i = some .tuple) {rest : List Arg}
    (hrest : d.argument? args receiver i = some (.ofList rest)) :
    ded.args[i.index]? = some (.ofList rest) := by
  obtain ⟨t, l, c, ht, hv, hc⟩ := exists_turn hk h
  rw [argument?_of_turn? hd hk ht] at hrest
  rw [← Bindings.get?_ofArgs]
  apply hc
  cases hv with
  | offered ho hm =>
    obtain ⟨rfl, rfl⟩ := ho.unique (.given hrest)
    have hm : matchTuple i [.ofList rest] t.bound = _ := hm
    obtain ⟨hnil, -⟩ | hu := matchTuple_eq_some hm
    · cases hnil
    · rw [ofList_ofList] at hu
      exact Bindings.get?_unify hu
  | kept hn =>
    rw [hn] at hrest
    cases hrest
  | empty _ hnil =>
    rw [hnil] at hrest
    cases hrest

end Semantics

/-- How many parameters take an argument each: all but `this` and the sequence. -/
def Decl.fixed (d : Decl) : Nat := d.params.countP fun p => !p.isThis && !p.isTuple

theorem Decl.countP_fixed {ps : List Param} (h : ∀ p ∈ ps, p.isTuple = false) :
    (ps.countP fun p => !p.isThis && !p.isTuple) = ps.countP fun p => !p.isThis :=
  List.countP_congr fun p hp => by simp [h p hp]

/-- The sequence comes after all of them. -/
theorem Decl.Accepted.fixed_eq {d : Decl} (H : d.Accepted) {i : Nat} {p : Param}
    (hi : d.params[i]? = some p) (hp : p.isTuple = true) :
    d.fixed = (d.params.take i).countP fun q => !q.isThis := by
  have hlast := H.tuple_last hi hp
  obtain ⟨hlt, hget⟩ := List.getElem?_eq_some_iff.mp hi
  have hparams : d.params = d.params.take i ++ [p] := by
    rw [← hget, ← List.take_succ_eq_append_getElem hlt, hlast, List.take_length]
  rw [Decl.fixed, hparams, List.countP_append, ← hparams, Decl.countP_fixed]
  · simp [hp]
  · intro q hq
    obtain ⟨j, hj⟩ := List.mem_iff_getElem?.mp hq
    rw [List.getElem?_take] at hj
    split at hj
    · refine Bool.eq_false_iff.mpr fun htuple => ?_
      have := H.tuple_last hj htuple
      omega
    · cases hj

namespace Semantics

variable {σ : Type} {sem : Semantics σ} {d : Decl} {args : List Arg} {receiver : Option Ty}
  {mode : MatchMode} {s s' : σ} {ded : Deduction}

theorem trailing_of_matchDecl (hd : d.Accepted) (hargs : ∀ a ∈ args, a.isLeaf = true)
    (h : (sem.matchDecl d args receiver mode s).1 = .ok ded) (hrest : args.drop d.fixed ≠ []) :
    ∃ p, d.params.getLast? = some p ∧ p.isTuple = true ∧
      ded.args.getLast? = some (.tuple (args.drop d.fixed)) := by
  by_cases htuple : ∀ p ∈ d.params, p.isTuple = false
  · have hnil := visitParams_rest (matchDecl_eq_ok h) htuple
    rw [← Decl.countP_fixed htuple] at hnil
    exact absurd hnil.symm hrest
  · push Not at htuple
    obtain ⟨p, hp, htuple⟩ := htuple
    rw [ne_eq, Bool.not_eq_false] at htuple
    obtain ⟨i, hi⟩ := List.mem_iff_getElem?.mp hp
    have hlast := hd.tuple_last hi htuple
    have hkind : p.kind = .tuple := by
      rw [Param.isTuple] at htuple
      cases hk : p.kind with
      | tuple => rfl
      | _ => cases hk ▸ htuple
    have hk : Deduce.kind? d.params ⟨i⟩ = some .tuple := by
      rw [Deduce.kind?, hi, Option.map_some, hkind]
    have hgiven : d.argument? args receiver ⟨i⟩ = some (.ofList (args.drop d.fixed)) := by
      rw [Decl.argument?, hk, hd.fixed_eq hi htuple]
      rw [hd.fixed_eq hi htuple] at hrest
      exact if_neg (by simpa using hrest)
    have hlen : ded.args.length = d.params.length := (matchDecl_takes h).length_eq.symm
    refine ⟨p, ?_, htuple, ?_⟩
    · rw [List.getLast?_eq_getElem?, ← hlast, Nat.add_sub_cancel, hi]
    · have hleaf : ∀ a ∈ args.drop d.fixed, a.isLeaf = true :=
        fun a ha => hargs a (List.mem_of_mem_drop ha)
      rw [List.getLast?_eq_getElem?, hlen, ← hlast, Nat.add_sub_cancel,
        args_of_tuple hd h hk hgiven, Arg.ofList, Arg.flatten_of_leaves hleaf]

/-! ## The constraint -/

/-- Declares each parameter with its argument. -/
theorem declareParams_ofArgs (sem : Semantics σ) (scope : ScopeId) (ps : List Param)
    (as : List Arg) : sem.declareParams scope ps (.ofArgs as) =
      (ps.zip as).forM fun (p, a) => sem.declareSymbol scope p.name a := by
  induction ps generalizing as with
  | nil => rfl
  | cons p ps ih =>
    cases as with
    | nil => rfl
    | cons a as =>
      change (do sem.declareSymbol scope p.name a; sem.declareParams scope ps (.ofArgs as)) = _
      rw [ih]
      rfl

/-- Evaluates an expression where each parameter of the declaration has its argument. -/
def evaluateWith (sem : Semantics σ) (d : Decl) (args : List Arg) (e : ExprId) :
    StateM σ (Except Failure Value) := do
  let scope ← sem.openScope d.scope
  (d.params.zip args).forM fun (p, a) => sem.declareSymbol scope p.name a
  sem.evaluate e scope

theorem evaluateWith_eq (sem : Semantics σ) (d : Decl) (args : List Arg) (e : ExprId) :
    sem.evaluateWith d args e = sem.paramScope d (.ofArgs args) >>= sem.evaluate e := by
  simp only [evaluateWith, paramScope, declareParams_ofArgs, bind_assoc, pure_bind]

theorem const_of_toBool? {v : Value} {x : Bool} (h : v.toBool? = some x) : v.const = .bool x := by
  unfold Value.toBool? at h
  split at h
  · next hconst => rw [hconst, Option.some.inj h]
  · cases h

theorem evaluateWith_of_checkConstraint {e : ExprId} {as : List Arg}
    (h : sem.checkConstraint d e as s = (.ok (), s')) :
    ∃ v, sem.evaluateWith d as e s = (.ok v, s') ∧ v.const = .bool true := by
  rw [evaluateWith_eq, bind_run]
  rw [checkConstraint, bind_run, bind_run] at h
  rcases hv : sem.evaluate e (sem.paramScope d (.ofArgs as) s).1
    (sem.paramScope d (.ofArgs as) s).2 with ⟨f | v, s''⟩ <;> rw [hv] at h
  · cases h
  · refine ⟨v, ?_⟩
    dsimp only at h
    rcases htrue : v.toBool? with _ | _ | _ <;> rw [htrue] at h <;> cases h
    exact ⟨rfl, const_of_toBool? htrue⟩

/-- The constraint is looked at when every parameter is bound. -/
theorem checkConstraint_of_matchDecl {e : ExprId} (he : d.constraint = some e)
    (h : sem.matchDecl d args receiver .instantiate s = (.ok ded, s')) :
    sem.checkConstraint d e ded.args
      (sem.visitParams d receiver 0 d.params args .exact (.free d.params.length) s).2 =
        (.ok (), s') := by
  have hv := matchDecl_eq_ok (congrArg Prod.fst h)
  rw [matchDecl, bind_run] at h
  rcases hvis : sem.visitParams d receiver 0 d.params args .exact (.free d.params.length) s with
    ⟨_ | ⟨l, b, rest⟩, s₁⟩ <;> rw [hvis] at hv h <;> cases hv
  dsimp only at h ⊢
  simp only [List.isEmpty_nil, Bool.not_true, Bool.false_eq_true, if_false, complete_ofArgs, he] at h
  rw [bind_run] at h
  rcases hc : sem.checkConstraint d e ded.args s₁ with ⟨_ | _, s₂⟩ <;> rw [hc] at h <;> cases h
  rfl

/-! ## Deductions -/

/-- What a match of `args` against the declaration gives. The front end is in the state `s` before the
match, and in the state `s'` after it. -/
structure Deduces (sem : Semantics σ) (d : Decl) (args : List Arg) (receiver : Option Ty)
    (mode : MatchMode) (ded : Deduction) (s s' : σ) : Prop where
  level : .noMatch < ded.level
  length : ded.args.length = d.params.length
  /-- A type for a type or `this` parameter, and so on. -/
  kinds : List.Forall₂ (fun p a => p.kind.takes a = true) d.params ded.args
  /-- No sequence stands inside another, as none does in what the match takes in. -/
  spliced : sem.Intake (·.isSpliced = true) d args receiver s → ∀ a ∈ ded.args, a.isSpliced = true
  /-- What is left of the arguments is the sequence at the end. -/
  trailing : args.drop d.fixed ≠ [] → ∃ p, d.params.getLast? = some p ∧ p.isTuple = true ∧
    ded.args.getLast? = some (.tuple (args.drop d.fixed))
  /-- The constraint is true where each parameter has its argument. It is evaluated last. -/
  constraint {e : ExprId} : mode = .instantiate → d.constraint = some e →
    ∃ v, sem.evaluateWith d ded.args e
      (sem.visitParams d receiver 0 d.params args .exact (.free d.params.length) s).2 = (.ok v, s') ∧
        v.const = .bool true

/-- **Deductions are well formed.** -/
theorem deduces (hd : d.Accepted) (hargs : ∀ a ∈ args, a.isLeaf = true)
    (h : sem.matchDecl d args receiver mode s = (.ok ded, s')) :
    sem.Deduces d args receiver mode ded s s' := by
  have hok : (sem.matchDecl d args receiver mode s).1 = .ok ded := congrArg Prod.fst h
  constructor
  case level => exact noMatch_lt_matchDecl hok
  case length => exact (matchDecl_takes hok).length_eq.symm
  case kinds => exact matchDecl_takes hok
  case spliced => exact deduced_inherits Arg.isSpliced_hereditary hd hok
  case trailing => exact trailing_of_matchDecl hd hargs hok
  case constraint =>
    rintro e rfl he
    exact evaluateWith_of_checkConstraint (checkConstraint_of_matchDecl he h)

end Semantics

/-- `D(this S, T : U[], U, V...)` with a constraint. -/
def gathering : Decl where
  name := "D"
  params := [
    { name := "S", kind := .this {} },
    { name := "T", kind := .type { spec := some (.array (.param ⟨2⟩)) } },
    { name := "U", dependent := true, kind := .type {} },
    { name := "V", kind := .tuple }]
  constraint := some ⟨0⟩

theorem gathering_accepted : gathering.Accepted :=
  ⟨{ gathering with params := gathering.params.map fun p => { p with dependent := false } }, rfl⟩

/-- A front end to which everything is true that is evaluated where four names are declared. -/
def countingUp : Semantics Nat where
  evaluate _ _ := fun n => (.ok (.bool (n = 4)), n)
  openScope c := fun _ => (c, 0)
  declareSymbol _ _ _ := fun n => ((), n + 1)
  symbolName _ _ := ""

/-- The arguments `int[]`, `int`, `3` and the symbol 5. -/
def gathered : List Arg := [.type (.array .int), .type .int, .value .int (.int 3), .symbol ⟨5⟩]

/-- In `c.D!(int[], int, 3, x)` the sequence takes what is left. -/
theorem deduces_gathering : gathering.Accepted ∧ (∀ a ∈ gathered, a.isLeaf = true) ∧
    countingUp.matchDecl gathering gathered (some .char) .instantiate 0 =
      (.ok ⟨.exact, [.type .char, .type (.array .int), .type .int,
        .tuple [.value .int (.int 3), .symbol ⟨5⟩]]⟩, 4) ∧
    countingUp.Deduces gathering gathered (some .char) .instantiate
      ⟨.exact, [.type .char, .type (.array .int), .type .int,
        .tuple [.value .int (.int 3), .symbol ⟨5⟩]]⟩ 0 4 := by
  have hleaf : ∀ a ∈ gathered, a.isLeaf = true := by decide
  have h : countingUp.matchDecl gathering gathered (some .char) .instantiate 0 =
      (.ok ⟨.exact, [.type .char, .type (.array .int), .type .int,
        .tuple [.value .int (.int 3), .symbol ⟨5⟩]]⟩, 4) := rfl
  exact ⟨gathering_accepted, hleaf, h, Semantics.deduces gathering_accepted hleaf h⟩

end Templates
