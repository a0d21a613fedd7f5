import Templates.Proofs.Deduction.Later
import Templates.Proofs.Matching

/-!
# The turn of a parameter

In its turn a parameter takes the argument that is given to it. Without one it stays what an earlier
pattern has bound it to, and only if it is free its default is looked at (`Semantics.Visited`).
`Semantics.exists_turn` finds the turn of each parameter of a match.
-/

namespace Templates

/-! ## What is given -/

/-- What is given to a parameter in its turn: the receiver to `this`, the rest to a sequence, the
next argument to any other. -/
def ParamKind.argument? (receiver : Option Ty) (rest : List Arg) : ParamKind → Option Arg
  | .this _ => receiver.map .type
  | .type _ | .value _ | .symbol _ => rest.head?
  | .tuple => if rest.isEmpty then none else some (.ofList rest)

/-- What is given to parameter `i`. The parameters before it, `this` apart, take one argument
each. -/
def Decl.argument? (d : Decl) (args : List Arg) (receiver : Option Ty) (i : ParamIdx) : Option Arg :=
  (Deduce.kind? d.params i).bind fun k =>
    k.argument? receiver (args.drop ((d.params.take i.index).countP fun q => !q.isThis))

theorem ParamKind.argument?_of_form {k k' : ParamKind} (h : k.form = k'.form)
    (receiver : Option Ty) (rest : List Arg) : k.argument? receiver rest = k'.argument? receiver rest := by
  cases k <;> cases k' <;> first | rfl | cases h

namespace Semantics

variable {σ : Type} {sem : Semantics σ} {d : Decl} {i : ParamIdx} {k : ParamKind}
  {args rest : List Arg} {receiver : Option Ty} {mode : MatchMode} {s : σ} {b : Bindings}
  {ded : Deduction} {a : Arg}

/-! ## Values that match -/

theorem convert?_eq_some {p : ValueParam} {l : Level} {v : Value}
    (h : sem.convert? s p a b = some (l, v)) : ∃ t, a = .value t v.const ∧
      v.ty = p.ty.subst b ∧ (p.ty.subst b).hasParams = false := by
  unfold convert? at h
  cases a with
  | value t c =>
    simp only [Option.ite_none_left_eq_some, Option.some.injEq, Prod.mk.injEq] at h
    obtain ⟨hclosed, -, -, rfl⟩ := h
    exact ⟨t, rfl, rfl, Bool.eq_false_iff.mpr hclosed⟩
  | type | symbol | tuple => cases h

/-- A value that matches has the constant that is asked for. -/
theorem evaluate_of_matchValue {p : ValueParam} {x : ExprId} {l : Level} {c : Bindings}
    (hp : p.spec = some x) (h : (sem.matchValue i d p a b s).1 = some (l, c)) :
    ∃ t v, ((sem.paramScope d b >>= sem.evaluate x) s).1 = .ok v ∧ a = .value t v.const := by
  rw [matchValue, bind_run, get_run] at h
  dsimp only at h
  rcases hv : sem.convert? s p a b with _ | ⟨m, v⟩ <;> rw [hv] at h
  · cases h
  · rw [hp] at h
    dsimp only at h
    rw [bind_run, bind_run] at h
    obtain ⟨t, ha, -⟩ := convert?_eq_some hv
    rcases he : (sem.evaluate x (sem.paramScope d b s).1 (sem.paramScope d b s).2).1 with
      f | expected <;> rw [he] at h
    · cases h
    · dsimp only at h
      split at h
      · next hconst => exact ⟨t, expected, he, hconst ▸ ha⟩
      · cases h

/-! ## Turns -/

/-- The turn of a parameter: the arguments that are left, the bindings and the state of the front
end. -/
structure Turn (σ : Type) where
  rest : List Arg
  bound : Bindings
  state : σ

/-- The turn of parameter `i`, unless an earlier parameter does not match. -/
def turn? (sem : Semantics σ) (d : Decl) (args : List Arg) (receiver : Option Ty) (i : ParamIdx)
    (s : σ) : Option (Turn σ) :=
  match sem.visitParams d receiver 0 (d.params.take i.index) args .exact (.free d.params.length) s with
  | (.ok (_, b, rest), s) => some ⟨rest, b, s⟩
  | (.error _, _) => none

/-- The argument that is matched in the turn of a parameter, and the state of the front end then. -/
inductive Offers (sem : Semantics σ) (d : Decl) (receiver : Option Ty) (i : ParamIdx)
    (k : ParamKind) (t : Turn σ) : Arg → σ → Prop
  | given {a : Arg} : k.argument? receiver t.rest = some a → Offers sem d receiver i k t a t.state
  /-- The parameter is free. -/
  | default {a : Arg} {s : σ} : k.argument? receiver t.rest = none → t.bound.get? i = none →
    (do sem.defaultArg k (← sem.paramScope d t.bound) t.bound : StateM σ _) t.state =
      (.ok (some a), s) → Offers sem d receiver i k t a s

theorem Offers.unique {t : Turn σ} {a' : Arg} {s' : σ} (h : sem.Offers d receiver i k t a s)
    (h' : sem.Offers d receiver i k t a' s') : a = a' ∧ s = s' := by
  cases h with
  | given h =>
    cases h' with
    | given h' =>
      rw [h] at h'
      exact ⟨Option.some.inj h', rfl⟩
    | default h' =>
      rw [h] at h'
      cases h'
  | default hn _ h =>
    cases h' with
    | given h' =>
      rw [hn] at h'
      cases h'
    | default _ _ h' =>
      rw [h] at h'
      cases h'
      exact ⟨rfl, rfl⟩

/-- Nothing is offered to a parameter that stays as it is. -/
theorem Offers.free {t : Turn σ} (h : sem.Offers d receiver i k t a s)
    (hn : k.argument? receiver t.rest = none) : t.bound.get? i = none := by
  cases h with
  | given h =>
    rw [hn] at h
    cases h
  | default _ hfree _ => exact hfree

/-- The level and the bindings after the turn of a parameter. -/
inductive Visited (sem : Semantics σ) (d : Decl) (receiver : Option Ty) (i : ParamIdx)
    (k : ParamKind) (t : Turn σ) : Level → Bindings → Prop
  | offered {a : Arg} {s : σ} {l : Level} {c : Bindings} : sem.Offers d receiver i k t a s →
    (sem.matchArg d i k a t.bound s).1 = some (l, c) → Visited sem d receiver i k t l c
  /-- An earlier pattern has bound the parameter. -/
  | kept {a : Arg} : k.argument? receiver t.rest = none → t.bound.get? i = some a →
    Visited sem d receiver i k t .exact t.bound
  /-- A sequence for which nothing is left. -/
  | empty {c : Bindings} : k = .tuple → t.rest = [] → t.bound.get? i = none →
    t.bound.unify i (.ofList []) = some c → Visited sem d receiver i k t .exact c

theorem visited_of_visitMissing {t : Turn σ} {l : Level} {c : Bindings}
    (hn : k.argument? receiver t.rest = none)
    (h : (sem.visitMissing d i k t.bound t.state).1 = .ok (l, c)) :
    sem.Visited d receiver i k t l c := by
  unfold visitMissing at h
  split at h
  · next hsome =>
    cases h
    obtain ⟨a, ha⟩ := Option.isSome_iff_exists.mp hsome
    exact .kept hn ha
  · next hfree =>
    rw [Option.not_isSome_iff_eq_none] at hfree
    split at h
    · cases h
    · rw [bind_run, bind_run] at h
      rcases hd : sem.defaultArg k (sem.paramScope d t.bound t.state).1 t.bound
        (sem.paramScope d t.bound t.state).2 with ⟨_ | _ | a, s⟩ <;> rw [hd] at h
      · cases h
      · cases h
      · exact .offered (.default hn hfree hd) (visitArg_eq_ok h)

theorem ofList_ofList (as : List Arg) : Arg.ofList [.ofList as] = .ofList as := by
  simp [Arg.ofList, Arg.flatten, Arg.leaves]

theorem visited_of_visitParam {t : Turn σ} {l : Level} {c : Bindings}
    (h : ((sem.visitParam d receiver i k t.rest t.bound).1 t.state).1 = .ok (l, c)) :
    sem.Visited d receiver i k t l c := by
  cases k with
  | tuple =>
    change ((matchTuple i t.rest t.bound).map Except.ok).getD (.error (Rejection.mismatch i)) = _ at h
    rcases hm : matchTuple i t.rest t.bound with _ | r <;> rw [hm] at h <;> cases h
    unfold matchTuple at hm
    by_cases hrest : t.rest = []
    · have hn : ParamKind.tuple.argument? receiver t.rest = none := by
        rw [hrest]
        rfl
      cases hb : t.bound.get? i with
      | none =>
        rw [hrest, hb] at hm
        obtain ⟨c', hc, hm⟩ := Option.map_eq_some_iff.mp hm
        cases hm
        exact .empty rfl hrest hb hc
      | some a =>
        rw [hrest, hb] at hm
        cases hm
        exact .kept hn hb
    · have hempty : t.rest.isEmpty = false := by simpa using hrest
      rw [hempty] at hm
      refine .offered (.given (if_neg (Bool.eq_false_iff.mp hempty))) ?_
      change matchTuple i [.ofList t.rest] t.bound = _
      rw [matchTuple, ofList_ofList]
      exact hm
  | this p =>
    cases receiver with
    | some u => exact .offered (.given rfl) (visitArg_eq_ok h)
    | none => exact visited_of_visitMissing rfl h
  | type p | value p | symbol p =>
    rcases t with ⟨_ | ⟨a, rest⟩, b, s⟩
    · exact visited_of_visitMissing rfl h
    · exact .offered (.given rfl) (visitArg_eq_ok h)

/-- A parameter that is bound and given no argument. -/
theorem visitParam_kept (hn : k.argument? receiver rest = none) (hb : b.get? i = some a) (s : σ) :
    (sem.visitParam d receiver i k rest b).1 s = (.ok (.exact, b), s) ∧
      (sem.visitParam d receiver i k rest b).2 = rest := by
  have hmissing : sem.visitMissing d i k b s = (.ok (.exact, b), s) := by
    rw [visitMissing, hb]
    rfl
  cases k with
  | tuple =>
    cases rest with
    | cons => cases hn
    | nil =>
      simp only [visitParam, matchTuple, hb]
      exact ⟨rfl, trivial⟩
  | this p =>
    cases receiver with
    | some => cases hn
    | none => exact ⟨hmissing, rfl⟩
  | type p | value p | symbol p =>
    cases rest with
    | cons => cases hn
    | nil => exact ⟨hmissing, rfl⟩

/-! ## Turns of a match -/

theorem turn?_eq_some {t : Turn σ} (h : sem.turn? d args receiver i s = some t) :
    ∃ l, sem.visitParams d receiver 0 (d.params.take i.index) args .exact (.free d.params.length) s =
      (.ok (l, t.bound, t.rest), t.state) := by
  unfold turn? at h
  split at h
  · next hv =>
    cases h
    exact ⟨_, hv⟩
  · cases h

/-- The arguments that are left are known beforehand. -/
theorem argument?_of_turn? (hd : d.Accepted) (hk : Deduce.kind? d.params i = some k) {t : Turn σ}
    (ht : sem.turn? d args receiver i s = some t) :
    d.argument? args receiver i = k.argument? receiver t.rest := by
  obtain ⟨q, hq, -⟩ := Option.map_eq_some_iff.mp hk
  obtain ⟨l, hv⟩ := turn?_eq_some ht
  rw [Decl.argument?, hk, rest_of_visitParams hd hq (congrArg Prod.fst hv)]
  rfl

/-- Each parameter of a match has had its turn. -/
theorem exists_turn (hk : Deduce.kind? d.params i = some k)
    (h : (sem.matchDecl d args receiver mode s).1 = .ok ded) :
    ∃ t l c, sem.turn? d args receiver i s = some t ∧ sem.Visited d receiver i k t l c ∧
      c.Le (.ofArgs ded.args) := by
  obtain ⟨q, hq, rfl⟩ := Option.map_eq_some_iff.mp hk
  obtain ⟨m, b, rest, s', l, c, hpre, hvis, hle⟩ := exists_visitParam hq h
  refine ⟨⟨rest, b, s'⟩, l, c, ?_, visited_of_visitParam hvis, hle⟩
  rw [turn?, hpre]

/-- The visits to the parameters before `n`, and one visit more. -/
theorem visitParams_take_succ {n : Nat} {l m : Level} {c : Bindings} {s₁ s₂ : σ}
    (hn : n < d.params.length) (hpre : sem.visitParams d receiver 0 (d.params.take n) args .exact
      (.free d.params.length) s = (.ok (l, b, rest), s₁))
    (hvis : (sem.visitParam d receiver ⟨n⟩ d.params[n].kind rest b).1 s₁ = (.ok (m, c), s₂)) :
    sem.visitParams d receiver 0 (d.params.take (n + 1)) args .exact (.free d.params.length) s =
      (.ok (min l m, c, (sem.visitParam d receiver ⟨n⟩ d.params[n].kind rest b).2), s₂) := by
  rw [List.take_succ_eq_append_getElem hn, visitParams_append, hpre]
  dsimp only
  rw [visitParams_cons, List.length_take_of_le (by omega), Nat.zero_add, hvis]
  rfl

/-- What holds of the level and the bindings before the first turn of a match, and is preserved by each
turn, holds of the match. -/
theorem matchDecl_induct {M : Level → Bindings → Prop}
    (h : (sem.matchDecl d args receiver mode s).1 = .ok ded)
    (hfree : M .exact (.free d.params.length))
    (hturn : ∀ ⦃i k t l m c⦄, Deduce.kind? d.params i = some k →
      sem.turn? d args receiver i s = some t → sem.Visited d receiver i k t m c →
      c.Le (.ofArgs ded.args) → M l t.bound → M (min l m) c) :
    M ded.level (.ofArgs ded.args) := by
  suffices H : ∀ n ≤ d.params.length, ∃ l b rest s',
      sem.visitParams d receiver 0 (d.params.take n) args .exact (.free d.params.length) s =
        (.ok (l, b, rest), s') ∧ M l b ∧
      (sem.visitParams d receiver n (d.params.drop n) rest l b s').1 =
        .ok (ded.level, .ofArgs ded.args, []) by
    obtain ⟨l, b, rest, s', -, hM, hrest⟩ := H d.params.length (Nat.le_refl _)
    rw [List.drop_length] at hrest
    cases hrest
    exact hM
  intro n hn
  induction n with
  | zero => exact ⟨_, _, _, _, rfl, hfree, matchDecl_eq_ok h⟩
  | succ n ih =>
    obtain ⟨l, b, rest, s', hpre, hM, hrest⟩ := ih (by omega)
    have hdrop : d.params.drop n = d.params[n] :: d.params.drop (n + 1) :=
      List.drop_eq_getElem_cons hn
    rw [hdrop, visitParams_cons] at hrest
    have hk : Deduce.kind? d.params ⟨n⟩ = some d.params[n].kind := (kind?_of_drop hdrop).1
    have ht : sem.turn? d args receiver ⟨n⟩ s = some ⟨rest, b, s'⟩ := by rw [turn?, hpre]
    rcases hvis : (sem.visitParam d receiver ⟨n⟩ d.params[n].kind rest b).1 s' with
      ⟨_ | ⟨m, c⟩, s''⟩ <;> rw [hvis] at hrest
    · cases hrest
    · exact ⟨_, _, _, _, visitParams_take_succ hn hpre hvis, hturn hk ht
        (visited_of_visitParam (congrArg Prod.fst hvis)) (visitParams_fills rfl hrest).le hM, hrest⟩

end Semantics

end Templates
