import Templates.Proofs.Matching.Turns
import Templates.Proofs.Repeating.Steadfast

/-!
# Defaults that are spelled out

A parameter that takes its default is matched with the argument that the default gives, so it makes no
difference if that argument is given. While the default is looked for, a scope is opened and an
expression may be evaluated, which leaves the front end in another state; all that is visible is as
before (`Semantics.Unmoved`). So both matches go on side by side, one with arguments left that the
other one has yet to find (`Semantics.Contextual.visitParams_spelled`).
-/

namespace Templates

variable {σ V : Type}

theorem Follows.of_run {α : Type} {R : σ → σ → Prop} {x y : StateM σ α} {s s' s₁ : σ} {a : α}
    (h : Follows R x y) (hs : R s s') (hx : x s = (a, s₁)) : ∃ s₂, y s' = (a, s₂) ∧ R s₁ s₂ := by
  obtain ⟨ha, hR⟩ := h hs
  rw [hx] at ha hR
  exact ⟨(y s').2, Prod.ext ha rfl, hR⟩

/-- The parameters to which nothing is given, the sequence apart, with their places. Those before `n`
are left out. -/
def Decl.missingFrom (d : Decl) (args : List Arg) (receiver : Option Ty) (n : Nat) :
    List (Param × Nat) :=
  ((d.params.drop n).zipIdx n).filter fun (p, i) =>
    !p.isTuple && (d.argument? args receiver ⟨i⟩).isNone

/-- The parameters to which nothing is given, the sequence apart. -/
def Decl.missing (d : Decl) (args : List Arg) (receiver : Option Ty) : List (Param × Nat) :=
  d.missingFrom args receiver 0

/-- Questions change nothing that is visible in scopes that are open. -/
structure Semantics.Unmoved (sem : Semantics σ) (view : σ → ScopeId → Option V) : Prop where
  evaluate (e : ExprId) {s : σ} {c d : ScopeId} {v : V} : view s d = some v →
    view (sem.evaluate e c s).2 d = some v
  openWith (names : Names) {s : σ} {c d : ScopeId} {v : V} : view s d = some v →
    view (sem.openWith c names s).2 d = some v

namespace Semantics

variable {sem : Semantics σ} {view : σ → ScopeId → Option V} {d : Decl} {i : ParamIdx}
  {k : ParamKind} {a : Arg} {args rest : List Arg} {receiver : Option Ty} {b : Bindings} {s s' : σ}

/-- The parameter was free in its turn, and its default was this argument. -/
def TakesDefault (sem : Semantics σ) (d : Decl) (args : List Arg) (receiver : Option Ty) (s : σ)
    (p : Param × Nat) (a : Arg) : Prop :=
  ∃ t s', sem.turn? d args receiver ⟨p.2⟩ s = some t ∧ sem.Offers d receiver ⟨p.2⟩ p.1.kind t a s'

/-! ## One parameter -/

variable (sem d i b) in
/-- An argument that is given is taken from the front. -/
theorem visitParam_given (hk : k.isTuple = false) (h : k.argument? receiver rest = some a)
    (more : List Arg) : sem.visitParam d receiver i k (rest ++ more) b =
      (sem.visitArg d i k a b, (sem.visitParam d receiver i k rest b).2 ++ more) ∧
    (sem.visitParam d receiver i k rest b).1 = sem.visitArg d i k a b := by
  cases k with
  | tuple => cases hk
  | this p =>
    obtain ⟨t, rfl, rfl⟩ := Option.map_eq_some_iff.mp h
    exact ⟨rfl, rfl⟩
  | type p | value p | symbol p =>
    obtain ⟨rest, rfl⟩ := List.head?_eq_some_iff.mp h
    exact ⟨rfl, rfl⟩

/-- Where nothing is given, all arguments are used up. -/
theorem rest_of_missing (htuple : k.isTuple = false)
    (hthis : k.isThis = true → receiver.isSome = true) (h : k.argument? receiver rest = none) :
    k.isThis = false ∧ rest = [] := by
  cases k with
  | tuple => cases htuple
  | this p =>
    obtain ⟨t, rfl⟩ := Option.isSome_iff_exists.mp (hthis rfl)
    cases h
  | type p | value p | symbol p => exact ⟨rfl, List.head?_eq_none_iff.mp h⟩

theorem hasDefault_of_defaultArg {scope : ScopeId}
    (h : (sem.defaultArg k scope b s).1 = .ok (some a)) : k.hasDefault = true := by
  cases k with
  | type p | this p =>
    cases hp : p.default with
    | none =>
      rw [defaultArg, hp] at h
      cases h
    | some t => simp [ParamKind.hasDefault, hp]
  | value p =>
    cases hp : p.default with
    | none =>
      simp only [defaultArg, hp] at h
      cases h
    | some e => simp [ParamKind.hasDefault, hp]
  | symbol p =>
    cases hp : p.default with
    | none =>
      simp only [defaultArg, hp] at h
      cases h
    | some x => simp [ParamKind.hasDefault, hp]
  | tuple => cases h

/-- A default that is offered is matched like an argument. -/
theorem visitMissing_offered {t : Turn σ} (hn : k.argument? receiver t.rest = none)
    (h : sem.Offers d receiver i k t a s) :
    sem.visitMissing d i k t.bound t.state = sem.visitArg d i k a t.bound s := by
  cases h with
  | given h =>
    rw [hn] at h
    cases h
  | default _ hfree h =>
    rw [bind_run] at h
    rw [visitMissing, hfree, hasDefault_of_defaultArg (congrArg Prod.fst h)]
    change (sem.paramScope d t.bound >>= fun scope => sem.defaultArg k scope t.bound >>= _) _ = _
    rw [bind_run, bind_run, h]

namespace Unmoved

variable (H : sem.Unmoved view)
include H

theorem paramScope {c : ScopeId} {v : V} (h : view s c = some v) :
    view (sem.paramScope d b s).2 c = some v := by
  rw [paramScope_eq]
  exact H.openWith _ h

theorem defaultArg {scope c : ScopeId} {v : V} (h : view s c = some v) :
    view (sem.defaultArg k scope b s).2 c = some v := by
  cases k with
  | type | this | symbol | tuple => exact h
  | value p =>
    obtain ⟨_, _, _ | e⟩ := p
    · exact h
    · exact H.evaluate e h

theorem offers {t : Turn σ} (h : sem.Offers d receiver i k t a s) {c : ScopeId} {v : V}
    (hv : view t.state c = some v) : view s c = some v := by
  cases h with
  | given => exact hv
  | default _ _ h =>
    obtain rfl := congrArg Prod.snd h
    exact H.defaultArg (H.paramScope hv)

end Unmoved

/-! ## All parameters -/

/-- What comes after the visits, if no argument is left. -/
def conclude (sem : Semantics σ) (d : Decl) (mode : MatchMode) (l : Level) (b : Bindings) :
    StateM σ (Except Rejection Deduction) :=
  match complete 0 b with
  | .error why => pure (.error why)
  | .ok deduced =>
    match mode, d.constraint with
    | .instantiate, some e => do
      match ← sem.checkConstraint d e deduced with
      | .error why => pure (.error why)
      | .ok () => pure (.ok ⟨l, deduced⟩)
    | _, _ => pure (.ok ⟨l, deduced⟩)

theorem matchDecl_of_visits {mode : MatchMode} {l : Level} {s₁ : σ}
    (h : sem.visitParams d receiver 0 d.params args .exact (.free d.params.length) s =
      (.ok (l, b, []), s₁)) :
    sem.matchDecl d args receiver mode s = sem.conclude d mode l b s₁ := by
  rw [matchDecl, bind_run, h]
  rfl

section

variable {n : Nat} {p : Param} {ps : List Param}

theorem missingFrom_given (hn : d.params.drop n = p :: ps)
    (h : d.argument? args receiver ⟨n⟩ = some a) :
    d.missingFrom args receiver n = d.missingFrom args receiver (n + 1) := by
  rw [Decl.missingFrom, hn, List.zipIdx_cons, List.filter_cons_of_neg (by simp [h]),
    ← (kind?_of_drop hn).2]
  rfl

theorem missingFrom_missing (hn : d.params.drop n = p :: ps) (hp : p.isTuple = false)
    (h : d.argument? args receiver ⟨n⟩ = none) : d.missingFrom args receiver n =
      (p, n) :: d.missingFrom args receiver (n + 1) := by
  rw [Decl.missingFrom, hn, List.zipIdx_cons, List.filter_cons_of_pos (by simp [h, hp]),
    ← (kind?_of_drop hn).2]
  rfl

variable (args receiver) in
theorem missingFrom_tuple (hn : d.params.drop n = [p]) (hp : p.isTuple = true) :
    d.missingFrom args receiver n = [] ∧ d.missingFrom args receiver (n + 1) = [] := by
  constructor
  · rw [Decl.missingFrom, hn]
    simp [hp]
  · rw [Decl.missingFrom, (kind?_of_drop hn).2]
    rfl

end

/-- In both matches it is the turn of the parameters from `n` on, and the second one has the arguments
that are left in the first one and the defaults of the parameters that are missing. -/
structure Beside (sem : Semantics σ) (view : σ → ScopeId → Option V) (d : Decl) (args : List Arg)
    (receiver : Option Ty) (s : σ) (n : Nat) (t t' : Turn σ) (more : List Arg) : Prop where
  turn : sem.turn? d args receiver ⟨n⟩ s = some t
  bound : t'.bound = t.bound
  rest : t'.rest = t.rest ++ more
  shown : Shown view (· = d.scope) t.state t'.state
  defaults : List.Forall₂ (sem.TakesDefault d args receiver s) (d.missingFrom args receiver n) more

namespace Contextual

variable (hsem : sem.Contextual view) (H : sem.Unmoved view) (hd : d.Accepted)
  (hthis : ∀ p ∈ d.params, p.isThis = true → receiver.isSome = true)
include hsem H hd hthis

/-- The turn of a parameter comes to the same in both matches. -/
theorem visitParam_spelled {n : Nat} {p : Param} {ps : List Param} {t t' : Turn σ}
    {more : List Arg} {l : Level} {c : Bindings} {s₁ : σ} (hn : d.params.drop n = p :: ps)
    (hb : sem.Beside view d args receiver s n t t' more)
    (hvis : (sem.visitParam d receiver ⟨n⟩ p.kind t.rest t.bound).1 t.state = (.ok (l, c), s₁)) :
    ∃ s₂ more', (sem.visitParam d receiver ⟨n⟩ p.kind t'.rest t'.bound).1 t'.state =
        (.ok (l, c), s₂) ∧
      (sem.visitParam d receiver ⟨n⟩ p.kind t'.rest t'.bound).2 =
        (sem.visitParam d receiver ⟨n⟩ p.kind t.rest t.bound).2 ++ more' ∧
      Shown view (· = d.scope) s₁ s₂ ∧
      List.Forall₂ (sem.TakesDefault d args receiver s) (d.missingFrom args receiver (n + 1))
        more' := by
  obtain ⟨hk, hps⟩ := kind?_of_drop hn
  have hgiven := argument?_of_turn? hd hk hb.turn
  have hdefaults := hb.defaults
  rw [hb.rest, hb.bound]
  by_cases htuple : p.isTuple = true
  · -- The sequence comes last, so nothing is missing from here on.
    have hlast : n + 1 = d.params.length := hd.tuple_last (by rw [← List.head?_drop, hn]; rfl) htuple
    obtain rfl : ps = [] := by rw [← hps, hlast, List.drop_length]
    obtain ⟨hnone, hnone'⟩ := missingFrom_tuple args receiver hn htuple
    rw [hnone] at hdefaults
    cases hdefaults
    rw [List.append_nil, hnone']
    obtain ⟨s₂, hrun, hs₂⟩ :=
      (hsem.visitParam (K := (· = d.scope)) receiver t.rest rfl).of_run hb.shown hvis
    exact ⟨s₂, [], hrun, (List.append_nil _).symm, hs₂, .nil⟩
  rw [Bool.not_eq_true] at htuple
  cases ha : p.kind.argument? receiver t.rest with
  | some a =>
    rw [missingFrom_given hn (hgiven.trans ha)] at hdefaults
    obtain ⟨hmore, hsame⟩ := visitParam_given sem d ⟨n⟩ t.bound htuple ha more
    rw [hsame] at hvis
    obtain ⟨s₂, hrun, hs₂⟩ := (hsem.visitArg (K := (· = d.scope)) rfl).of_run hb.shown hvis
    rw [hmore]
    exact ⟨s₂, more, hrun, rfl, hs₂, hdefaults⟩
  | none =>
    rw [missingFrom_missing hn htuple (hgiven.trans ha)] at hdefaults
    obtain ⟨a, more, ⟨t₁, s₀, ht₁, hoffers⟩, hlater, rfl⟩ := List.forall₂_cons_left_iff.mp hdefaults
    obtain rfl := Option.some.inj (hb.turn.symm.trans ht₁)
    have hp : p ∈ d.params := List.mem_of_mem_drop (hn ▸ List.mem_cons_self)
    obtain ⟨hnotThis, hrest⟩ := rest_of_missing htuple (hthis p hp) ha
    rw [hrest] at hvis ⊢
    rw [visitParam_nil hnotThis htuple] at hvis ⊢
    rw [List.nil_append, visitParam_cons hnotThis htuple]
    have hvis : sem.visitMissing d ⟨n⟩ p.kind t.bound t.state = _ := hvis
    rw [visitMissing_offered ha hoffers] at hvis
    have hs₀ : Shown view (· = d.scope) s₀ t'.state := by
      rintro _ rfl
      obtain ⟨v, hv, hv'⟩ := hb.shown _ rfl
      exact ⟨v, H.offers hoffers hv, hv'⟩
    obtain ⟨s₂, hrun, hs₂⟩ := (hsem.visitArg (K := (· = d.scope)) rfl).of_run hs₀ hvis
    exact ⟨s₂, more, hrun, rfl, hs₂, hlater⟩

/-- Both matches go on side by side. -/
theorem visitParams_spelled {mode : MatchMode} {ded : Deduction} {more : List Arg}
    (h : (sem.matchDecl d args receiver mode s).1 = .ok ded)
    (hs : SameView view s s' d.scope d.scope)
    (hmore : List.Forall₂ (sem.TakesDefault d args receiver s) (d.missing args receiver) more) :
    ∀ n ≤ d.params.length, ∃ l t t' rest,
      sem.visitParams d receiver 0 (d.params.take n) args .exact (.free d.params.length) s =
        (.ok (l, t.bound, t.rest), t.state) ∧
      sem.visitParams d receiver 0 (d.params.take n) (args ++ more) .exact
        (.free d.params.length) s' = (.ok (l, t'.bound, t'.rest), t'.state) ∧
      sem.Beside view d args receiver s n t t' rest ∧
      (sem.visitParams d receiver n (d.params.drop n) t.rest l t.bound t.state).1 =
        .ok (ded.level, .ofArgs ded.args, []) := by
  intro n hle
  induction n with
  | zero =>
    refine ⟨.exact, ⟨args, _, s⟩, ⟨args ++ more, _, s'⟩, more, rfl, rfl, ?_, matchDecl_eq_ok h⟩
    refine ⟨rfl, rfl, rfl, ?_, hmore⟩
    rintro _ rfl
    exact hs
  | succ n ih =>
    obtain ⟨l, t, t', rest, hpre, hpre', hb, hrest⟩ := ih (by omega)
    have hdrop : d.params.drop n = d.params[n] :: d.params.drop (n + 1) :=
      List.drop_eq_getElem_cons hle
    rw [hdrop, visitParams_cons] at hrest
    rcases hvis : (sem.visitParam d receiver ⟨n⟩ d.params[n].kind t.rest t.bound).1 t.state with
      ⟨_ | ⟨m, c⟩, s₁⟩ <;> rw [hvis] at hrest
    · cases hrest
    obtain ⟨s₂, more', hvis', hleft, hs₂, hmore'⟩ :=
      hsem.visitParam_spelled H hd hthis hdrop hb hvis
    have hnext := visitParams_take_succ hle hpre hvis
    refine ⟨min l m, ⟨_, c, s₁⟩, ⟨_, c, s₂⟩, more', hnext, visitParams_take_succ hle hpre' hvis',
      ⟨?_, rfl, hleft, hs₂, hmore'⟩, hrest⟩
    rw [turn?, hnext]

omit hthis hd H in
theorem conclude {mode : MatchMode} {l : Level} :
    Stable (Shown view (· = d.scope)) (sem.conclude d mode l b) := by
  unfold Semantics.conclude
  split
  · exact .pure rfl
  split
  · refine (hsem.checkConstraint (K := (· = d.scope)) rfl).bind fun result => ?_
    cases result <;> exact .pure rfl
  · exact .pure rfl

/-- **A match with the defaults spelled out** has the same level and the same arguments. -/
theorem matchDecl_spelled {mode : MatchMode} {ded : Deduction} {more : List Arg}
    (h : (sem.matchDecl d args receiver mode s).1 = .ok ded)
    (hs : SameView view s s' d.scope d.scope)
    (hmore : List.Forall₂ (sem.TakesDefault d args receiver s) (d.missing args receiver) more) :
    (sem.matchDecl d (args ++ more) receiver mode s').1 = .ok ded := by
  obtain ⟨l, t, t', rest, hpre, hpre', hb, hrest⟩ :=
    hsem.visitParams_spelled H hd hthis h hs hmore d.params.length (Nat.le_refl _)
  rw [List.take_length] at hpre hpre'
  rw [List.drop_length] at hrest
  have hdefaults := hb.defaults
  rw [Decl.missingFrom, List.drop_length] at hdefaults
  cases hdefaults
  have hnone : t.rest = [] := (Prod.mk.inj (Prod.mk.inj (Except.ok.inj hrest)).2).2
  rw [hb.rest, hb.bound, hnone] at hpre'
  rw [hnone] at hpre
  rw [matchDecl_of_visits hpre] at h
  rw [matchDecl_of_visits hpre', ← h]
  exact (hsem.conclude hb.shown).1

end Contextual

end Semantics

end Templates
