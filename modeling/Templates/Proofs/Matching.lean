import Templates.Proofs.Engine.Quiet
import Templates.Proofs.Matching.Visits

/-!
# What matching makes of the arguments

A type that is given to a parameter is the argument of the match, unless the parameter has a pattern.
A pattern that mentions the parameter says what the argument is, up to `const`. If it does not
mention the parameter, an earlier parameter may have bound it already, and then matching keeps that
binding and drops the type that was given (`Semantics.respects_iff`).
-/

namespace Templates

/-! ## Parameter lists -/

/-- A sequence parameter is the last one. -/
theorem Decl.Accepted.tuple_last {d : Decl} (H : d.Accepted) {i : Nat} {p : Param}
    (hi : d.params[i]? = some p) (hp : p.isTuple = true) : i + 1 = d.params.length := by
  obtain ⟨d₀, h⟩ := H
  unfold Decl.finalize? at h
  split at h
  · cases h
  · next hnone =>
    cases h
    rw [List.getElem?_map, List.getElem?_zipIdx] at hi
    obtain ⟨⟨q, k⟩, hq, rfl⟩ := Option.map_eq_some_iff.mp hi
    obtain ⟨q', hq', h⟩ := Option.map_eq_some_iff.mp hq
    cases h
    have hshape := List.findSome?_eq_none_iff.mp (Option.or_eq_none_iff.mp hnone).1 (q, 0 + i)
      (List.mem_zipIdx_iff_getElem?.mpr (by simpa using hq'))
    unfold Decl.shapeError? at hshape
    dsimp only at hshape
    split at hshape
    · cases hshape
    · next hlast =>
      rw [Nat.zero_add, not_and, not_not] at hlast
      simpa using hlast hp

/-- The type `t` is given to parameter `i`, which is a type or `this` parameter. -/
inductive Decl.Gives (d : Decl) (args : List Arg) (receiver : Option Ty) (i : ParamIdx) :
    TypeParam → Ty → Prop
  | receiver {p t} : Deduce.kind? d.params i = some (.this p) → receiver = some t →
    d.Gives args receiver i p t
  /-- The parameters before it but `this` take an argument each. -/
  | argument {p t} : Deduce.kind? d.params i = some (.type p) →
    args[(d.params.take i.index).countP fun q => !q.isThis]? = some (.type t) →
    d.Gives args receiver i p t

namespace Semantics

variable {σ : Type} {sem : Semantics σ} {d : Decl} {i : ParamIdx} {args : List Arg}
  {receiver : Option Ty} {mode : MatchMode} {s : σ} {ded : Deduction}

theorem complete_eq_ok {n : Nat} {b : Bindings} {as : List Arg} (h : complete n b = .ok as) :
    b = .ofArgs as := by
  induction b generalizing n as with
  | nil =>
    cases h
    rfl
  | cons x b ih =>
    cases x with
    | none => cases h
    | some a =>
      unfold complete at h
      cases hb : complete (n + 1) b with
      | error =>
        rw [hb] at h
        cases h
      | ok as' =>
        rw [hb] at h
        cases h
        rw [ih hb]
        rfl

theorem complete_ofArgs (n : Nat) (as : List Arg) : complete n (.ofArgs as) = .ok as := by
  induction as generalizing n with
  | nil => rfl
  | cons a as ih =>
    change (complete (n + 1) (.ofArgs as)).map (a :: ·) = _
    rw [ih]
    rfl

theorem matchDecl_eq_ok (h : (sem.matchDecl d args receiver mode s).1 = .ok ded) :
    (sem.visitParams d receiver 0 d.params args .exact (.free d.params.length) s).1 =
      .ok (ded.level, .ofArgs ded.args, []) := by
  rw [matchDecl, bind_run] at h
  rcases hv : (sem.visitParams d receiver 0 d.params args .exact (.free d.params.length) s).1 with
    _ | ⟨l, b, rest⟩ <;> rw [hv] at h
  · cases h
  · rcases rest with _ | ⟨a, rest⟩
    · rcases hc : complete 0 b with _ | deduced <;> simp only [hc] at h
      · cases h
      · obtain rfl := complete_eq_ok hc
        have hok : (.ok ⟨l, deduced⟩ : Except Rejection Deduction) = .ok ded := by
          cases mode with
          | rank => exact h
          | instantiate =>
            rcases hk : d.constraint with _ | e <;> rw [hk] at h
            · exact h
            · change ((sem.checkConstraint d e deduced >>= _) _).1 = _ at h
              rw [bind_run] at h
              rcases hk : (sem.checkConstraint d e deduced _).1 with _ | _ <;> rw [hk] at h
              · cases h
              · exact h
        cases hok
        rfl
    · cases h

/-- The parameters up to `i`, and those after it. -/
theorem params_split {q : Param} (hq : d.params[i.index]? = some q) :
    d.params = d.params.take i.index ++ q :: d.params.drop (i.index + 1) := by
  obtain ⟨hlt, hget⟩ := List.getElem?_eq_some_iff.mp hq
  rw [← hget, ← List.drop_eq_getElem_cons hlt, List.take_append_drop]

/-- In a match parameter `i` is visited after those before it. -/
theorem exists_visitParam {q : Param} (hq : d.params[i.index]? = some q)
    (h : (sem.matchDecl d args receiver mode s).1 = .ok ded) :
    ∃ m b rest s' l c, sem.visitParams d receiver 0 (d.params.take i.index) args .exact
        (.free d.params.length) s = (.ok (m, b, rest), s') ∧
      ((sem.visitParam d receiver i q.kind rest b).1 s').1 = .ok (l, c) ∧
      c.Le (.ofArgs ded.args) := by
  obtain ⟨hlt, -⟩ := List.getElem?_eq_some_iff.mp hq
  have hv := matchDecl_eq_ok h
  rw [params_split hq, visitParams_append, ← params_split hq] at hv
  rcases hpre : sem.visitParams d receiver 0 (d.params.take i.index) args .exact
    (.free d.params.length) s with ⟨_ | ⟨m, b, rest⟩, s'⟩ <;> rw [hpre] at hv
  · cases hv
  · dsimp only at hv
    rw [visitParams_cons, List.length_take_of_le hlt.le, Nat.zero_add] at hv
    rcases hvis : (sem.visitParam d receiver i q.kind rest b).1 s' with ⟨_ | ⟨l, c⟩, s''⟩ <;>
      rw [hvis] at hv
    · cases hv
    · exact ⟨m, b, rest, s', l, c, rfl, congrArg Prod.fst hvis, (visitParams_fills rfl hv).le⟩

/-- The parameters before `i` take one argument each, `this` apart. -/
theorem rest_of_visitParams (hd : d.Accepted) {q : Param} (hq : d.params[i.index]? = some q)
    {m : Level} {b : Bindings} {rest : List Arg}
    (h : (sem.visitParams d receiver 0 (d.params.take i.index) args .exact
      (.free d.params.length) s).1 = .ok (m, b, rest)) :
    rest = args.drop ((d.params.take i.index).countP fun q => !q.isThis) := by
  obtain ⟨hlt, -⟩ := List.getElem?_eq_some_iff.mp hq
  refine visitParams_rest h fun p hp => ?_
  obtain ⟨j, hj⟩ := List.mem_iff_getElem?.mp hp
  rw [List.getElem?_take] at hj
  split at hj
  · rw [← Bool.not_eq_true]
    intro htuple
    have := hd.tuple_last hj htuple
    omega
  · cases hj

/-- What parameter `i` is bound to when its turn comes. -/
def boundBefore (sem : Semantics σ) (d : Decl) (args : List Arg) (receiver : Option Ty)
    (i : ParamIdx) (s : σ) : Option Arg :=
  match (sem.visitParams d receiver 0 (d.params.take i.index) args .exact
    (.free d.params.length) s).1 with
  | .ok (_, b, _) => b.get? i
  | .error _ => none

/-- A given type has been matched in the visit to its parameter. -/
theorem exists_visit (hd : d.Accepted) (h : (sem.matchDecl d args receiver mode s).1 = .ok ded)
    {p : TypeParam} {t : Ty} (hg : d.Gives args receiver i p t) :
    ∃ b c l, sem.boundBefore d args receiver i s = b.get? i ∧
      matchType i d.params p (.type t) b = some (l, c) ∧ c.Le (.ofArgs ded.args) := by
  have hkind : ∃ q, d.params[i.index]? = some q ∧ (q.kind = .this p ∧ receiver = some t ∨
      q.kind = .type p ∧
        args[(d.params.take i.index).countP fun q => !q.isThis]? = some (.type t)) := by
    cases hg with
    | receiver hk hr =>
      obtain ⟨q, hq, hk⟩ := Option.map_eq_some_iff.mp hk
      exact ⟨q, hq, .inl ⟨hk, hr⟩⟩
    | argument hk ha =>
      obtain ⟨q, hq, hk⟩ := Option.map_eq_some_iff.mp hk
      exact ⟨q, hq, .inr ⟨hk, ha⟩⟩
  obtain ⟨q, hq, hkind⟩ := hkind
  obtain ⟨m, b, rest, s', l, c, hpre, hvis, hle⟩ := exists_visitParam hq h
  refine ⟨b, c, l, ?_, ?_, hle⟩
  · rw [boundBefore, hpre]
  · obtain ⟨hk, rfl⟩ | ⟨hk, ha⟩ := hkind
    · rw [hk] at hvis
      exact visitArg_eq_ok hvis
    · rw [← List.head?_drop, ← rest_of_visitParams hd hq (congrArg Prod.fst hpre)] at ha
      obtain ⟨rest, rfl⟩ := List.head?_eq_some_iff.mp ha
      rw [hk] at hvis
      exact visitArg_eq_ok hvis

/-- What becomes of a type that is given to a parameter. -/
theorem given_cases (hd : d.Accepted) (h : (sem.matchDecl d args receiver mode s).1 = .ok ded)
    {p : TypeParam} {t : Ty} (hg : d.Gives args receiver i p t) :
    (p.spec = none ∧ ded.args[i.index]? = some (.type t)) ∨ ∃ pat, p.spec = some pat ∧
      (t.isFlat = true → (pat.subst (.ofArgs ded.args)).bare = t.bare) ∧
      (i ∉ pat.mentions →
        (∃ own, sem.boundBefore d args receiver i s = some (.type own) ∧
          ded.args[i.index]? = some (.type own)) ∨
        sem.boundBefore d args receiver i s = none ∧ ded.args[i.index]? = some (.type t)) := by
  obtain ⟨b, c, l, hb, hm, hc⟩ := exists_visit hd h hg
  have hget {a : Arg} (hi : c.get? i = some a) : ded.args[i.index]? = some a := by
    rw [← Bindings.get?_ofArgs]
    exact hc hi
  obtain ⟨t', ht, ⟨hp, hu⟩ | ⟨pat, m, b', hp, hded, hown⟩⟩ := matchType_eq_some hm <;> cases ht
  · exact .inl ⟨hp, hget (Bindings.get?_unify hu)⟩
  · refine .inr ⟨pat, hp, Deduce.ty_sound hded ?_, fun hi => ?_⟩
    · obtain ⟨own, -, rfl⟩ | ⟨-, hu⟩ := hown
      · exact hc
      · exact (Bindings.unify_binds hu).le.trans hc
    · rw [hb, ← (Deduce.ty_binds hded).only hi]
      obtain ⟨own, hown, rfl⟩ | ⟨hn, hu⟩ := hown
      · exact .inl ⟨own, hown, hget hown⟩
      · exact .inr ⟨hn, hget (Bindings.get?_unify hu)⟩

/-- The arguments of a match are the types that were given. -/
structure Respects (d : Decl) (args : List Arg) (receiver : Option Ty) (deduced : List Arg) :
    Prop where
  /-- A parameter takes the type that is given to it, unless it has a pattern that mentions it. -/
  taken {i : ParamIdx} {p : TypeParam} {t : Ty} : d.Gives args receiver i p t →
    (∀ pat, p.spec = some pat → i ∉ pat.mentions) → deduced[i.index]? = some (.type t)
  /-- A pattern that mentions its parameter gives the type back, up to `const`. -/
  matched {i : ParamIdx} {p : TypeParam} {t pat : Ty} : d.Gives args receiver i p t →
    p.spec = some pat → i ∈ pat.mentions → t.isFlat = true →
    (pat.subst (.ofArgs deduced)).bare = t.bare

/-- No parameter with a pattern that does not mention it is bound to anything but the type that is
given to it when its turn comes. -/
def Uncontested (sem : Semantics σ) (d : Decl) (args : List Arg) (receiver : Option Ty) (s : σ) :
    Prop :=
  ∀ ⦃i : ParamIdx⦄ ⦃p : TypeParam⦄ ⦃t pat : Ty⦄ ⦃a : Arg⦄, d.Gives args receiver i p t →
    p.spec = some pat → i ∉ pat.mentions → sem.boundBefore d args receiver i s = some a →
    a = .type t

/-- **A match respects the types that are given exactly if no earlier parameter has bound a
parameter otherwise.** -/
theorem respects_iff (hd : d.Accepted)
    (h : (sem.matchDecl d args receiver mode s).1 = .ok ded) :
    Respects d args receiver ded.args ↔ sem.Uncontested d args receiver s := by
  constructor
  · intro H i p t pat a hg hp hi ha
    obtain ⟨hp', -⟩ | ⟨pat', hp', -, hkeep⟩ := given_cases hd h hg <;> rw [hp] at hp' <;> cases hp'
    have htaken := H.taken hg fun pat' hp' => by
      rw [hp] at hp'
      cases hp'
      exact hi
    obtain ⟨own, hb, hown⟩ | ⟨hb, -⟩ := hkeep hi
    · rw [ha, ← hown, htaken] at hb
      exact Option.some.inj hb
    · rw [ha] at hb
      cases hb
  · intro H
    constructor
    case taken =>
      intro i p t hg hp
      obtain ⟨-, ht⟩ | ⟨pat, hpat, -, hkeep⟩ := given_cases hd h hg
      · exact ht
      · have hi := hp pat hpat
        obtain ⟨own, hb, hown⟩ | ⟨-, ht⟩ := hkeep hi
        · rw [hown, H hg hpat hi hb]
        · exact ht
    case matched =>
      intro i p t pat hg hp hi ht
      obtain ⟨hp', -⟩ | ⟨pat', hp', hsound, -⟩ := given_cases hd h hg <;> rw [hp] at hp' <;> cases hp'
      exact hsound ht

end Semantics

/-- `D(T : U[], U : int)`. -/
def pinned : Decl where
  name := "D"
  params := [
    { name := "T", kind := .type { spec := some (.array (.param ⟨1⟩)) } },
    { name := "U", dependent := true, kind := .type { spec := some .int } }]

theorem pinned_accepted : pinned.Accepted :=
  ⟨{ pinned with params := pinned.params.map fun p => { p with dependent := false } }, rfl⟩

/-- A front end that knows nothing. -/
def blank : Semantics Unit where
  evaluate _ _ := pure (.error ⟨"", {}⟩)
  openScope s := pure s
  declareSymbol _ _ _ := pure ()
  symbolName _ _ := ""

/-- `D!(int[], int)` takes both types. -/
theorem respects_pinned : pinned.Accepted ∧
    (blank.matchDecl pinned [.type (.array .int), .type .int] none .instantiate ()).1 =
      .ok ⟨.exact, [.type (.array .int), .type .int]⟩ ∧
    Semantics.Respects pinned [.type (.array .int), .type .int] none
      [.type (.array .int), .type .int] := by
  have h : (blank.matchDecl pinned [.type (.array .int), .type .int] none .instantiate ()).1 =
      .ok ⟨.exact, [.type (.array .int), .type .int]⟩ := rfl
  refine ⟨pinned_accepted, h, (Semantics.respects_iff pinned_accepted h).mpr ?_⟩
  intro i p t pat a hg hp hi ha
  cases hg with
  | receiver _ hr => cases hr
  | argument hk ht =>
    obtain ⟨_ | _ | n⟩ := i
    · change none = some a at ha
      cases ha
    · change some (Arg.type .int) = some (.type t) at ht
      change some (Arg.type .int) = some a at ha
      exact Option.some.inj (ha.symm.trans ht)
    · cases hk

/-- `D!(char[], int)` is `D!(char[], char)`. -/
theorem not_respects_pinned : pinned.Accepted ∧
    (blank.matchDecl pinned [.type (.array .char), .type .int] none .instantiate ()).1 =
      .ok ⟨.exact, [.type (.array .char), .type .char]⟩ ∧
    ¬Semantics.Respects pinned [.type (.array .char), .type .int] none
      [.type (.array .char), .type .char] := by
  refine ⟨pinned_accepted, rfl, fun H => ?_⟩
  have hg : pinned.Gives [.type (.array .char), .type .int] none ⟨1⟩ ⟨some .int, none⟩ .int :=
    .argument rfl rfl
  have := H.taken hg fun pat hp => by
    cases hp
    decide
  cases this

end Templates
