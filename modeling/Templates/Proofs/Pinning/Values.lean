import Templates.Proofs.Pinning

/-!
# The types of deduced values

A value that is given to a parameter gets the declared type, with the deduced arguments put in, and so
does a default (`Semantics.given_declared`). A pinned parameter keeps the type that it was bound with:
a length has the declared type only if that is closed, and an argument of an instance has the type that
it has there. So the values of a match have their declared types exactly if the pinned ones were bound
with them (`Semantics.declares_iff`).
-/

namespace Templates

/-- Each value parameter has a value of its declared type. -/
def Decl.Declares (d : Decl) (deduced : List Arg) : Prop :=
  ∀ ⦃i : ParamIdx⦄ ⦃p : ValueParam⦄, Deduce.kind? d.params i = some (.value p) →
    ∃ c, deduced[i.index]? = some (.value (p.ty.subst (.ofArgs deduced)) c)

namespace Semantics

variable {σ : Type} {sem : Semantics σ} {d : Decl} {i : ParamIdx} {args : List Arg}
  {receiver : Option Ty} {mode : MatchMode} {s : σ} {ded : Deduction} {a : Arg}

/-- A value gets the declared type, which no longer mentions a parameter then. -/
theorem declared_of_matchValue {p : ValueParam} {b c e : Bindings} {l : Level}
    (h : (sem.matchValue i d p a b s).1 = some (l, c)) (hb : b.Le c) (hc : c.Le e) :
    ∃ t x, a = .value t x ∧ e.get? i = some (.value (p.ty.subst e) x) := by
  obtain ⟨v, hv, hu⟩ := matchValue_eq_some h
  obtain ⟨t, ha, hty, hclosed⟩ := convert?_eq_some hv
  refine ⟨t, v.const, ha, ?_⟩
  rw [Ty.subst_of_le (hb.trans hc) hclosed, ← hty]
  exact hc (Bindings.get?_unify hu)

/-- A value that is given, or taken as the default, keeps its constant and gets the declared type. -/
theorem given_declared {p : ValueParam} {t : Turn σ} {s' : σ}
    (h : (sem.matchDecl d args receiver mode s).1 = .ok ded)
    (hk : Deduce.kind? d.params i = some (.value p))
    (ht : sem.turn? d args receiver i s = some t)
    (ho : sem.Offers d receiver i (.value p) t a s') :
    ∃ u c, a = .value u c ∧
      ded.args[i.index]? = some (.value (p.ty.subst (.ofArgs ded.args)) c) := by
  obtain ⟨t', l, c, ht', hv, hc⟩ := exists_turn hk h
  rw [ht] at ht'
  cases ht'
  cases hv with
  | offered ho' hm =>
    obtain ⟨rfl, rfl⟩ := ho.unique ho'
    rw [← Bindings.get?_ofArgs]
    exact declared_of_matchValue hm (matchArg_fills hk hm).le hc
  | kept hn hb =>
    rw [ho.free hn] at hb
    cases hb
  | empty htuple => cases htuple

/-- Each value parameter that an earlier pattern pins was bound to a value of its declared type. -/
def PinsDeclared (sem : Semantics σ) (d : Decl) (args : List Arg) (receiver : Option Ty) (s : σ)
    (deduced : List Arg) : Prop :=
  ∀ ⦃i : ParamIdx⦄ ⦃p : ValueParam⦄ ⦃t : Turn σ⦄ ⦃a : Arg⦄,
    Deduce.kind? d.params i = some (.value p) → sem.Pinned d args receiver s i t a →
    ∃ c, a = .value (p.ty.subst (.ofArgs deduced)) c

/-- **Deduced values have their declared types exactly if the pinned ones were bound with them.** -/
theorem declares_iff (hd : d.Accepted) (h : (sem.matchDecl d args receiver mode s).1 = .ok ded) :
    d.Declares ded.args ↔ sem.PinsDeclared d args receiver s ded.args := by
  constructor
  · intro H i p t a hk hp
    obtain ⟨c, hc⟩ := H hk
    rw [args_of_pinned hd h hk hp] at hc
    exact ⟨c, Option.some.inj hc⟩
  · intro H i p hk
    obtain ⟨t, l, c, ht, hv, -⟩ := exists_turn hk h
    cases hv with
    | offered ho =>
      obtain ⟨u, x, -, hx⟩ := given_declared h hk ht ho
      exact ⟨x, hx⟩
    | kept hn hb =>
      have hp : sem.Pinned d args receiver s i t _ := ⟨ht, (argument?_of_turn? hd hk ht).trans hn, hb⟩
      obtain ⟨x, rfl⟩ := H hk hp
      exact ⟨x, args_of_pinned hd h hk hp⟩
    | empty htuple => cases htuple

end Semantics

/-- `D(T : X!(n), int n)`, where `X` is the symbol 7. -/
def numbered : Decl where
  name := "D"
  params := [
    { name := "T", kind := .type { spec := some (.inst (.symbol ⟨7⟩) [.type (.param ⟨1⟩)]) } },
    { name := "n", dependent := true, kind := .value { ty := .int } }]

theorem numbered_accepted : numbered.Accepted :=
  ⟨{ numbered with params := numbered.params.map fun p => { p with dependent := false } }, rfl⟩

/-- `X!(3)` with a 3 of the given type. -/
def threeOf (t : Ty) : Ty := .inst (.symbol ⟨7⟩) [.value t (.int 3)]

/-- `D(T : E[n], E, E n)`. -/
def elementwise : Decl where
  name := "D"
  params := [
    { name := "T", kind := .type { spec := some (.staticArray (.param ⟨1⟩) (.param ⟨2⟩)) } },
    { name := "E", dependent := true, kind := .type {} },
    { name := "n", dependent := true, kind := .value { ty := .param ⟨1⟩ } }]

theorem elementwise_accepted : elementwise.Accepted :=
  ⟨{ elementwise with params := elementwise.params.map fun p => { p with dependent := false } }, rfl⟩

/-- In `D!(X!(3))` with an `int` the pattern pins `n` to an `int`. -/
theorem declares_numbered : numbered.Accepted ∧
    (blank.matchDecl numbered [.type (threeOf .int)] none .instantiate ()).1 =
      .ok ⟨.exact, [.type (threeOf .int), .value .int (.int 3)]⟩ ∧
    numbered.Declares [.type (threeOf .int), .value .int (.int 3)] := by
  have h : (blank.matchDecl numbered [.type (threeOf .int)] none .instantiate ()).1 =
      .ok ⟨.exact, [.type (threeOf .int), .value .int (.int 3)]⟩ := rfl
  refine ⟨numbered_accepted, h, (Semantics.declares_iff numbered_accepted h).mpr ?_⟩
  rintro ⟨_ | _ | n⟩ p t a hk ⟨hturn, -, hbound⟩
  · cases hk
  · cases hk
    cases hturn
    cases hbound
    exact ⟨_, rfl⟩
  · cases hk

/-- In `D!(X!(3))` with a `uint` it pins `int n` to a `uint`, and in `D!(int[4])` the length is an
`ulong` though `n` is declared as an `int` there. -/
theorem not_declares : (numbered.Accepted ∧
      (blank.matchDecl numbered [.type (threeOf (.basic .uint))] none .instantiate ()).1 =
        .ok ⟨.exact, [.type (threeOf (.basic .uint)), .value (.basic .uint) (.int 3)]⟩ ∧
      ¬numbered.Declares [.type (threeOf (.basic .uint)), .value (.basic .uint) (.int 3)]) ∧
    elementwise.Accepted ∧
      (blank.matchDecl elementwise [.type (.staticArray .int (.known 4))] none .instantiate ()).1 =
        .ok ⟨.exact, [.type (.staticArray .int (.known 4)), .type .int, .value .ulong (.int 4)]⟩ ∧
      ¬elementwise.Declares
        [.type (.staticArray .int (.known 4)), .type .int, .value .ulong (.int 4)] := by
  refine ⟨⟨numbered_accepted, rfl, fun H => ?_⟩, elementwise_accepted, rfl, fun H => ?_⟩
  · obtain ⟨c, hc⟩ := H (i := ⟨1⟩) rfl
    cases hc
  · obtain ⟨c, hc⟩ := H (i := ⟨2⟩) rfl
    cases hc

end Templates
