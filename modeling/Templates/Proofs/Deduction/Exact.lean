import Templates.Proofs.Deduction.Sound

/-!
# Exact deductions

At the level `exact` no `const` of the type was dropped, and the pattern with the deduced bindings
put in is the type that was taken apart, with every `const` in its place (`Deduce.Derives.restores`).
`Deduce.ty_recovers` says all that a successful deduction has found.
-/

namespace Templates

/-! ## Types up to the types of constants -/

mutual

/-- The type without the types of the constants among the arguments of instances. -/
def Ty.untyped : Ty → Ty
  | .const t => .const t.untyped
  | .ptr t => .ptr t.untyped
  | .array t => .array t.untyped
  | .staticArray t d => .staticArray t.untyped d
  | .inst r args => .inst r (Arg.untypedList args)
  | .basic b => .basic b
  | .named s => .named s
  | .param i => .param i
  | .standIn p => .standIn p
  | .error => .error

def Arg.untyped : Arg → Arg
  | .type t => .type t.untyped
  | .value _ c => .value .error c
  | .symbol s => .symbol s
  | .tuple elems => .tuple (Arg.untypedList elems)

def Arg.untypedList : List Arg → List Arg
  | [] => []
  | a :: as => a.untyped :: Arg.untypedList as

end

mutual

/-- No `const` stands directly inside another. -/
def Ty.singlyConst : Ty → Bool
  | .const t => !t.isConst && t.singlyConst
  | .ptr t | .array t | .staticArray t _ => t.singlyConst
  | .inst _ args => Arg.singlyConstList args
  | .basic _ | .named _ | .param _ | .standIn _ | .error => true

def Arg.singlyConst : Arg → Bool
  | .type t => t.singlyConst
  | .value _ _ | .symbol _ => true
  | .tuple elems => Arg.singlyConstList elems

def Arg.singlyConstList : List Arg → Bool
  | [] => true
  | a :: as => a.singlyConst && Arg.singlyConstList as

end

@[simp] theorem Ty.isConst_untyped (t : Ty) : t.untyped.isConst = t.isConst := by cases t <;> rfl

theorem Ty.constant_of_not_isConst {t : Ty} (h : t.isConst = false) : t.constant = .const t := by
  cases t with
  | const => cases h
  | _ => rfl

theorem Arg.untypedList_append (as bs : List Arg) :
    Arg.untypedList (as ++ bs) = Arg.untypedList as ++ Arg.untypedList bs := by
  induction as with
  | nil => rfl
  | cons a as ih => simp [Arg.untypedList, ih]

theorem Level.min_eq_exact {a b : Level} : min a b = exact ↔ a = exact ∧ b = exact := by
  cases a <;> cases b <;> decide

namespace Deduce

variable {ps : List Param} {b c e : Bindings} {l : Level}

namespace Goal

def singlyConst : Goal → Bool
  | .ty t _ => t.singlyConst
  | .arg a _ => a.singlyConst
  | .args as _ => Arg.singlyConstList as

/-- The pattern with the bindings put in is what was taken apart. -/
def Restores (e : Bindings) : Goal → Prop
  | .ty t pat => (pat.subst e).untyped = t.untyped
  | .arg a pat => Arg.untypedList (pat.subst e) = [a.untyped]
  | .args as pats => Arg.untypedList (Arg.substList e pats) = Arg.untypedList as

end Goal

theorem Derives.level {g : Goal} (h : Derives ps g b l c) : l = .exact ∨ l = .constant := by
  induction h with
  | const _ ih | ptr _ ih | array _ ih | staticArray _ _ ih | inst _ _ ih | type _ _ ih => exact ih
  | unqualify _ _ _ ih => rcases ih with rfl | rfl <;> exact .inr rfl
  | cons _ _ _ iha ihas =>
    rcases iha with rfl | rfl
    · rwa [Level.exact_min]
    · rcases ihas with rfl | rfl <;> exact .inr rfl
  | _ => exact .inl rfl

/-- At the level `exact` the pattern had a `const` wherever the type has one. The substitution puts it
back, since what stands below is not `const` itself. -/
theorem Derives.restores {g : Goal} (h : Derives ps g b l c) (hl : l = .exact) (hc : c.Le e)
    (hg : g.isFlat = true) (hs : g.singlyConst = true) : g.Restores e := by
  induction h with
  | @param t i _ _ h =>
    obtain ⟨k, -, -, h⟩ := tyParam_eq_some h
    change (Ty.subst e (.param i)).untyped = t.untyped
    rw [Ty.subst, hc (Bindings.get?_unify h)]
  | @argParam a i _ _ h =>
    obtain ⟨ha, k, -, -, h⟩ := argParam_eq_some h
    change Arg.untypedList (Bindings.splice e i) = [a.untyped]
    rw [Bindings.splice_of_leaf (hc (Bindings.get?_unify h)) ha]
    rfl
  | @const t p _ _ _ _ ih =>
    obtain ⟨ht, hs⟩ := Bool.and_eq_true_iff.mp hs
    have hp : (p.subst e).untyped = t.untyped := ih hl hc hg hs
    have hn : (p.subst e).isConst = false := by
      rw [← Ty.isConst_untyped, hp, Ty.isConst_untyped]
      simpa using ht
    change (p.subst e).constant.untyped = .const t.untyped
    rw [Ty.constant_of_not_isConst hn, ← hp]
    rfl
  | unqualify => exact absurd (Level.min_eq_exact.mp hl).2 (by decide)
  | basic | named | standIn | value | symbol | nil => rfl
  | ptr _ ih => exact congrArg Ty.ptr (ih hl hc hg hs)
  | array _ ih => exact congrArg Ty.array (ih hl hc hg hs)
  | @staticArray t p d n _ _ _ _ _ hd ih =>
    change Ty.staticArray (p.subst e).untyped (n.subst e) = .staticArray t.untyped d
    rw [dim_subst hd hc, ih hl ((dim_binds hd).le.trans hc) hg hs]
  | @inst r q as pats _ _ _ _ hr h ih =>
    change Ty.inst (q.subst e) (Arg.untypedList (Arg.substList e pats)) =
      .inst r (Arg.untypedList as)
    rw [templateRef_subst hr (h.binds.le.trans hc), ih hl hc hg hs]
  | @type t p _ _ _ hi _ ih =>
    change Arg.untypedList (Arg.subst e (.type p)) = [.type t.untyped]
    rw [Arg.subst_type hi, ← ih hl hc hg hs]
    rfl
  | tuple => cases hg
  | @soak as p i _ _ hi h =>
    obtain ⟨rfl, -⟩ := soaking?_eq_some hi
    change Arg.untypedList (Bindings.splice e i ++ []) = _
    rw [Bindings.splice, hc (Bindings.get?_unify h), List.append_nil]
    exact congrArg Arg.untypedList (Arg.flatten_of_areFlat hg)
  | @cons a as p pats _ _ _ _ _ _ _ has iha ihas =>
    obtain ⟨hla, hlas⟩ := Level.min_eq_exact.mp hl
    obtain ⟨hga, hgas⟩ := Bool.and_eq_true_iff.mp hg
    obtain ⟨hsa, hsas⟩ := Bool.and_eq_true_iff.mp hs
    change Arg.untypedList (p.subst e ++ Arg.substList e pats) = a.untyped :: Arg.untypedList as
    rw [Arg.untypedList_append, iha hla (has.binds.le.trans hc) hga hsa, ihas hlas hc hgas hsas]
    rfl

/-- What a deduction that took `t` apart along `pat` has found. It began with the bindings `b`. -/
structure Recovers (ps : List Param) (t pat : Ty) (b : Bindings) (l : Level) (c : Bindings) :
    Prop where
  /-- A deduction that succeeds has one of the upper levels. -/
  level : l = .exact ∨ l = .constant
  length : c.length = b.length
  /-- No binding is taken back or replaced. -/
  kept {i : ParamIdx} {a : Arg} : b.get? i = some a → c.get? i = some a
  /-- A new binding is of the kind of its parameter. -/
  fresh {i : ParamIdx} {a : Arg} : b.get? i = none → c.get? i = some a →
    ∃ k, kind? ps i = some k ∧ k.takes a = true
  /-- Then every parameter that is bound has an argument of its kind, if that was so before. -/
  kinded : b.Kinded ps → c.Kinded ps
  /-- Up to `const`, the pattern with the bindings put in is the type. -/
  shape : (pat.subst c).bare = t.bare
  /-- At the upper level it is the type, with every `const`. -/
  restored : l = .exact → (pat.subst c).untyped = t.untyped

/-- **Deduction is sound.** -/
theorem ty_recovers {t pat : Ty} (hflat : t.isFlat = true) (hconst : t.singlyConst = true)
    (h : ty ps t pat b = some (l, c)) : Recovers ps t pat b l c := by
  have hd : Derives ps (.ty t pat) b l c := run_eq_some_iff.mp h
  have hfills : b.Fills ps c := ty_fills h
  constructor
  case level => exact hd.level
  case length => exact hfills.length
  case kept =>
    intro i a hi
    exact hfills.le hi
  case fresh =>
    intro i a hn hi
    refine (hfills.fresh hi).resolve_left fun hb => ?_
    rw [hn] at hb
    cases hb
  case kinded => exact hfills.kinded
  case shape => exact ty_sound h (.refl c) hflat
  case restored =>
    intro hl
    exact hd.restores hl (.refl c) hflat hconst

end Deduce

/-- A type, a template, a length and a sequence. -/
def shelfParams : List Param :=
  [{ name := "T", kind := .type {} }, { name := "X", kind := .symbol {} },
    { name := "n", kind := .value { ty := .int } }, { name := "U", kind := .tuple }]

/-- `const(X!(T*, int[n], 3, U))` -/
def shelfPattern : Ty :=
  .const (.inst (.param ⟨1⟩) [.type (.ptr (.param ⟨0⟩)), .type (.staticArray .int (.param ⟨2⟩)),
    .value .int (.int 3), .type (.param ⟨3⟩)])

/-- An instance of the template 7 that fits the pattern, with a 3 of another type. -/
def shelfTy : Ty :=
  .const (.inst (.symbol ⟨7⟩) [.type (.ptr (.const .char)), .type (.staticArray .int (.known 4)),
    .value .ulong (.int 3), .symbol ⟨5⟩, .type .bool])

/-- Every parameter is found, and every `const` is in its place. -/
theorem ty_recovers_shelf : shelfTy.isFlat = true ∧ shelfTy.singlyConst = true ∧
    Deduce.ty shelfParams shelfTy shelfPattern (.free 4) = some (.exact, .ofArgs
      [.type (.const .char), .symbol ⟨7⟩, .value .int (.int 4), .tuple [.symbol ⟨5⟩, .type .bool]]) ∧
    Deduce.Recovers shelfParams shelfTy shelfPattern (.free 4) .exact (.ofArgs
      [.type (.const .char), .symbol ⟨7⟩, .value .int (.int 4),
        .tuple [.symbol ⟨5⟩, .type .bool]]) :=
  ⟨rfl, rfl, rfl, Deduce.ty_recovers rfl rfl rfl⟩

end Templates
