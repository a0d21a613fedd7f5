import Templates.Proofs.Deduction.Exact
import Templates.Proofs.Deduction.Later

/-!
# Patterns that are taken apart again

A pattern with bindings put in is taken apart along the pattern. That the deduction is exact and
leaves the bindings alone is a matter of the places of the pattern, each one for itself: every
parameter has to stand where an argument of its kind is asked for, and no `const` may get a type that
is `const` already (`Deduce.ty_subst_iff`).
-/

namespace Templates

/-! ## Places -/

/-- Where a pattern names a parameter. -/
inductive Spot
  | type
  | length
  | template
  /-- An argument of an instance, the last one or not. -/
  | arg (last : Bool)

/-- What a pattern asks for at a place. -/
inductive Place
  | param (spot : Spot) (i : ParamIdx)
  /-- A `const` around the pattern. -/
  | const (t : Ty)
  | error

def Dim.places : Dim → List Place
  | .param i => [.param .length i]
  | .known _ | .standIn _ => []

def TemplateRef.places : TemplateRef → List Place
  | .param i => [.param .template i]
  | .symbol _ => []

mutual

/-- The places of a pattern. Deduction looks at no others. -/
def Ty.places : Ty → List Place
  | .param i => [.param .type i]
  | .const t => .const t :: t.places
  | .ptr t | .array t => t.places
  | .staticArray t d => t.places ++ d.places
  | .inst r args => r.places ++ Arg.placesList args
  | .basic _ | .named _ | .standIn _ => []
  | .error => [.error]

def Arg.places (last : Bool) : Arg → List Place
  | .type (.param i) => [.param (.arg last) i]
  | .type t => t.places
  | .value _ _ | .symbol _ | .tuple _ => []

def Arg.placesList : List Arg → List Place
  | [] => []
  | a :: as => a.places as.isEmpty ++ Arg.placesList as

end

/-- The kinds of parameters that may stand here. A sequence comes last. -/
def Spot.takes : Spot → ParamKind → Bool
  | .type, .type _ | .type, .this _ | .length, .value _ | .template, .symbol _ => true
  | .arg last, k => last || !k.isTuple
  | _, _ => false

/-- A length that an array can have. -/
def Const.isLength : Const → Bool
  | .int n => 0 ≤ n && n.toNat ≤ maxWord64
  | .standIn _ => true
  | _ => false

/-- No sequence stands inside the argument. -/
def Arg.IsFlattened (a : Arg) : Prop := ∀ ⦃elems⦄, a = .tuple elems → Arg.flatten elems = elems

/-- A binding that has the type of a length. -/
def ParamKind.takesLength (k : ParamKind) (a : Arg) : Prop :=
  ∃ p c, k = .value p ∧ a = .value (Deduce.lengthTy p) c ∧ c.isLength = true

/-- With the bindings the place is filled by what a deduction finds there. -/
def Place.IsFilled (ps : List Param) (b : Bindings) : Place → Prop
  | .param spot i => ∃ k a, Deduce.kind? ps i = some k ∧ b.get? i = some a ∧ spot.takes k = true ∧
    k.takes a = true ∧ a.IsFlattened ∧ (spot = .length → k.takesLength a)
  | .const t => (t.subst b).isConst = false
  | .error => False

theorem Arg.places_type {last : Bool} {t : Ty} (h : ∀ i, t ≠ .param i) :
    Arg.places last (.type t) = t.places := by
  cases t with
  | param i => exact absurd rfl (h i)
  | _ => rfl

theorem Arg.isFlattened_of_isLeaf {a : Arg} (h : a.isLeaf = true) : a.IsFlattened := by
  rintro elems rfl
  cases h

variable {ps : List Param} {b c : Bindings} {l : Level} {i : ParamIdx}

theorem Bindings.Extends.antisymm (h : b.Extends c) (h' : c.Extends b) : b = c := by
  refine List.ext_getElem h.length.symm fun n hb hc => ?_
  have hget : b.get? ⟨n⟩ = c.get? ⟨n⟩ := Option.ext fun a => ⟨@h.le ⟨n⟩ a, @h'.le ⟨n⟩ a⟩
  rw [get?, get?, List.getElem?_eq_getElem hb, List.getElem?_eq_getElem hc] at hget
  exact hget

theorem Bindings.unify_eq_self {a : Arg} : b.unify i a = some b ↔ b.get? i = some a :=
  ⟨get?_unify, unify_self⟩

namespace Deduce

/-! ## How much `const` there is -/

/-- How many `const` a type begins with. -/
def constDepth : Ty → Nat
  | .const t => constDepth t + 1
  | _ => 0

theorem constDepth_constant_le (t : Ty) : constDepth t.constant ≤ constDepth t + 1 := by
  cases t with
  | const => exact Nat.le_succ _
  | _ => exact Nat.le_refl _

theorem ty_param_eq_some_iff {t : Ty} : ty ps t (.param i) b = some (l, c) ↔
    l = .exact ∧ tyParam ps i t b = some c := by
  rw [ty, Option.map_eq_some_iff]
  constructor
  · rintro ⟨_, hc, heq⟩
    cases heq
    exact ⟨rfl, hc⟩
  · rintro ⟨rfl, hc⟩
    exact ⟨c, hc, rfl⟩

/-- No deduction makes up for a `const` that the type lacks. -/
theorem constDepth_subst_le {t pat : Ty} (h : ty ps t pat b = some (l, c)) :
    constDepth (pat.subst c) ≤ constDepth t := by
  match t, pat with
  | t, .param i =>
    obtain ⟨k, -, -, hu⟩ := tyParam_eq_some (ty_param_eq_some_iff.mp h).2
    have hsubst : Ty.subst c (.param i) = t := by rw [Ty.subst, Bindings.get?_unify hu]
    exact Nat.le_of_eq (congrArg constDepth hsubst)
  | .const t, .const p =>
    exact Nat.le_trans (constDepth_constant_le _) (Nat.succ_le_succ (constDepth_subst_le h))
  | _, .ptr _ | _, .array _ | _, .staticArray _ _ | _, .inst _ _ | _, .basic _ | _, .named _
  | _, .standIn _ | _, .error => exact Nat.zero_le _

/-! ## Single places -/

/-- The goal is met exactly, and nothing new is bound. -/
def Undone (ps : List Param) (b : Bindings) (g : Goal) : Prop := g.run ps b = some (.exact, b)

theorem undone_param : Undone ps b (.ty (Ty.subst b (.param i)) (.param i)) ↔
    (Place.param .type i).IsFilled ps b := by
  rw [show Undone ps b (.ty _ _) ↔ _ from ty_param_eq_some_iff]
  constructor
  · rintro ⟨-, h⟩
    obtain ⟨k, hk, ht, hu⟩ := tyParam_eq_some h
    refine ⟨k, _, hk, Bindings.get?_unify hu, ?_, ht, Arg.isFlattened_of_isLeaf rfl, by simp⟩
    cases k with
    | type | this => rfl
    | value | symbol | tuple => cases ht
  · rintro ⟨k, a, hk, ha, hspot, ht, -⟩
    obtain ⟨t, rfl⟩ : ∃ t, a = .type t := by
      cases k <;> cases hspot <;> cases a <;> first | exact ⟨_, rfl⟩ | cases ht
    rw [Ty.subst, ha]
    exact ⟨rfl, (tyParam_of_takes hk ht b).trans (Bindings.unify_self ha)⟩

theorem lengthConst?_subst {t : Ty} {x : Const} (ha : b.get? i = some (.value t x)) :
    lengthConst? ((Dim.param i).subst b) = if x.isLength then some x else none := by
  rw [Dim.subst, ha]
  cases x with
  | int n =>
    dsimp only
    by_cases hn : 0 ≤ n ∧ n.toNat ≤ maxWord64
    · have hlt : n.toNat < UInt64.size := Nat.lt_succ_of_le hn.2
      rw [if_pos hn, lengthConst?, UInt64.toNat_ofNat_of_lt' hlt, Int.toNat_of_nonneg hn.1]
      simp [Const.isLength, hn]
    · rw [if_neg hn, lengthConst?, if_neg]
      simpa [Const.isLength] using hn
  | _ => rfl

theorem dim_subst_self_iff {d : Dim} : dim ps (d.subst b) d b = some b ↔
    ∀ x ∈ d.places, x.IsFilled ps b := by
  cases d with
  | known | standIn => simp [dim, Dim.subst, Dim.places]
  | param i =>
    rw [Dim.places, List.forall_mem_singleton]
    constructor
    · intro h
      obtain ⟨-, hn, -⟩ | ⟨j, p, x, hj, hp, hx, hu⟩ := dim_eq_some h
      · cases hn
      obtain rfl := Dim.param.inj hj
      have ha := Bindings.get?_unify hu
      refine ⟨.value p, _, hp, ha, rfl, rfl, Arg.isFlattened_of_isLeaf rfl,
        fun _ => ⟨p, x, rfl, rfl, ?_⟩⟩
      rw [lengthConst?_subst ha, Option.ite_none_right_eq_some] at hx
      exact hx.1
    · rintro ⟨_, _, hk, ha, -, -, -, hlen⟩
      obtain ⟨p, x, rfl, rfl, hx⟩ := hlen rfl
      have hx := (lengthConst?_subst ha).trans (if_pos hx)
      simp only [dim, hk, hx]
      exact Bindings.unify_self ha

theorem templateRef_subst_self_iff {r : TemplateRef} :
    templateRef ps (r.subst b) r b = some b ↔ ∀ x ∈ r.places, x.IsFilled ps b := by
  cases r with
  | symbol => simp [templateRef, TemplateRef.subst, TemplateRef.places]
  | param i =>
    rw [TemplateRef.places, List.forall_mem_singleton]
    constructor
    · intro h
      obtain ⟨-, hn, -⟩ | ⟨j, p, s, hj, hs, hp, hu⟩ := templateRef_eq_some h
      · cases hn
      obtain rfl := TemplateRef.param.inj hj
      exact ⟨.symbol p, _, hp, Bindings.get?_unify hu, rfl, rfl, Arg.isFlattened_of_isLeaf rfl,
        by simp⟩
    · rintro ⟨k, a, hk, ha, hspot, ht, -⟩
      obtain ⟨p, s, rfl, rfl⟩ : ∃ p s, k = .symbol p ∧ a = .symbol s := by
        cases k <;> cases hspot
        cases a <;> first | exact ⟨_, _, rfl, rfl⟩ | cases ht
      rw [TemplateRef.subst, ha]
      simp only [templateRef, hk]
      exact Bindings.unify_self ha

/-! ## Patterns -/

theorem run_extends {g : Goal} (h : g.run ps b = some (l, c)) : b.Extends c :=
  (run_eq_some_iff.mp h).fills.toExtends

theorem undone_staticArray {t p : Ty} {d n : Dim} :
    Undone ps b (.ty (.staticArray t d) (.staticArray p n)) ↔
      Undone ps b (.ty t p) ∧ dim ps d n b = some b := by
  constructor
  · intro h
    obtain ⟨⟨l, c⟩, hc, h⟩ := Option.bind_eq_some_iff.mp h
    obtain ⟨e, he, h⟩ := Option.map_eq_some_iff.mp h
    cases h
    obtain rfl := (run_extends (g := .ty t p) hc).antisymm (dim_fills he).toExtends
    exact ⟨hc, he⟩
  · rintro ⟨ht, hd⟩
    have ht : ty ps t p b = some (.exact, b) := ht
    simp [Undone, Goal.run, ty, ht, hd]

theorem undone_inst {r q : TemplateRef} {as pats : List Arg} :
    Undone ps b (.ty (.inst r as) (.inst q pats)) ↔
      templateRef ps r q b = some b ∧ Undone ps b (.args as pats) := by
  constructor
  · intro h
    obtain ⟨c, hc, h⟩ := Option.bind_eq_some_iff.mp h
    obtain rfl := (templateRef_fills hc).toExtends.antisymm (run_extends (g := .args as pats) h)
    exact ⟨hc, h⟩
  · rintro ⟨hr, has⟩
    have has : args ps as pats b = some (.exact, b) := has
    simp [Undone, Goal.run, ty, hr, has]

theorem undone_cons {as pats : List Arg} {p : Arg} (hp : soaking? ps p = none) :
    Undone ps b (.args as (p :: pats)) ↔
      ∃ x xs, as = x :: xs ∧ Undone ps b (.arg x p) ∧ Undone ps b (.args xs pats) := by
  constructor
  · intro h
    cases as with
    | nil =>
      obtain ⟨i, hi, -⟩ := Option.bind_eq_some_iff.mp h
      rw [hp] at hi
      cases hi
    | cons x xs =>
      simp only [Undone, Goal.run, args, hp] at h
      obtain ⟨⟨l, c⟩, hc, h⟩ := Option.bind_eq_some_iff.mp h
      obtain ⟨⟨m, e⟩, he, h⟩ := Option.map_eq_some_iff.mp h
      obtain ⟨hl, rfl⟩ := Prod.mk.inj h
      obtain ⟨rfl, rfl⟩ := Level.min_eq_exact.mp hl
      obtain rfl := (run_extends (g := .arg x p) hc).antisymm (run_extends (g := .args xs pats) he)
      exact ⟨x, xs, rfl, hc, he⟩
  · rintro ⟨x, xs, rfl, hx, hxs⟩
    have hx : arg ps x p b = some (.exact, b) := hx
    have hxs : args ps xs pats b = some (.exact, b) := hxs
    simp [Undone, Goal.run, args, hp, hx, hxs]

theorem undone_cons_cons {x p : Arg} {xs pats : List Arg} (hp : soaking? ps p = none) :
    Undone ps b (.args (x :: xs) (p :: pats)) ↔
      Undone ps b (.arg x p) ∧ Undone ps b (.args xs pats) := by
  rw [undone_cons hp]
  constructor
  · rintro ⟨_, _, heq, h⟩
    obtain ⟨rfl, rfl⟩ := List.cons.inj heq
    exact h
  · exact fun h => ⟨x, xs, rfl, h⟩

/-- Only a sequence parameter takes a sequence. -/
theorem isLeaf_of_takes {k : ParamKind} {a : Arg} (hi : soaking? ps (.type (.param i)) = none)
    (hk : kind? ps i = some k) (ht : k.takes a = true) : a.isLeaf = true := by
  cases a with
  | tuple =>
    cases k with
    | tuple =>
      simp only [soaking?, hk] at hi
      cases hi
    | _ => cases ht
  | _ => rfl

/-- A parameter for one argument. -/
theorem undone_arg_param {a : Arg} (hi : soaking? ps (.type (.param i)) = none) (last : Bool) :
    Undone ps b (.arg a (.type (.param i))) ↔
      b.get? i = some a ∧ (Place.param (.arg last) i).IsFilled ps b := by
  have hrun : Undone ps b (.arg a (.type (.param i))) ↔ argParam ps i a b = some b := by
    simp [Undone, Goal.run, arg]
  rw [hrun]
  constructor
  · intro h
    obtain ⟨ha, k, hk, ht, hu⟩ := argParam_eq_some h
    have hget := Bindings.get?_unify hu
    refine ⟨hget, k, a, hk, hget, ?_, ht, Arg.isFlattened_of_isLeaf ha, by simp⟩
    cases k with
    | tuple =>
      cases a with
      | tuple => cases ha
      | _ => cases ht
    | _ => exact Bool.or_true last
  · rintro ⟨hget, k, a', hk, ha', -, ht, -⟩
    obtain rfl := Option.some.inj (hget.symm.trans ha')
    exact (argParam_of_takes hk (isLeaf_of_takes hi hk ht) ht b).trans (Bindings.unify_self hget)

theorem undone_splice {rest pats : List Arg} (hi : soaking? ps (.type (.param i)) = none)
    (last : Bool) : Undone ps b (.args (b.splice i ++ rest) (.type (.param i) :: pats)) ↔
      (Place.param (.arg last) i).IsFilled ps b ∧ Undone ps b (.args rest pats) := by
  have hsplice {a : Arg} (ha : b.get? i = some a) (h : (Place.param (.arg last) i).IsFilled ps b) :
      b.splice i = [a] := by
    obtain ⟨k, a', hk, ha', -, ht, -⟩ := h
    obtain rfl := Option.some.inj (ha.symm.trans ha')
    exact Bindings.splice_of_leaf ha (isLeaf_of_takes hi hk ht)
  constructor
  · intro h
    obtain ⟨x, xs, heq, hx, hxs⟩ := (undone_cons hi).mp h
    obtain ⟨ha, hfilled⟩ := (undone_arg_param hi last).mp hx
    rw [hsplice ha hfilled] at heq
    obtain ⟨-, rfl⟩ := List.cons.inj heq
    exact ⟨hfilled, hxs⟩
  · rintro ⟨hfilled, hrest⟩
    have ⟨_, a, _, ha, _⟩ := hfilled
    rw [hsplice ha hfilled]
    exact (undone_cons_cons hi).mpr ⟨(undone_arg_param hi last).mpr ⟨ha, hfilled⟩, hrest⟩

/-- A sequence parameter, which has to come last. -/
theorem undone_soak {p : Arg} {pats as : List Arg} (hp : soaking? ps p = some i) :
    Undone ps b (.args as (p :: pats)) ↔ pats = [] ∧ b.get? i = some (.ofList as) := by
  have hrun : Undone ps b (.args as (p :: pats)) ↔ soak i as pats b = some (.exact, b) := by
    cases as <;> simp [Undone, Goal.run, args, hp]
  rw [hrun, soak_eq_some_iff, Bindings.unify_eq_self, eq_self, true_and]

theorem undone_rest {as : List Arg} (hp : soaking? ps (.type (.param i)) = some i) :
    Undone ps b (.args (b.splice i ++ Arg.substList b as) (.type (.param i) :: as)) ↔
      (Place.param (.arg as.isEmpty) i).IsFilled ps b ∧ ∀ x ∈ Arg.placesList as, x.IsFilled ps b := by
  have hk : kind? ps i = some .tuple := (soaking?_eq_some hp).2
  rw [undone_soak hp]
  constructor
  · rintro ⟨rfl, ha⟩
    rw [Arg.substList, List.append_nil] at ha
    have hflat : b.splice i = Arg.flatten (b.splice i) := by
      conv => lhs; rw [Bindings.splice, ha]
      rfl
    refine ⟨⟨.tuple, _, hk, ha, rfl, rfl, fun elems heq => ?_, by simp⟩, by simp [Arg.placesList]⟩
    obtain rfl := Arg.tuple.inj heq
    rw [← hflat, ← hflat]
  · rintro ⟨⟨k, a, hk', ha, hlast, ht, hflat, -⟩, -⟩
    obtain rfl := Option.some.inj (hk.symm.trans hk')
    obtain rfl : as = [] := by simpa [Spot.takes, ParamKind.isTuple] using hlast
    obtain ⟨elems, rfl⟩ : ∃ elems, a = .tuple elems := by
      cases a <;> first | exact ⟨_, rfl⟩ | cases ht
    refine ⟨rfl, ?_⟩
    rw [Bindings.splice, ha, Arg.substList, List.append_nil]
    exact congrArg (some ∘ Arg.tuple) (hflat rfl).symm

/-- The deduction along a `const` goes on with what is under it. -/
theorem not_undone_const {t : Ty} (h : (t.subst b).isConst = true) :
    ¬Undone ps b (.ty (Ty.subst b (.const t)) (.const t)) := by
  intro hrun
  cases hu : t.subst b with
  | const u =>
    have hrun : ty ps u t b = some (.exact, b) := by
      rwa [Undone, Goal.run, Ty.subst, hu, Ty.constant, ty] at hrun
    have hle := constDepth_subst_le hrun
    rw [hu] at hle
    exact Nat.not_succ_le_self _ hle
  | _ =>
    rw [hu] at h
    cases h

variable (ps b) in
theorem undone_iff :
    (∀ t : Ty, Undone ps b (.ty (t.subst b) t) ↔ ∀ x ∈ t.places, x.IsFilled ps b) ∧
    (∀ a : Arg, soaking? ps a = none → ∀ last rest pats,
      Undone ps b (.args (a.subst b ++ rest) (a :: pats)) ↔
        (∀ x ∈ a.places last, x.IsFilled ps b) ∧ Undone ps b (.args rest pats)) ∧
    ∀ as : List Arg, Undone ps b (.args (Arg.substList b as) as) ↔
      ∀ x ∈ Arg.placesList as, x.IsFilled ps b := by
  apply Ty.induct
  case basic | named | standIn =>
    intro x
    simp [Undone, Goal.run, ty, Ty.subst, Ty.places]
  case error =>
    simp [Undone, Goal.run, ty, Ty.subst, Ty.places, Place.IsFilled]
  case param =>
    intro i
    rw [Ty.places, List.forall_mem_singleton]
    exact undone_param
  case ptr | array =>
    intro t ih
    rw [Ty.places, ← ih]
    simp [Undone, Goal.run, ty, Ty.subst]
  case const =>
    intro t ih
    rw [Ty.places, List.forall_mem_cons, ← ih]
    cases hc : (t.subst b).isConst with
    | false =>
      have hsubst : Ty.subst b (.const t) = .const (t.subst b) := Ty.constant_of_not_isConst hc
      rw [hsubst, show (Place.const t).IsFilled ps b ↔ True from iff_true_intro hc, true_and]
      simp [Undone, Goal.run, ty]
    | true =>
      exact iff_of_false (not_undone_const hc) fun h => Bool.false_ne_true (h.1.symm.trans hc)
  case staticArray =>
    intro t d ih
    rw [Ty.places, List.forall_mem_append, ← ih, ← dim_subst_self_iff]
    exact undone_staticArray
  case inst =>
    intro r as ih
    rw [Ty.places, List.forall_mem_append, ← ih, ← templateRef_subst_self_iff]
    exact undone_inst
  case value =>
    intro t c _ hp last rest pats
    rw [Arg.subst, List.singleton_append, undone_cons_cons hp]
    simp [Undone, Goal.run, arg, Arg.places]
  case symbol =>
    intro s hp last rest pats
    rw [Arg.subst, List.singleton_append, undone_cons_cons hp]
    simp [Undone, Goal.run, arg, Arg.places]
  case tuple =>
    intro elems _ hp last rest pats
    rw [Arg.subst, List.singleton_append, undone_cons_cons hp]
    simp [Undone, Goal.run, arg, Arg.places]
  case type =>
    intro t ih hp last rest pats
    by_cases ht : ∃ i, t = .param i
    · obtain ⟨i, rfl⟩ := ht
      rw [Arg.places, List.forall_mem_singleton]
      exact undone_splice hp last
    · have ht : ∀ i, t ≠ .param i := not_exists.mp ht
      rw [Arg.subst_type ht, Arg.places_type ht, List.singleton_append, undone_cons_cons hp, ← ih,
        Undone, Goal.run, arg.eq_2 _ _ _ _ ht]
      rfl
  case nil =>
    simp [Undone, Goal.run, args, Arg.substList, Arg.placesList]
  case cons =>
    intro a as iha ihas
    rw [Arg.substList, Arg.placesList, List.forall_mem_append]
    cases hp : soaking? ps a with
    | none => rw [iha hp as.isEmpty, ihas]
    | some i =>
      obtain ⟨rfl, -⟩ := soaking?_eq_some hp
      rw [Arg.places, List.forall_mem_singleton]
      exact undone_rest hp

/-- **When deduction undoes substitution.** The pattern with the bindings put in is taken apart along
the pattern, exactly and with no new binding, if and only if each place is filled. -/
theorem ty_subst_iff {P : Ty} : ty ps (P.subst b) P b = some (.exact, b) ↔
    ∀ x ∈ P.places, x.IsFilled ps b :=
  (undone_iff ps b).1 P

end Deduce

end Templates
