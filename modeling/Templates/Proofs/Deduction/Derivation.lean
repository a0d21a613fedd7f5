import Templates.Proofs.Deduction.Bindings

/-!
# Deduction as a relation

`Deduction.Derives` says with which steps a type is taken apart along a pattern. A deduction succeeds
exactly if there is such a derivation (`Deduce.ty_eq_some_iff`), so that facts about deduction are
shown by induction on it.
-/

namespace Templates

namespace Deduce

/-- What is taken apart, and along which pattern. -/
inductive Goal
  | ty (t pat : Ty)
  | arg (a pat : Arg)
  | args (as pats : List Arg)

/-- The goal is met at the level with bindings that lead from the first to the second. -/
inductive Derives (ps : List Param) : Goal → Bindings → Level → Bindings → Prop
  | param {t i b c} : tyParam ps i t b = some c → Derives ps (.ty t (.param i)) b .exact c
  | const {t p b l c} : Derives ps (.ty t p) b l c → Derives ps (.ty (.const t) (.const p)) b l c
  /-- The pattern has no `const` here. -/
  | unqualify {t p b l c} : (∀ i, p ≠ .param i) → (∀ q, p ≠ .const q) → Derives ps (.ty t p) b l c →
    Derives ps (.ty (.const t) p) b (min l .constant) c
  | basic {x b} : Derives ps (.ty (.basic x) (.basic x)) b .exact b
  | named {s b} : Derives ps (.ty (.named s) (.named s)) b .exact b
  | standIn {p b} : Derives ps (.ty (.standIn p) (.standIn p)) b .exact b
  | ptr {t p b l c} : Derives ps (.ty t p) b l c → Derives ps (.ty (.ptr t) (.ptr p)) b l c
  | array {t p b l c} : Derives ps (.ty t p) b l c → Derives ps (.ty (.array t) (.array p)) b l c
  | staticArray {t p d n b l c e} : Derives ps (.ty t p) b l c → dim ps d n c = some e →
    Derives ps (.ty (.staticArray t d) (.staticArray p n)) b l e
  | inst {r q as pats b c l e} : templateRef ps r q b = some c → Derives ps (.args as pats) c l e →
    Derives ps (.ty (.inst r as) (.inst q pats)) b l e
  | argParam {a i b c} : argParam ps i a b = some c → Derives ps (.arg a (.type (.param i))) b .exact c
  | type {t p b l c} : (∀ i, p ≠ .param i) → Derives ps (.ty t p) b l c →
    Derives ps (.arg (.type t) (.type p)) b l c
  | value {t u x b} : Derives ps (.arg (.value t x) (.value u x)) b .exact b
  | symbol {s b} : Derives ps (.arg (.symbol s) (.symbol s)) b .exact b
  | tuple {as b} : Derives ps (.arg (.tuple as) (.tuple as)) b .exact b
  | nil {b} : Derives ps (.args [] []) b .exact b
  /-- A sequence parameter takes the rest. -/
  | soak {as p i b c} : soaking? ps p = some i → b.unify i (.ofList as) = some c →
    Derives ps (.args as [p]) b .exact c
  | cons {a as p pats b l c m e} : soaking? ps p = none → Derives ps (.arg a p) b l c →
    Derives ps (.args as pats) c m e → Derives ps (.args (a :: as) (p :: pats)) b (min l m) e

variable {ps : List Param} {b c : Bindings} {l : Level} {i : ParamIdx} {pats : List Arg}

/-- What deduction gives for a goal. -/
def Goal.run (ps : List Param) : Goal → Bindings → Option (Level × Bindings)
  | .ty t pat, b => Deduce.ty ps t pat b
  | .arg a pat, b => Deduce.arg ps a pat b
  | .args as pats, b => Deduce.args ps as pats b

theorem soak_eq_some_iff {as : List Arg} : soak i as pats b = some (l, c) ↔
    pats = [] ∧ l = .exact ∧ b.unify i (.ofList as) = some c := by
  unfold soak
  cases pats with
  | nil =>
    simp only [List.isEmpty_nil, if_true, Option.map_eq_some_iff, Prod.mk.injEq, true_and]
    constructor
    · rintro ⟨_, hc, rfl, rfl⟩
      exact ⟨rfl, hc⟩
    · rintro ⟨rfl, hc⟩
      exact ⟨c, hc, rfl, rfl⟩
  | cons => simp

theorem soaking?_eq_some {p : Arg} (h : soaking? ps p = some i) :
    p = .type (.param i) ∧ kind? ps i = some .tuple := by
  unfold soaking? at h
  split at h
  · split at h
    · cases h
      exact ⟨rfl, ‹_›⟩
    · cases h
  · cases h

variable (ps) in
theorem derives_of_run :
    (∀ t pat b, ∀ l c, (Goal.ty t pat).run ps b = some (l, c) → Derives ps (.ty t pat) b l c) ∧
    (∀ as pats b, ∀ l c, (Goal.args as pats).run ps b = some (l, c) →
      Derives ps (.args as pats) b l c) ∧
    (∀ a pat b, ∀ l c, (Goal.arg a pat).run ps b = some (l, c) → Derives ps (.arg a pat) b l c) := by
  refine ty.mutual_induct_unfolding ps
    (fun t pat b r => ∀ l c, r = some (l, c) → Derives ps (.ty t pat) b l c)
    (fun as pats b r => ∀ l c, r = some (l, c) → Derives ps (.args as pats) b l c)
    (fun a pat b r => ∀ l c, r = some (l, c) → Derives ps (.arg a pat) b l c)
    ?param ?const ?noConst ?unqualify ?basic ?basicNe ?named ?namedNe ?standIn ?standInNe ?ptr
    ?array ?staticArray ?inst ?noTy ?argParam ?type ?value ?valueNe ?symbol ?symbolNe ?tuple
    ?tupleNe ?noArg ?nil ?soakNil ?tooMany ?soak ?cons
  case param | argParam =>
    intro t i b l c h
    obtain ⟨c', hc, h⟩ := Option.map_eq_some_iff.mp h
    cases h
    constructor
    exact hc
  case const =>
    intro t p b ih l c h
    exact .const (ih l c h)
  case unqualify =>
    intro t p b hi hq ih l c h
    obtain ⟨⟨m, c'⟩, hc, h⟩ := Option.map_eq_some_iff.mp h
    cases h
    exact .unqualify hi hq (ih _ _ hc)
  case basic | named | standIn =>
    intro x b l c h
    cases h
    constructor
  case ptr =>
    intro t p b ih l c h
    exact .ptr (ih l c h)
  case array =>
    intro t p b ih l c h
    exact .array (ih l c h)
  case staticArray =>
    intro t d p n b ih l c h
    obtain ⟨⟨m, c'⟩, hc, h⟩ := Option.bind_eq_some_iff.mp h
    obtain ⟨e, he, h⟩ := Option.map_eq_some_iff.mp h
    cases h
    exact .staticArray (ih _ c' hc) he
  case inst =>
    intro r as q pats b ih l c h
    obtain ⟨c', hc, h⟩ := Option.bind_eq_some_iff.mp h
    exact .inst hc (ih c' l c h)
  case type =>
    intro t p b hi ih l c h
    exact .type hi (ih l c h)
  case value =>
    intro t u x b l c h
    cases h
    exact .value
  case symbol | tuple =>
    intro x b l c h
    cases h
    constructor
  case nil =>
    intro b l c h
    cases h
    exact .nil
  case soakNil =>
    intro p pats b l c h
    obtain ⟨i, hi, h⟩ := Option.bind_eq_some_iff.mp h
    obtain ⟨rfl, rfl, hc⟩ := soak_eq_some_iff.mp h
    exact .soak hi hc
  case soak =>
    intro a as p pats b i hi l c h
    obtain ⟨rfl, rfl, hc⟩ := soak_eq_some_iff.mp h
    exact .soak hi hc
  case cons =>
    intro a as p pats b hi iha ihas l c h
    obtain ⟨⟨m, c'⟩, hc, h⟩ := Option.bind_eq_some_iff.mp h
    obtain ⟨⟨k, e⟩, he, h⟩ := Option.map_eq_some_iff.mp h
    cases h
    exact .cons hi (iha m c' hc) (ihas c' k _ he)
  all_goals
    intros
    contradiction

theorem Derives.run {g : Goal} (h : Derives ps g b l c) : g.run ps b = some (l, c) := by
  induction h with
  | param h | argParam h => simp [Goal.run, ty, arg, h]
  | const _ ih => exact ih
  | @unqualify t p _ _ _ hi hq _ ih =>
    change ty ps (.const t) p _ = _
    rw [ty.eq_4 _ _ _ _ hi hq, show ty ps t p _ = _ from ih]
    rfl
  | basic | named | standIn | value | symbol | tuple => simp [Goal.run, ty, arg]
  | ptr _ ih | array _ ih => simpa [Goal.run, ty] using ih
  | staticArray _ hd ih =>
    have ih : ty ps _ _ _ = _ := ih
    simp [Goal.run, ty, ih, hd]
  | inst hr _ ih =>
    have ih : args ps _ _ _ = _ := ih
    simp [Goal.run, ty, ih, hr]
  | type hi _ ih => exact (arg.eq_2 _ _ _ _ hi).trans ih
  | nil => rfl
  | @soak as p i _ _ hi h =>
    have hs := soak_eq_some_iff.mpr ⟨rfl, rfl, h⟩
    cases as <;> simp [Goal.run, args, hi, hs]
  | cons hi _ _ iha ihas =>
    have iha : arg ps _ _ _ = _ := iha
    have ihas : args ps _ _ _ = _ := ihas
    simp [Goal.run, args, hi, iha, ihas]

theorem run_eq_some_iff {g : Goal} : g.run ps b = some (l, c) ↔ Derives ps g b l c := by
  refine ⟨fun h => ?_, Derives.run⟩
  cases g with
  | ty t pat => exact (derives_of_run ps).1 t pat b l c h
  | arg a pat => exact (derives_of_run ps).2.2 a pat b l c h
  | args as pats => exact (derives_of_run ps).2.1 as pats b l c h

end Deduce

end Templates
