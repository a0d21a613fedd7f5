import Mathlib.Logic.Equiv.Basic
import Templates.Proofs.Ranking.Lifting

/-!
# Renamed stand-ins

A renaming gives every stand-in another identity. It is a filling that loses nothing, so that
deduction and matching go the same way with the renamed stand-ins (`Renaming.ty_fill`,
`Renaming.matchType_fill`), whether they succeed or fail. `Renaming.swap` exchanges the stand-ins of
two declarations.
-/

namespace Templates

/-- Other identities for the stand-ins. Real symbols keep theirs. -/
structure Renaming where
  standIn : Equiv.Perm Placeholder
  symbol : Equiv.Perm SymbolId
  symbol_of_real {s : SymbolId} : s.isPlaceholder = false → symbol s = s

namespace Renaming

def filling (r : Renaming) : Filling where
  ty p := .standIn (r.standIn p)
  const p := .standIn (r.standIn p)
  dim p := .standIn (r.standIn p)
  symbol := r.symbol
  symbol_of_real := r.symbol_of_real

/-- The renaming that changes nothing. -/
protected def refl : Renaming := ⟨.refl _, .refl _, fun _ => rfl⟩

/-- The renaming back. -/
protected def symm (r : Renaming) : Renaming where
  standIn := r.standIn.symm
  symbol := r.symbol.symm
  symbol_of_real h := r.symbol.symm_apply_eq.mpr (r.symbol_of_real h).symm

variable (r : Renaming)

theorem filling_symbol (s : SymbolId) : r.filling.symbol s = r.symbol s := rfl

theorem isPlaceholder_symbol (s : SymbolId) :
    (r.symbol s).isPlaceholder = s.isPlaceholder := by
  cases hs : s.isPlaceholder with
  | false => rw [r.symbol_of_real hs, hs]
  | true =>
    cases hr : (r.symbol s).isPlaceholder with
    | true => rfl
    | false =>
      rw [r.symbol.injective (r.symbol_of_real hr), hs] at hr
      cases hr

/-! ## Types -/

theorem fill_const (t : Ty) : (Ty.const t).fill r.filling = .const (t.fill r.filling) := by
  rw [Ty.fill]
  split
  · rfl
  · cases t <;> first | rfl | contradiction

/-- A renaming may be applied to every type. -/
theorem all_proper :
    (∀ t : Ty, t.All (.proper r.filling)) ∧ (∀ a : Arg, a.All (.proper r.filling)) ∧
    (∀ as : List Arg, Arg.AllList (.proper r.filling) as) := by
  refine Ty.induct ?basic ?named ?const ?ptr ?array ?staticArray ?inst ?param ?standIn ?error
    ?type ?value ?symbol ?tuple ?nil ?cons
  case basic | named | param | standIn | symbol => exact fun _ => trivial
  case error | nil => trivial
  case ptr | array | tuple => exact fun _ ih => ih
  case const => exact fun t ih => ⟨r.fill_const t, ih⟩
  case staticArray =>
    intro t d ih
    refine ⟨ih, ?_⟩
    cases d <;> trivial
  case inst =>
    intro q as ih
    refine ⟨?_, ih⟩
    cases q <;> trivial
  case type => exact fun t ih => (Arg.all_type (fun _ => trivial) t).mpr ih
  case value => exact fun _ _ ih => ⟨ih, trivial⟩
  case cons => exact fun _ _ iha ihas => ⟨iha, ihas⟩

theorem all_measured (t : Ty) : t.All (.measured r.filling) :=
  (measured_of_proper r.filling).1 t (r.all_proper.1 t)

theorem mentions_fill :
    (∀ t : Ty, (t.fill r.filling).mentions = t.mentions) ∧
    (∀ a : Arg, (a.fill r.filling).mentions = a.mentions) ∧
    (∀ as : List Arg, Arg.mentionsList (Arg.fillList r.filling as) = Arg.mentionsList as) := by
  refine Ty.induct ?basic ?named ?const ?ptr ?array ?staticArray ?inst ?param ?standIn ?error
    ?type ?value ?symbol ?tuple ?nil ?cons
  case basic | named | param | standIn | symbol => exact fun _ => rfl
  case error | nil => rfl
  case ptr | array | type => exact fun _ ih => ih
  case const =>
    intro t ih
    rw [r.fill_const]
    exact ih
  case staticArray =>
    intro t d ih
    rw [Ty.fill, Ty.mentions, Ty.mentions, ih]
    cases d <;> rfl
  case inst =>
    intro q as ih
    rw [Ty.fill, Ty.mentions, Ty.mentions, ih]
    cases q <;> rfl
  case value => exact fun _ _ _ => rfl
  case tuple => exact fun _ _ => rfl
  case cons =>
    intro a as iha ihas
    rw [Arg.fillList, Arg.mentionsList, Arg.mentionsList, iha, ihas]

theorem hasParams_fill (t : Ty) : (t.fill r.filling).hasParams = t.hasParams := by
  rw [Ty.hasParams, Ty.hasParams, r.mentions_fill.1]

theorem fill_refl :
    (∀ t : Ty, t.fill Renaming.refl.filling = t) ∧
    (∀ a : Arg, a.fill Renaming.refl.filling = a) ∧
    (∀ as : List Arg, Arg.fillList Renaming.refl.filling as = as) := by
  refine Ty.induct ?basic ?named ?const ?ptr ?array ?staticArray ?inst ?param ?standIn ?error
    ?type ?value ?symbol ?tuple ?nil ?cons
  case basic | named | param | standIn | symbol => exact fun _ => rfl
  case error | nil => rfl
  case ptr | array | type | tuple => exact fun _ ih => congrArg _ ih
  case const =>
    intro t ih
    rw [fill_const, ih]
  case staticArray =>
    intro t d ih
    rw [Ty.fill, ih]
    cases d <;> rfl
  case inst =>
    intro q as ih
    rw [Ty.fill, ih]
    cases q <;> rfl
  case value =>
    intro t c ih
    rw [Arg.fill, ih]
    cases c <;> rfl
  case cons =>
    intro a as iha ihas
    rw [Arg.fillList, iha, ihas]

theorem const_fill_symm (c : Const) : (c.fill r.filling).fill r.symm.filling = c := by
  cases c with
  | standIn p => exact congrArg Const.standIn (r.standIn.symm_apply_apply p)
  | _ => rfl

theorem fill_symm :
    (∀ t : Ty, (t.fill r.filling).fill r.symm.filling = t) ∧
    (∀ a : Arg, (a.fill r.filling).fill r.symm.filling = a) ∧
    (∀ as : List Arg, Arg.fillList r.symm.filling (Arg.fillList r.filling as) = as) := by
  have hp (p : Placeholder) : r.symm.standIn (r.standIn p) = p := r.standIn.symm_apply_apply p
  have hs (s : SymbolId) : r.symm.symbol (r.symbol s) = s := r.symbol.symm_apply_apply s
  refine Ty.induct ?basic ?named ?const ?ptr ?array ?staticArray ?inst ?param ?standIn ?error
    ?type ?value ?symbol ?tuple ?nil ?cons
  case basic | named | param => exact fun _ => rfl
  case error | nil => rfl
  case standIn => exact fun p => congrArg Ty.standIn (hp p)
  case symbol => exact fun s => congrArg Arg.symbol (hs s)
  case ptr | array | type | tuple => exact fun _ ih => congrArg _ ih
  case const =>
    intro t ih
    rw [fill_const, fill_const, ih]
  case staticArray =>
    intro t d ih
    rw [Ty.fill, Ty.fill, ih]
    cases d with
    | standIn p => exact congrArg (fun p => Ty.staticArray t (.standIn p)) (hp p)
    | _ => rfl
  case inst =>
    intro q as ih
    rw [Ty.fill, Ty.fill, ih]
    cases q with
    | symbol s => exact congrArg (fun s => Ty.inst (.symbol s) as) (hs s)
    | param => rfl
  case value =>
    intro t c ih
    rw [Arg.fill, Arg.fill, ih, r.const_fill_symm]
  case cons =>
    intro a as iha ihas
    rw [Arg.fillList, Arg.fillList, iha, ihas]

theorem bindings_fill_symm (b : Bindings) : (b.fill r.filling).fill r.symm.filling = b := by
  rw [Bindings.fill, Bindings.fill, List.map_map]
  refine (List.map_congr_left fun a _ => ?_).trans (List.map_id b)
  cases a with
  | none => rfl
  | some a => exact congrArg some (r.fill_symm.2.1 a)

theorem fill_inj {t u : Ty} : t.fill r.filling = u.fill r.filling ↔ t = u := by
  refine ⟨fun h => ?_, congrArg _⟩
  rw [← r.fill_symm.1 t, h, r.fill_symm.1 u]

theorem const_fill_inj {c d : Const} : c.fill r.filling = d.fill r.filling ↔ c = d := by
  refine ⟨fun h => ?_, congrArg _⟩
  rw [← r.const_fill_symm c, h, r.const_fill_symm d]

/-! ## One argument -/

section

open Semantics

/-- The bindings renamed. -/
def fit (r : Renaming) : Fit → Fit := Option.map fun (l, b) => (l, b.fill r.filling)

variable {r}

/-- What fits on one side fits on the other, so what does not fit does not fit on the other. -/
theorem fit_eq {x y : Fit} (h : ∀ l c, x = some (l, c) → y = some (l, c.fill r.filling))
    (h' : ∀ l c, y = some (l, c) → x = some (l, c.fill r.symm.filling)) : y = r.fit x := by
  cases x with
  | some x => exact h _ _ rfl
  | none =>
    cases y with
    | none => rfl
    | some y => cases h' _ _ rfl

variable (r) {ps : List Param} {b : Bindings} {i : ParamIdx}

theorem ty_fill {t pat : Ty} (hps : PlainValues ps) (hp : pat.All .plain) :
    Deduce.ty ps (t.fill r.filling) pat (b.fill r.filling) = r.fit (Deduce.ty ps t pat b) := by
  refine fit_eq (fun l c h => Deduce.ty_fill hps hp (r.all_proper.1 t) h) fun l c h => ?_
  have h := Deduce.ty_fill hps hp (r.symm.all_proper.1 _) h
  rwa [r.fill_symm.1, r.bindings_fill_symm] at h

theorem matchType_fill {p : TypeParam} {a : Arg} (hps : PlainValues ps)
    (hp : ∀ pat, p.spec = some pat → pat.All .plain) :
    matchType i ps p (a.fill r.filling) (b.fill r.filling) = r.fit (matchType i ps p a b) := by
  cases a with
  | value | symbol | tuple => rfl
  | type t =>
    refine fit_eq (fun l c h => Semantics.matchType_fill hps hp (r.all_proper.1 t) h)
      fun l c h => ?_
    have h := Semantics.matchType_fill hps hp (r.symm.all_proper.1 _) h
    rwa [r.fill_symm.1, r.bindings_fill_symm] at h

theorem matchTuple_fill (as : List Arg) :
    matchTuple i (Arg.fillList r.filling as) (b.fill r.filling) = r.fit (matchTuple i as b) := by
  refine fit_eq (fun l c h => Semantics.matchTuple_fill h) fun l c h => ?_
  have h := Semantics.matchTuple_fill (f := r.symm.filling) h
  rwa [r.fill_symm.2.2, r.bindings_fill_symm] at h

theorem unify_fill {a : Arg} (l : Level) :
    ((b.fill r.filling).unify i (a.fill r.filling)).map (l, ·) =
      r.fit ((b.unify i a).map (l, ·)) := by
  refine fit_eq (fun m c h => ?_) fun m c h => ?_
  · obtain ⟨c', hc, h⟩ := Option.map_eq_some_iff.mp h
    cases h
    rw [Bindings.unify_fill hc]
    rfl
  · obtain ⟨c', hc, h⟩ := Option.map_eq_some_iff.mp h
    cases h
    have hc := Bindings.unify_fill (f := r.symm.filling) hc
    rw [r.fill_symm.2.1, r.bindings_fill_symm] at hc
    rw [hc]
    rfl

end

/-! ## The stand-ins of two declarations -/

/-- The symbol with the stand-ins of two declarations exchanged. A stand-in keeps its last 8 bits,
those of the parameter. -/
def swapSymbol (a b : DeclId) (s : SymbolId) : SymbolId :=
  Equiv.swap (.placeholder ⟨a, ⟨s.index⟩⟩) (.placeholder ⟨b, ⟨s.index⟩⟩) s

variable {a b : DeclId}

theorem placeholder_congr {i j : Nat} (h : i % 256 = j % 256) :
    SymbolId.placeholder ⟨a, ⟨i⟩⟩ = .placeholder ⟨a, ⟨j⟩⟩ :=
  SymbolId.placeholder_eq_placeholder_iff.mpr ⟨rfl, h⟩

theorem index_swapSymbol_mod (s : SymbolId) : (swapSymbol a b s).index % 256 = s.index % 256 := by
  rw [swapSymbol, Equiv.swap_apply_def]
  split_ifs
  · exact SymbolId.index_placeholder_mod _
  · exact SymbolId.index_placeholder_mod _
  · rfl

theorem swapSymbol_swapSymbol (s : SymbolId) : swapSymbol a b (swapSymbol a b s) = s := by
  rw [swapSymbol, placeholder_congr (index_swapSymbol_mod s),
    placeholder_congr (index_swapSymbol_mod s), swapSymbol, Equiv.swap_apply_self]

theorem swapSymbol_placeholder (i : ParamIdx) :
    swapSymbol a b (.placeholder ⟨a, i⟩) = .placeholder ⟨b, i⟩ := by
  have h := SymbolId.index_placeholder_mod ⟨a, i⟩
  rw [swapSymbol, placeholder_congr h, placeholder_congr h]
  exact Equiv.swap_apply_left _ _

/-- Exchanges the stand-ins of two declarations. -/
def swap (a b : DeclId) : Renaming where
  standIn := Function.Involutive.toPerm (fun p => ⟨Equiv.swap a b p.decl, p.param⟩) fun p => by
    simp only [Equiv.swap_apply_self]
  symbol := Function.Involutive.toPerm (swapSymbol a b) swapSymbol_swapSymbol
  symbol_of_real {s} h := by
    have hne (c : DeclId) : s ≠ .placeholder ⟨c, ⟨s.index⟩⟩ := by
      intro hs
      rw [hs, SymbolId.isPlaceholder_placeholder] at h
      cases h
    exact Equiv.swap_apply_of_ne_of_ne (hne a) (hne b)

theorem swap_standIn (i : ParamIdx) : (swap a b).standIn ⟨a, i⟩ = ⟨b, i⟩ :=
  congrArg (Placeholder.mk · i) (Equiv.swap_apply_left a b)

theorem swap_placeholder (i : ParamIdx) :
    (swap a b).symbol (.placeholder ⟨a, i⟩) = .placeholder ⟨b, i⟩ := swapSymbol_placeholder i

/-- The stand-ins of one declaration become those of the other. -/
theorem swap_withStandIns :
    (∀ t : Ty, t.All .plain → (t.withStandIns a).fill (swap a b).filling = t.withStandIns b) ∧
    (∀ x : Arg, x.All .plain → (x.withStandIns a).fill (swap a b).filling = x.withStandIns b) ∧
    (∀ xs : List Arg, Arg.AllList .plain xs →
      Arg.fillList (swap a b).filling (Arg.withStandInsList a xs) = Arg.withStandInsList b xs) := by
  have stays {x : Arg} (h : x.All .plain) : x.fill (swap a b).filling = x :=
    ((fill_of_plain _).2.1 x h).1
  refine Ty.induct ?basic ?named ?const ?ptr ?array ?staticArray ?inst ?param ?standIn ?error
    ?type ?value ?symbol ?tuple ?nil ?cons
  case basic | named => exact fun _ _ => rfl
  case error | nil => exact fun _ => rfl
  case param => exact fun i _ => congrArg Ty.standIn (swap_standIn i)
  case standIn => exact fun _ h => h.elim
  case ptr | array => exact fun _ ih h => congrArg _ (ih h)
  case const =>
    intro t ih h
    rw [Ty.withStandIns, Ty.withStandIns, Ty.fill_constant, ih h.2]
  case staticArray =>
    intro t d ih h
    rw [Ty.withStandIns, Ty.withStandIns, Ty.fill, ih h.1]
    cases d with
    | known => rfl
    | param i =>
      exact congrArg (fun p => Ty.staticArray (t.withStandIns b) (.standIn p)) (swap_standIn i)
    | standIn p => exact absurd rfl (h.2 p)
  case inst =>
    intro q xs ih h
    rw [Ty.withStandIns, Ty.withStandIns, Ty.fill, ih h.2]
    cases q with
    | symbol s => exact congrArg (fun s => Ty.inst (.symbol s) _) ((swap a b).symbol_of_real h.1)
    | param i => exact congrArg (fun s => Ty.inst (.symbol s) _) (swap_placeholder i)
  case type =>
    intro t ih h
    exact congrArg Arg.type (ih ((Arg.all_type (fun _ => trivial) t).mp h))
  case value => exact fun t c _ h => stays (x := .value t c) h
  case symbol => exact fun s h => stays (x := .symbol s) h
  case tuple => exact fun xs _ h => stays (x := .tuple xs) h
  case cons =>
    intro x xs ihx ihxs h
    rw [Arg.withStandInsList, Arg.withStandInsList, Arg.fillList, ihx h.1, ihxs h.2]

end Renaming

end Templates
