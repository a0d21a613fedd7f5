import Templates.Match
import Templates.Proofs.Deduction.Sound

/-!
# Visits to parameters

A visit to a parameter adds bindings of the right kinds and takes nothing back. A list of parameters
can be visited in two parts, so that the moment before the visit to a given one can be spoken of.
-/

namespace Templates

section

variable {σ α β : Type}

theorem bind_run (x : StateM σ α) (f : α → StateM σ β) (s : σ) :
    (x >>= f) s = f (x s).1 (x s).2 := rfl

theorem get_run (s : σ) : (get : StateM σ σ) s = (s, s) := rfl

end

namespace Semantics

variable {σ : Type} {sem : Semantics σ} {d : Decl} {i : ParamIdx} {a : Arg} {l : Level}
  {b c : Bindings} {s : σ} {receiver : Option Ty} {args rest : List Arg}

/-! ## One argument -/

/-- The pattern of the parameter has bound what it mentions. Then the parameter itself is bound to
the argument, or to what it was bound to. -/
theorem matchType_eq_some {ps : List Param} {p : TypeParam}
    (h : matchType i ps p a b = some (l, c)) : ∃ t, a = .type t ∧
      (p.spec = none ∧ b.unify i (.type t) = some c ∨
        ∃ pat m b', p.spec = some pat ∧ Deduce.ty ps t pat b = some (m, b') ∧
          ((∃ own, b'.get? i = some (.type own) ∧ c = b') ∨
            b'.get? i = none ∧ b'.unify i (.type t) = some c)) := by
  unfold matchType at h
  cases a with
  | type t =>
    refine ⟨t, rfl, ?_⟩
    dsimp only at h
    cases hp : p.spec with
    | none =>
      rw [hp] at h
      obtain ⟨c', hc, h⟩ := Option.map_eq_some_iff.mp h
      cases h
      exact .inl ⟨rfl, hc⟩
    | some pat =>
      rw [hp] at h
      obtain ⟨⟨m, b'⟩, hb', h⟩ := Option.bind_eq_some_iff.mp h
      obtain ⟨c', hc, h⟩ := Option.map_eq_some_iff.mp h
      cases h
      refine .inr ⟨pat, m, b', rfl, hb', ?_⟩
      split at hc
      · next own hown =>
        obtain ⟨-, ⟨hn, -⟩ | ⟨-, rfl⟩⟩ := Bindings.unify_eq_some_iff.mp hc
        · rw [hown] at hn
          cases hn
        · exact .inl ⟨own, hown, rfl⟩
      · next hno =>
        refine .inr ⟨(Bindings.get?_of_unify hc).resolve_right (hno t), hc⟩
  | value | symbol | tuple => cases h

theorem matchValue_eq_some {p : ValueParam}
    (h : (sem.matchValue i d p a b s).1 = some (l, c)) :
    ∃ v, sem.convert? s p a b = some (l, v) ∧ b.unify i (.ofValue v) = some c := by
  have bound {m : Level} {v : Value} (h : (b.unify i (.ofValue v)).map (m, ·) = some (l, c)) :
      m = l ∧ b.unify i (.ofValue v) = some c := by
    obtain ⟨c', hc, h⟩ := Option.map_eq_some_iff.mp h
    cases h
    exact ⟨rfl, hc⟩
  rw [matchValue, bind_run, get_run] at h
  dsimp only at h
  rcases hv : sem.convert? s p a b with _ | ⟨m, v⟩ <;> rw [hv] at h
  · cases h
  · cases hp : p.spec with
    | none =>
      rw [hp] at h
      obtain ⟨rfl, hc⟩ := bound h
      exact ⟨v, rfl, hc⟩
    | some e =>
      rw [hp] at h
      dsimp only at h
      rw [bind_run, bind_run] at h
      rcases he : (sem.evaluate e _ _).1 with f | expected <;> rw [he] at h
      · cases h
      · dsimp only at h
        split at h
        · obtain ⟨rfl, hc⟩ := bound h
          exact ⟨v, rfl, hc⟩
        · cases h

theorem matchSymbol_eq_some {ps : List Param} {p : SymbolParam}
    (h : sem.matchSymbol s i ps p a b = some (l, c)) : ∃ x, a = .symbol x ∧
      (p.specType = none ∧ b.unify i a = some c ∨
        ∃ pat t m b', p.specType = some pat ∧ sem.symbolType s x = some t ∧
          Deduce.ty ps t pat b = some (m, b') ∧ b'.unify i a = some c) := by
  unfold matchSymbol at h
  cases a with
  | symbol x =>
    refine ⟨x, rfl, ?_⟩
    dsimp only at h
    split at h
    · cases h
    · cases hp : p.specType with
      | none =>
        rw [hp] at h
        obtain ⟨c', hc, h⟩ := Option.map_eq_some_iff.mp h
        cases h
        exact .inl ⟨rfl, hc⟩
      | some pat =>
        rw [hp] at h
        dsimp only at h
        split at h
        · cases h
        · obtain ⟨t, ht, h⟩ := Option.bind_eq_some_iff.mp h
          obtain ⟨⟨m, b'⟩, hb', h⟩ := Option.bind_eq_some_iff.mp h
          obtain ⟨c', hc, h⟩ := Option.map_eq_some_iff.mp h
          cases h
          exact .inr ⟨pat, t, m, b', rfl, ht, hb', hc⟩
  | type | value | tuple => cases h

/-- A symbol that matches is the one that is asked for. -/
theorem canonicalSymbol_of_matchSymbol {ps : List Param} {p : SymbolParam} {x y : SymbolId}
    (h : sem.matchSymbol s i ps p (.symbol x) b = some (l, c)) (hy : p.specSymbol = some y) :
    sem.canonicalSymbol s y = x := by
  unfold matchSymbol at h
  dsimp only at h
  split at h
  · cases h
  · next hspec =>
    rw [hy] at hspec
    simpa using hspec

theorem matchTuple_eq_some (h : matchTuple i rest b = some (l, c)) :
    rest = [] ∧ (b.get? i).isSome ∧ c = b ∨ b.unify i (.ofList rest) = some c := by
  unfold matchTuple at h
  split at h
  · next hr =>
    cases h
    rw [Bool.and_eq_true, List.isEmpty_iff] at hr
    exact .inl ⟨hr.1, hr.2, rfl⟩
  · obtain ⟨c', hc, h⟩ := Option.map_eq_some_iff.mp h
    cases h
    exact .inr hc

theorem matchTuple_fills (hi : Deduce.kind? d.params i = some .tuple)
    (h : matchTuple i rest b = some (l, c)) : b.Fills d.params c := by
  obtain ⟨-, -, rfl⟩ | hc := matchTuple_eq_some h
  · exact .refl _ _
  · exact Bindings.unify_fills hi rfl hc

theorem matchArg_fills {k : ParamKind} (hi : Deduce.kind? d.params i = some k)
    (h : (sem.matchArg d i k a b s).1 = some (l, c)) : b.Fills d.params c := by
  cases k with
  | type p | this p =>
    have h : matchType i d.params p a b = _ := h
    obtain ⟨t, -, ⟨-, hc⟩ | ⟨pat, m, b', -, hb', ⟨own, -, rfl⟩ | ⟨-, hc⟩⟩⟩ := matchType_eq_some h
    · exact Bindings.unify_fills hi rfl hc
    · exact Deduce.ty_fills hb'
    · exact (Deduce.ty_fills hb').trans (Bindings.unify_fills hi rfl hc)
  | value p =>
    obtain ⟨v, -, hc⟩ := matchValue_eq_some h
    exact Bindings.unify_fills hi rfl hc
  | symbol p =>
    have h : sem.matchSymbol s i d.params p a b = _ := h
    obtain ⟨x, rfl, ⟨-, hc⟩ | ⟨pat, t, m, b', -, -, hb', hc⟩⟩ := matchSymbol_eq_some h
    · exact Bindings.unify_fills hi rfl hc
    · exact (Deduce.ty_fills hb').trans (Bindings.unify_fills hi rfl hc)
  | tuple =>
    have h : matchTuple i [a] b = _ := h
    exact matchTuple_fills hi h

/-! ## One parameter -/

theorem visitArg_eq_ok {k : ParamKind} (h : (sem.visitArg d i k a b s).1 = .ok (l, c)) :
    (sem.matchArg d i k a b s).1 = some (l, c) := by
  rw [visitArg, bind_run] at h
  rcases hm : (sem.matchArg d i k a b s).1 with _ | r <;> rw [hm] at h <;> cases h
  rfl

theorem visitMissing_fills {k : ParamKind} (hi : Deduce.kind? d.params i = some k)
    (h : (sem.visitMissing d i k b s).1 = .ok (l, c)) : b.Fills d.params c := by
  unfold visitMissing at h
  split at h
  · cases h
    exact .refl _ b
  · split at h
    · cases h
    · rw [bind_run, bind_run] at h
      rcases hd : (sem.defaultArg k _ b _).1 with _ | _ | a <;> rw [hd] at h
      · cases h
      · cases h
      · exact matchArg_fills hi (visitArg_eq_ok h)

theorem visitParam_cons {k : ParamKind} (hthis : k.isThis = false) (htuple : k.isTuple = false) :
    sem.visitParam d receiver i k (a :: rest) b = (sem.visitArg d i k a b, rest) := by
  cases k with
  | this => cases hthis
  | tuple => cases htuple
  | type | value | symbol => rfl

theorem visitParam_nil {k : ParamKind} (hthis : k.isThis = false) (htuple : k.isTuple = false) :
    sem.visitParam d receiver i k [] b = (sem.visitMissing d i k b, []) := by
  cases k with
  | this => cases hthis
  | tuple => cases htuple
  | type | value | symbol => rfl

theorem visitParam_fills {k : ParamKind} (hi : Deduce.kind? d.params i = some k)
    (h : ((sem.visitParam d receiver i k args b).1 s).1 = .ok (l, c)) : b.Fills d.params c := by
  cases k with
  | tuple =>
    change ((matchTuple i args b).map Except.ok).getD (.error (Rejection.mismatch i)) = _ at h
    rcases hm : matchTuple i args b with _ | r <;> rw [hm] at h <;> cases h
    exact matchTuple_fills hi hm
  | this p =>
    cases receiver with
    | some t => exact matchArg_fills hi (visitArg_eq_ok h)
    | none => exact visitMissing_fills hi h
  | type p | value p | symbol p =>
    cases args with
    | cons a rest => exact matchArg_fills hi (visitArg_eq_ok h)
    | nil => exact visitMissing_fills hi h

/-! ## All parameters -/

variable {n : Nat} {ps qs : List Param} {m : Level}

theorem visitParams_cons {p : Param} : sem.visitParams d receiver n (p :: ps) args l b s =
    match (sem.visitParam d receiver ⟨n⟩ p.kind args b).1 s with
    | (.error why, s) => (.error why, s)
    | (.ok (m, c), s) =>
      sem.visitParams d receiver (n + 1) ps (sem.visitParam d receiver ⟨n⟩ p.kind args b).2
        (min l m) c s := by
  rw [visitParams]
  rcases sem.visitParam d receiver ⟨n⟩ p.kind args b with ⟨visit, rest⟩
  dsimp only
  rw [bind_run]
  rcases visit s with ⟨_ | r, s'⟩ <;> rfl

theorem visitParams_append : sem.visitParams d receiver n (ps ++ qs) args l b s =
    match sem.visitParams d receiver n ps args l b s with
    | (.error why, s) => (.error why, s)
    | (.ok (m, c, rest), s) => sem.visitParams d receiver (n + ps.length) qs rest m c s := by
  induction ps generalizing n args l b s with
  | nil => rfl
  | cons p ps ih =>
    rw [List.cons_append, visitParams_cons, visitParams_cons]
    rcases (sem.visitParam d receiver ⟨n⟩ p.kind args b).1 s with ⟨_ | ⟨m, c⟩, s'⟩
    · rfl
    · dsimp only
      rw [ih, List.length_cons, Nat.add_right_comm, Nat.add_assoc]

/-- The first of the parameters that are left. -/
theorem kind?_of_drop {p : Param} (h : qs.drop n = p :: ps) :
    Deduce.kind? qs ⟨n⟩ = some p.kind ∧ qs.drop (n + 1) = ps := by
  constructor
  · rw [Deduce.kind?, ← List.head?_drop, h]
    rfl
  · rw [← List.tail_drop, h]
    rfl

theorem visitParams_fills (hps : d.params.drop n = ps)
    (h : (sem.visitParams d receiver n ps args l b s).1 = .ok (m, c, rest)) :
    b.Fills d.params c := by
  induction ps generalizing n args l b s with
  | nil =>
    cases h
    exact .refl _ _
  | cons p ps ih =>
    obtain ⟨hi, htail⟩ := kind?_of_drop hps
    rw [visitParams_cons] at h
    rcases hp : (sem.visitParam d receiver ⟨n⟩ p.kind args b).1 s with ⟨_ | ⟨k, b'⟩, s'⟩ <;>
      rw [hp] at h
    · cases h
    · exact (visitParam_fills hi (congrArg Prod.fst hp)).trans (ih htail h)

/-- Every parameter but the sequence and `this` takes one argument. -/
theorem visitParams_rest (h : (sem.visitParams d receiver n ps args l b s).1 = .ok (m, c, rest))
    (hps : ∀ p ∈ ps, p.isTuple = false) : rest = args.drop (ps.countP fun p => !p.isThis) := by
  induction ps generalizing n args l b s with
  | nil =>
    cases h
    rfl
  | cons p ps ih =>
    rw [visitParams_cons] at h
    rcases hp : (sem.visitParam d receiver ⟨n⟩ p.kind args b).1 s with ⟨_ | ⟨k, b'⟩, s'⟩ <;>
      rw [hp] at h
    · cases h
    · have hp := hps p List.mem_cons_self
      rw [ih h fun q hq => hps q (List.mem_cons_of_mem p hq), List.countP_cons]
      rcases p with ⟨name, span, dependent, kind⟩
      cases kind with
      | tuple => cases hp
      | this q =>
        cases receiver <;> rfl
      | type q | value q | symbol q =>
        cases args with
        | nil => simp [visitParam]
        | cons a args => exact (List.drop_succ_cons ..).symm

end Semantics

end Templates
