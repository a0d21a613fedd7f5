import Mathlib.Data.List.TakeWhile
import Templates.Proofs.Ranking.Core

/-!
# Numbers of arguments

A visit binds the parameter itself and what its pattern mentions (`Semantics.visitParam_binds`). So
a parameter that no earlier pattern mentions is free until its turn comes and must then get an
argument (`Semantics.front_length_le`), and a sequence of such a declaration takes any number of
them (`Semantics.matchDecl_append`).
-/

namespace Templates

namespace Semantics

variable {σ : Type} {sem : Semantics σ} {d : Decl} {i j : ParamIdx} {k : ParamKind} {a : Arg}
  {args rest xs ys : List Arg} {b c : Bindings} {n : Nat} {l m : Level} {s : σ}
  {ps qs : List Param}

/-! ## What a visit binds -/

theorem matchType_binds {p : TypeParam} (h : matchType i ps p a b = some (l, c)) :
    Bindings.Binds (i :: (ParamKind.type p).patternRefs) b c := by
  obtain ⟨t, rfl, ⟨-, hu⟩ | ⟨pat, m, b', hp, hded, hown⟩⟩ := matchType_eq_some h
  · exact (Bindings.unify_binds hu).mono (List.cons_subset_cons i (List.nil_subset _))
  · have hrefs : pat.mentions ⊆ i :: (ParamKind.type p).patternRefs := fun j hj =>
      List.mem_cons_of_mem i (ParamKind.mem_patternRefs.mpr ⟨pat, hp, hj⟩)
    have hbinds := (Deduce.ty_binds hded).mono hrefs
    obtain ⟨own, -, rfl⟩ | ⟨-, hu⟩ := hown
    · exact hbinds
    · refine (hbinds.trans (Bindings.unify_binds hu)).mono ?_
      exact List.append_subset.mpr
        ⟨List.Subset.refl _, List.cons_subset_cons i (List.nil_subset _)⟩

theorem matchSymbol_binds {p : SymbolParam} (h : sem.matchSymbol s i ps p a b = some (l, c)) :
    Bindings.Binds (i :: (ParamKind.symbol p).patternRefs) b c := by
  obtain ⟨x, rfl, ⟨-, hu⟩ | ⟨pat, t, m, b', hp, -, hded, hu⟩⟩ := matchSymbol_eq_some h
  · exact (Bindings.unify_binds hu).mono (List.cons_subset_cons i (List.nil_subset _))
  · have hrefs : pat.mentions ⊆ i :: (ParamKind.symbol p).patternRefs := fun j hj =>
      List.mem_cons_of_mem i (ParamKind.mem_patternRefs.mpr ⟨pat, hp, hj⟩)
    refine (((Deduce.ty_binds hded).mono hrefs).trans (Bindings.unify_binds hu)).mono ?_
    exact List.append_subset.mpr
      ⟨List.Subset.refl _, List.cons_subset_cons i (List.nil_subset _)⟩

theorem matchTuple_binds (h : matchTuple i rest b = some (l, c)) : Bindings.Binds [i] b c := by
  obtain ⟨-, -, rfl⟩ | hu := matchTuple_eq_some h
  · exact .refl _ _
  · exact Bindings.unify_binds hu

theorem matchArg_binds (h : (sem.matchArg d i k a b s).1 = some (l, c)) :
    Bindings.Binds (i :: k.patternRefs) b c := by
  have hself : [i] ⊆ i :: k.patternRefs := List.cons_subset_cons i (List.nil_subset _)
  cases k with
  | type p | this p => exact matchType_binds (show matchType i d.params p a b = _ from h)
  | value p =>
    obtain ⟨v, -, hu⟩ := matchValue_eq_some h
    exact (Bindings.unify_binds hu).mono hself
  | symbol p => exact matchSymbol_binds (show sem.matchSymbol s i d.params p a b = _ from h)
  | tuple =>
    have h : matchTuple i [a] b = _ := h
    exact (matchTuple_binds h).mono hself

/-- A visit binds the parameter and what its pattern mentions. -/
theorem visitParam_binds (hk : k.Plain sem)
    (h : ((sem.visitParam d none i k args b).1 s).1 = .ok (l, c)) :
    Bindings.Binds (i :: k.patternRefs) b c := by
  have hmissing (h : (sem.visitMissing d i k b s).1 = .ok (l, c)) :
      Bindings.Binds (i :: k.patternRefs) b c := by
    obtain ⟨-, -, rfl⟩ := (visitMissing_eq_ok_iff hk.hasDefault).mp h
    exact .refl _ _
  cases k with
  | this => cases hk.isThis
  | tuple =>
    change ((matchTuple i args b).map Except.ok).getD (.error (Rejection.mismatch i)) = _ at h
    rcases hm : matchTuple i args b with _ | r <;> rw [hm] at h <;> cases h
    exact (matchTuple_binds hm).mono (List.cons_subset_cons i (List.nil_subset _))
  | type | value | symbol =>
    cases args with
    | nil => exact hmissing h
    | cons a args => exact matchArg_binds (visitArg_eq_ok h)

theorem visitParams_binds (hps : PlainParams sem qs)
    (h : (sem.visitParams d none n qs args l b s).1 = .ok (m, c, rest)) :
    Bindings.Binds ((qs.zipIdx n).flatMap fun q => ⟨q.2⟩ :: q.1.kind.patternRefs) b c := by
  induction qs generalizing n args l b s with
  | nil =>
    cases h
    exact .refl _ _
  | cons q qs ih =>
    rw [visitParams_cons] at h
    rcases hv : (sem.visitParam d none ⟨n⟩ q.kind args b).1 s with ⟨_ | ⟨k, b'⟩, s'⟩ <;>
      rw [hv] at h
    · cases h
    · rw [List.zipIdx_cons, List.flatMap_cons]
      exact (visitParam_binds (hps q List.mem_cons_self) (congrArg Prod.fst hv)).trans
        (ih (fun q hq => hps q (List.mem_cons_of_mem _ hq)) h)

/-! ## Parameters that need an argument -/

/-- **A parameter that no earlier pattern mentions needs an argument.** -/
theorem takeWhile_length_le (hacc : d.Accepted) (hd : d.Plain sem) (hqs : d.params.drop n = qs)
    (hfree : ∀ j p, n ≤ j → d.params[j]? = some p → p.dependent = false → b.get? ⟨j⟩ = none)
    (h : (sem.visitParams d none n qs args l b s).1 = .ok (m, c, rest)) :
    (qs.takeWhile fun p => !(p.dependent || p.isTuple)).length ≤ args.length := by
  induction qs generalizing n args l b s with
  | nil => exact Nat.zero_le _
  | cons q qs ih =>
    obtain ⟨hi, htail⟩ := kind?_of_drop hqs
    have hget : d.params[n]? = some q := by rw [← List.head?_drop, hqs]; rfl
    have hplain := hd.kind hi
    rw [List.takeWhile_cons]
    split
    · next hgo =>
      rw [Bool.not_eq_true', Bool.or_eq_false_iff] at hgo
      obtain ⟨hdep, htuple⟩ := hgo
      have hthis := hplain.isThis
      have htuple : q.kind.isTuple = false := htuple
      rw [visitParams_cons] at h
      rcases hv : (sem.visitParam d none ⟨n⟩ q.kind args b).1 s with ⟨_ | ⟨k, b'⟩, s'⟩ <;>
        rw [hv] at h
      · cases h
      · have hv := congrArg Prod.fst hv
        have hbinds := visitParam_binds hplain hv
        cases args with
        | nil =>
          have hbound : (b.get? ⟨n⟩).isSome := by
            rw [visitParam_nil hthis htuple] at hv
            exact ((visitMissing_eq_ok_iff hplain.hasDefault).mp hv).1
          rw [hfree n q (Nat.le_refl n) hget hdep] at hbound
          cases hbound
        | cons a args =>
          rw [visitParam_cons hthis htuple] at h
          refine Nat.succ_le_succ (ih htail (fun j p hj hp hdep => ?_) h)
          rw [hbinds.only fun hmem => ?_, hfree j p (Nat.le_of_succ_le hj) hp hdep]
          obtain heq | hmem := List.mem_cons.mp hmem
          · cases heq
            exact Nat.not_succ_le_self n hj
          · rw [(hacc.dependent_iff hp).mpr ⟨q, Decl.mem_take hget hj, hmem⟩] at hdep
            cases hdep
    · exact Nat.zero_le _

theorem front_length_le {ded : Deduction} (hacc : d.Accepted) (hd : d.Plain sem)
    (h : (sem.matchDecl d args none .rank s).1 = .ok ded) : d.front.length ≤ args.length :=
  takeWhile_length_le hacc hd rfl (fun _ _ _ _ _ => Bindings.get?_free ..) (matchDecl_eq_ok h)

/-! ## Sequences -/

/-- Each parameter takes an argument, so that those after them are left. -/
theorem visitParams_append_args (hthis : ∀ q ∈ qs, q.isThis = false)
    (htuple : ∀ q ∈ qs, q.isTuple = false) (hlen : qs.length ≤ xs.length) :
    sem.visitParams d none n qs (xs ++ ys) l b s =
      ((sem.visitParams d none n qs xs l b s).1.map fun r => (r.1, r.2.1, r.2.2 ++ ys),
        (sem.visitParams d none n qs xs l b s).2) := by
  induction qs generalizing n xs l b s with
  | nil => rfl
  | cons q qs ih =>
    obtain ⟨x, xs, rfl⟩ := List.exists_cons_of_length_pos (Nat.lt_of_lt_of_le (Nat.succ_pos _) hlen)
    rw [List.cons_append, visitParams_cons, visitParams_cons,
      visitParam_cons (hthis q List.mem_cons_self) (htuple q List.mem_cons_self),
      visitParam_cons (hthis q List.mem_cons_self) (htuple q List.mem_cons_self)]
    dsimp only
    rcases sem.visitArg d ⟨n⟩ q.kind x b s with ⟨_ | ⟨m, c⟩, s'⟩
    · rfl
    · exact ih (fun q hq => hthis q (List.mem_cons_of_mem _ hq))
        (fun q hq => htuple q (List.mem_cons_of_mem _ hq)) (Nat.le_of_succ_le_succ hlen)

theorem visitParams_tuple {t : Param} (ht : t.isTuple = true) (hfree : b.get? ⟨n⟩ = none)
    (hn : n < b.length) : sem.visitParams d none n [t] args l b s =
      (.ok (l, b.set n (some (.ofList args)), []), s) := by
  have hkind : t.kind = .tuple := by
    rw [Param.isTuple] at ht
    cases hk : t.kind with
    | tuple => rfl
    | _ => cases hk ▸ ht
  have hunify : b.unify ⟨n⟩ (.ofList args) = some (b.set n (some (.ofList args))) :=
    Bindings.unify_eq_some_iff.mpr ⟨hn, .inl ⟨hfree, rfl⟩⟩
  have hmatch : matchTuple ⟨n⟩ args b = some (.exact, b.set n (some (.ofList args))) := by
    rw [matchTuple, hfree, hunify]
    simp
  rw [visitParams_cons, hkind]
  unfold visitParam
  dsimp only
  rw [hmatch]
  exact congrArg (fun l => (Except.ok (l, b.set n (some (.ofList args)), []), s))
    (Level.min_exact l)

end Semantics

/-- A sequence that stays open comes after parameters that all have a stand-in. -/
theorem Decl.Accepted.front_append {d : Decl} (hacc : d.Accepted) (hvar : d.isVariadic = true)
    (hdep : ∀ p ∈ d.params, p.dependent = false) :
    ∃ t, d.params = d.front ++ [t] ∧ t.isTuple = true ∧ ∀ p ∈ d.front, p.isTuple = false := by
  obtain ⟨qs, t, hparams, ht⟩ : ∃ qs t, d.params = qs ++ [t] ∧ t.isTuple = true := by
    unfold Decl.isVariadic Decl.variadic? at hvar
    cases hlast : d.params.getLast? with
    | none =>
      rw [hlast] at hvar
      cases hvar
    | some t =>
      rw [hlast] at hvar
      obtain ⟨qs, hqs⟩ := List.getLast?_eq_some_iff.mp hlast
      refine ⟨qs, t, hqs, Bool.not_eq_false _ |>.mp fun ht => ?_⟩
      simp [ht] at hvar
  have hqs (q : Param) (hq : q ∈ qs) : q.isTuple = false := by
    obtain ⟨j, hj⟩ := List.mem_iff_getElem?.mp hq
    obtain ⟨hlt, -⟩ := List.getElem?_eq_some_iff.mp hj
    refine Bool.eq_false_iff.mpr fun htuple => ?_
    have hlast := hacc.tuple_last (i := j) (by rw [hparams, List.getElem?_append_left hlt, hj])
      htuple
    rw [hparams, List.length_append, List.length_singleton] at hlast
    omega
  have hfront : d.front = qs := by
    unfold Decl.front
    rw [hparams, List.takeWhile_append_of_pos]
    · simp [ht]
    · intro q hq
      rw [hdep q (hparams ▸ List.mem_append_left _ hq), hqs q hq]
      rfl
  exact ⟨t, hfront ▸ hparams, ht, hfront ▸ hqs⟩

namespace Semantics

variable {σ : Type} {sem : Semantics σ} {d : Decl} {args xs ys : List Arg} {l : Level} {s : σ}

/-- A match with a sequence that no pattern mentions, before the sequence and after it. -/
theorem matchDecl_variadic_iff {ded : Deduction} (hacc : d.Accepted) (hd : d.Plain sem)
    (hvar : d.isVariadic = true) (hdep : ∀ p ∈ d.params, p.dependent = false) :
    (sem.matchDecl d args none .rank s).1 = .ok ded ↔ ∃ c rest,
      (sem.visitParams d none 0 d.front args .exact (.free d.params.length) s).1 =
        .ok (ded.level, c, rest) ∧
      c.set d.front.length (some (.ofList rest)) = Bindings.ofArgs ded.args := by
  obtain ⟨t, hparams, ht, hfront⟩ := hacc.front_append hvar hdep
  have hlast : d.params[d.front.length]? = some t := by
    rw [hparams]
    exact List.getElem?_concat_length
  have hvisits : sem.visitParams d none 0 d.params args .exact (.free d.params.length) s =
      sem.visitParams d none 0 (d.front ++ [t]) args .exact (.free d.params.length) s := by
    rw [← hparams]
  rw [matchDecl_rank_eq_ok_iff, hvisits, visitParams_append, Nat.zero_add]
  rcases hv : sem.visitParams d none 0 d.front args .exact (.free d.params.length) s with
    ⟨_ | ⟨m, c, rest⟩, s'⟩
  · exact ⟨nofun, nofun⟩
  · have hbinds := visitParams_binds
      (fun q hq => hd q (hparams ▸ List.mem_append_left _ hq)) (congrArg Prod.fst hv)
    have hfree : c.get? ⟨d.front.length⟩ = none := by
      rw [hbinds.only, Bindings.get?_free]
      rw [List.mem_flatMap]
      rintro ⟨⟨q, j⟩, hq, hmem⟩
      have hj := List.mem_zipIdx_iff_getElem?.mp hq
      obtain heq | hmem := List.mem_cons.mp hmem
      · cases heq
        exact Nat.lt_irrefl _ (List.getElem?_eq_some_iff.mp hj).1
      · have hmark := (hacc.dependent_iff hlast).mpr ⟨q, ?_, hmem⟩
        · rw [hdep t (List.mem_of_getElem? hlast)] at hmark
          cases hmark
        · rw [hparams, List.take_left]
          exact List.mem_of_getElem? hj
    have hlen : d.front.length < c.length := by
      rw [hbinds.length, Bindings.free, List.length_replicate]
      exact (List.getElem?_eq_some_iff.mp hlast).1
    dsimp only
    rw [visitParams_tuple ht hfree hlen]
    simp only [Except.ok.injEq, Prod.mk.injEq, and_true]
    constructor
    · rintro ⟨rfl, h⟩
      exact ⟨c, rest, ⟨rfl, rfl, rfl⟩, h⟩
    · rintro ⟨c', rest', ⟨rfl, rfl, rfl⟩, h⟩
      exact ⟨rfl, h⟩

/-- **A sequence that no pattern mentions takes any number of arguments.** -/
theorem matchDecl_append (hacc : d.Accepted) (hd : d.Plain sem) (hvar : d.isVariadic = true)
    (hdep : ∀ p ∈ d.params, p.dependent = false) (hlen : d.front.length ≤ xs.length) :
    (∃ ded, (sem.matchDecl d (xs ++ ys) none .rank s).1 = .ok ded ∧ ded.level = l) ↔
      ∃ ded, (sem.matchDecl d xs none .rank s).1 = .ok ded ∧ ded.level = l := by
  obtain ⟨t, hparams, -, hfront⟩ := hacc.front_append hvar hdep
  have hthis (q : Param) (hq : q ∈ d.front) : q.isThis = false :=
    (hd q (hparams ▸ List.mem_append_left _ hq)).isThis
  have hreset {c : Bindings} {a : Arg} {as : List Arg} (b : Arg)
      (h : c.set d.front.length (some a) = Bindings.ofArgs as) :
      c.set d.front.length (some b) = Bindings.ofArgs (as.set d.front.length b) := by
    have hset := congrArg (fun c : Bindings => c.set d.front.length (some b)) h
    simpa [Bindings.ofArgs, List.map_set] using hset
  constructor
  · rintro ⟨ded, h, rfl⟩
    obtain ⟨c, rest, hv, hc⟩ := (matchDecl_variadic_iff hacc hd hvar hdep).mp h
    rw [visitParams_append_args hthis hfront hlen] at hv
    rcases hx : sem.visitParams d none 0 d.front xs .exact (.free d.params.length) s with
      ⟨_ | ⟨m, c', rest'⟩, s'⟩ <;> rw [hx] at hv <;> cases hv
    exact ⟨⟨ded.level, _⟩, (matchDecl_variadic_iff hacc hd hvar hdep).mpr
      ⟨c', rest', congrArg Prod.fst hx, hreset _ hc⟩, rfl⟩
  · rintro ⟨ded, h, rfl⟩
    obtain ⟨c, rest, hv, hc⟩ := (matchDecl_variadic_iff hacc hd hvar hdep).mp h
    refine ⟨⟨ded.level, _⟩, (matchDecl_variadic_iff hacc hd hvar hdep).mpr
      ⟨c, rest ++ ys, ?_, hreset _ hc⟩, rfl⟩
    rw [visitParams_append_args hthis hfront hlen, hv]
    rfl

/-- Without a sequence there are as many arguments as parameters at most. -/
theorem length_le_front {ded : Deduction} (hacc : d.Accepted) (hd : d.Plain sem)
    (hvar : d.isVariadic = false) (hdep : ∀ p ∈ d.params, p.dependent = false)
    (h : (sem.matchDecl d args none .rank s).1 = .ok ded) : args.length ≤ d.front.length := by
  have htuple (p : Param) (hp : p ∈ d.params) : p.isTuple = false := by
    obtain ⟨i, hi⟩ := List.mem_iff_getElem?.mp hp
    refine Bool.eq_false_iff.mpr fun htuple => ?_
    have hlast : d.params.getLast? = some p := by
      rw [List.getLast?_eq_getElem?, ← hacc.tuple_last hi htuple, Nat.add_sub_cancel, hi]
    rw [Decl.isVariadic, Decl.variadic?, hlast] at hvar
    dsimp only at hvar
    rw [if_pos htuple] at hvar
    cases hvar
  have hfront : d.front = d.params := by
    refine List.takeWhile_eq_self_iff.mpr fun p hp => ?_
    rw [hdep p hp, htuple p hp]
    rfl
  have hrest := visitParams_rest (matchDecl_eq_ok h) htuple
  rw [List.countP_eq_length.mpr fun p hp => by
    rw [show p.isThis = false from (hd p hp).isThis]
    rfl] at hrest
  rw [hfront]
  exact List.drop_eq_nil_iff.mp hrest.symm

end Semantics

end Templates
