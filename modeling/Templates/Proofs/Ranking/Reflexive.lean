import Templates.Proofs.Ranking
import Templates.Proofs.Ranking.Mirrors

/-!
# Every declaration is as specialized as itself

A declaration that mirrors its own stand-ins accepts them, and is as specialized as itself
(`Semantics.accepts_itself`): the parameters that have a stand-in are bound to what stands for them,
and the others are sequences, are bound by a pattern or have a default that fits. Where one of the
conditions fails, a declaration may turn its own stand-ins away (`not_accepts_itself`).
-/

namespace Templates

namespace Decl

theorem Accepted.given_this {d : Decl} (hacc : d.Accepted) {i : ParamIdx} {p : TypeParam}
    (hk : Deduce.kind? d.params i = some (.this p)) : d.Given i := by
  obtain ⟨q, hq, hkind⟩ := Option.map_eq_some_iff.mp hk
  have hfirst : i.index = 0 := hacc.this_first hq (by rw [Param.isThis, hkind]; rfl)
  rw [hfirst] at hq
  have htake : d.params.take 1 = [q] := by rw [List.take_one, List.head?_eq_getElem?, hq]; rfl
  unfold Given
  rw [hfirst, htake, List.forall_mem_singleton]
  exact ⟨hacc.first_independent hq, by rw [Param.isTuple, hkind]; rfl⟩

/-- The first `n` parameters are bound, and what the stand-ins bind to faces is so. -/
structure Offering (d : Decl) (id : DeclId) (n : Nat) (b : Bindings) : Prop where
  length : b.length = d.params.length
  bound {j : ParamIdx} : j.index < n → (b.get? j).isSome
  stands {j : ParamIdx} : d.Offers d.params.length j → b.Stands d.params id j

variable {d : Decl} {n m : Nat} {id : DeclId} {b c : Bindings}

theorem Offering.mono (H : d.Offering id n b) (hmn : m ≤ n) : d.Offering id m b :=
  ⟨H.length, fun hj => H.bound (Nat.lt_of_lt_of_le hj hmn), H.stands⟩

theorem Offering.extend (H : d.Offering id n b) (hbc : b.Extends c) (hn : (c.get? ⟨n⟩).isSome) :
    d.Offering id (n + 1) c where
  length := hbc.length.trans H.length
  bound {j} hj := by
    obtain hj | hj := Nat.lt_succ_iff_lt_or_eq.mp hj
    · obtain ⟨a, ha⟩ := Option.isSome_iff_exists.mp (H.bound hj)
      rw [hbc.le ha]
      rfl
    · rwa [show j = ⟨n⟩ from congrArg ParamIdx.mk hj]
  stands hj := (H.stands hj).mono hbc.le

theorem Faced.offering (H : d.Faced id n b) (hrest : ∀ (i : ParamIdx) (k : ParamKind),
    n ≤ i.index → Deduce.kind? d.params i = some k → ¬d.Given i) : d.Offering id n b where
  length := H.length
  bound := H.bound
  stands {j} hj := by
    refine H.stands ?_
    obtain ⟨-, hgiven, k, hk, hun⟩ | ⟨i, k, t, -, hgiven, hk, h⟩ := hj
    · exact .inl ⟨Nat.lt_of_not_le fun hn => hrest j k hn hk hgiven, hgiven, k, hk, hun⟩
    · exact .inr ⟨i, k, t, Nat.lt_of_not_le fun hn => hrest i k hn hk hgiven, hgiven, hk, h⟩

end Decl

theorem Bindings.exists_ofArgs {b : Bindings} (h : ∀ i : ParamIdx, i.index < b.length →
    (b.get? i).isSome) : ∃ as, b = .ofArgs as := by
  induction b with
  | nil => exact ⟨[], rfl⟩
  | cons x b ih =>
    obtain ⟨a, rfl⟩ := Option.isSome_iff_exists.mp (h ⟨0⟩ (Nat.succ_pos _))
    obtain ⟨as, rfl⟩ := ih fun i hi => h ⟨i.index + 1⟩ (Nat.succ_lt_succ hi)
    exact ⟨a :: as, rfl⟩

theorem Level.noMatch_lt_min {l m : Level} (hl : noMatch < l) (hm : noMatch < m) :
    noMatch < min l m := by
  cases l <;> cases m <;> first | exact hl | exact hm

namespace Semantics

variable {σ : Type} {sem : Semantics σ} {d : Decl} {n : Nat} {k : ParamKind} {id : DeclId}
  {b : Bindings} {l : Level} {s s' : σ} {scope : ScopeId} {receiver : Option Ty} {qs : List Param}

variable (receiver) in
/-- A parameter that is a sequence, is bound or has a default needs no argument. -/
theorem visitParam_offered (hacc : d.Accepted) (hd : d.Mirrors sem id) (H : d.Offering id n b)
    (hgiven : ¬d.Given ⟨n⟩) (hk : Deduce.kind? d.params ⟨n⟩ = some k) :
    (∃ l c, ((sem.visitParam d receiver ⟨n⟩ k [] b).1 s).1 = .ok (l, c) ∧ .noMatch < l ∧
      d.Offering id (n + 1) c) ∧ (sem.visitParam d receiver ⟨n⟩ k [] b).2 = [] := by
  have hlt : n < b.length := H.length ▸ Deduce.lt_of_kind? hk
  have hmissing (htuple : k.isTuple = false) : ∃ l c,
      (sem.visitMissing d ⟨n⟩ k b s).1 = .ok (l, c) ∧ .noMatch < l ∧
        d.Offering id (n + 1) c := by
    cases hget : b.get? ⟨n⟩ with
    | some a =>
      refine ⟨.exact, b, ?_, by decide, H.extend (.refl b) (by rw [hget]; rfl)⟩
      unfold visitMissing
      rw [hget]
      rfl
    | none =>
      have hsupplied : k.Supplied sem id d.params (d.Offers d.params.length) := by
        obtain h | h | h := hd.rest hgiven hk
        · rw [htuple] at h
          cases h
        · obtain ⟨k', t, -, hi⟩ := H.stands (.inr h)
          rw [hget] at hi
          cases hi
        · exact h
      obtain ⟨l, c, hv, hl, hbc, hc⟩ :=
        visitMissing_of_supplied (s := s) hlt hget (fun j hj => H.stands hj) hsupplied
      exact ⟨l, c, hv, hl, H.extend hbc hc⟩
  cases k with
  | this p => exact absurd (hacc.given_this hk) hgiven
  | type | value | symbol => exact ⟨hmissing rfl, rfl⟩
  | tuple =>
    refine ⟨?_, rfl⟩
    obtain ⟨c, hm, hbc, hc⟩ : ∃ c, matchTuple ⟨n⟩ [] b = some (.exact, c) ∧ b.Extends c ∧
        (c.get? ⟨n⟩).isSome := by
      cases hget : b.get? ⟨n⟩ with
      | some a => exact ⟨b, by rw [matchTuple, hget]; rfl, .refl b, by rw [hget]; rfl⟩
      | none =>
        obtain ⟨c, hc⟩ := Bindings.exists_unify (i := ⟨n⟩) (a := .ofList []) hlt (.inl hget)
        refine ⟨c, ?_, (Bindings.unify_binds hc).toExtends, by rw [Bindings.get?_unify hc]; rfl⟩
        rw [matchTuple, hget, hc]
        rfl
    refine ⟨.exact, c, ?_, by decide, H.extend hbc hc⟩
    change ((matchTuple ⟨n⟩ [] b).map Except.ok).getD (.error (Rejection.mismatch ⟨n⟩)) = _
    rw [hm]
    rfl

theorem visitParams_offered (hacc : d.Accepted) (hd : d.Mirrors sem id)
    (hrest : ∀ (i : ParamIdx) (k : ParamKind), n ≤ i.index → Deduce.kind? d.params i = some k →
      ¬d.Given i) (H : d.Offering id n b) (hqs : d.params.drop n = qs) (hl : .noMatch < l) :
    ∃ m c, (sem.visitParams d receiver n qs [] l b s).1 = .ok (m, c, []) ∧ .noMatch < m ∧
      d.Offering id d.params.length c := by
  induction qs generalizing n b l s with
  | nil => exact ⟨l, b, rfl, hl, H.mono (List.drop_eq_nil_iff.mp hqs)⟩
  | cons q qs ih =>
    obtain ⟨hk, htail⟩ := kind?_of_drop hqs
    obtain ⟨⟨m, c, hv, hm, hc⟩, hargs⟩ :=
      visitParam_offered receiver (s := s) hacc hd H
        (hrest ⟨n⟩ q.kind (Nat.le_refl n) hk) hk
    rw [visitParams_cons, hargs]
    rcases hrun : (sem.visitParam d receiver ⟨n⟩ q.kind [] b).1 s with ⟨r, s'⟩
    rw [hrun] at hv
    cases hv
    exact ih (fun i k hi => hrest i k (Nat.le_of_succ_le hi)) hc htail (Level.noMatch_lt_min hl hm)

variable (s s' scope receiver) in
/-- **The parameters take their own stand-ins.** -/
theorem visitParams_faced (hacc : d.Accepted) (hd : d.Mirrors sem id) (H : d.Faced id n b)
    (hthis : ∀ q ∈ qs, q.isThis = false)
    (hgiven : ∀ p ∈ d.params.take n, p.dependent = false ∧ p.isTuple = false)
    (hqs : d.params.drop n = qs) (hl : .noMatch < l) :
    ∃ m c, (sem.visitParams d receiver n qs (sem.standIns id scope n qs s').1.1 l b s).1 =
      .ok (m, c, []) ∧ .noMatch < m ∧ d.Offering id d.params.length c := by
  induction qs generalizing n b l s s' with
  | nil =>
    have hlen := List.drop_eq_nil_iff.mp hqs
    refine ⟨l, b, rfl, hl, (H.offering fun i k hi hk => ?_).mono hlen⟩
    exact absurd (Deduce.lt_of_kind? hk) (Nat.not_lt.mpr (hlen.trans hi))
  | cons q qs ih =>
    obtain ⟨hk, htail⟩ := kind?_of_drop hqs
    have hget : d.params[n]? = some q := by rw [← List.head?_drop, hqs]; rfl
    rw [standIns_cons (hthis q List.mem_cons_self)]
    split
    · next hstop =>
      have hrest (i : ParamIdx) (k : ParamKind) (hi : n ≤ i.index)
          (_ : Deduce.kind? d.params i = some k) : ¬d.Given i := by
        intro h
        obtain ⟨hdep, htuple⟩ := h q (Decl.mem_take hget (Nat.lt_succ_of_le hi))
        rw [hdep, htuple] at hstop
        cases hstop
      exact visitParams_offered hacc hd hrest (H.offering hrest) hqs hl
    · next hgo =>
      obtain ⟨hdep, htuple⟩ := Bool.or_eq_false_iff.mp (Bool.eq_false_iff.mpr hgo)
      have hnext : ∀ p ∈ d.params.take (n + 1), p.dependent = false ∧ p.isTuple = false := by
        rw [List.take_add_one, hget]
        exact List.forall_mem_append.mpr ⟨hgiven, List.forall_mem_singleton.mpr ⟨hdep, htuple⟩⟩
      obtain ⟨m, c, hv, hm, hc⟩ := visitArg_faced s s' scope hacc hd H hnext hk htuple
      rw [visitParams_cons, visitParam_cons (hthis q List.mem_cons_self) htuple]
      dsimp only
      generalize sem.visitArg d ⟨n⟩ q.kind _ b s = r at hv ⊢
      obtain ⟨r, s₁⟩ := r
      cases hv
      exact ih _ _ hc (fun p hp => hthis p (List.mem_cons_of_mem q hp)) hnext htail
        (Level.noMatch_lt_min hl hm)

theorem matchDecl_of_offering {args : List Arg} {c : Bindings} (hl : .noMatch < l)
    (h : (sem.visitParams d receiver 0 d.params args .exact (.free d.params.length) s).1 =
      .ok (l, c, [])) (hc : d.Offering id d.params.length c) :
    ∃ ded, (sem.matchDecl d args receiver .rank s).1 = .ok ded ∧ .noMatch < ded.level := by
  obtain ⟨as, rfl⟩ := Bindings.exists_ofArgs fun i hi => hc.bound (hc.length ▸ hi)
  exact ⟨_, matchDecl_of_visit h, hl⟩

variable (s s') in
/-- **A declaration accepts its own stand-ins.** -/
theorem matchDecl_standIns (hacc : d.Accepted) (hd : d.Mirrors sem id) :
    ∃ ded, (sem.matchDecl d (sem.standIns id scope 0 d.params s').1.1
      (sem.standIns id scope 0 d.params s').1.2 .rank s).1 = .ok ded ∧ .noMatch < ded.level := by
  have hexact : Level.noMatch < .exact := by decide
  obtain hthis | ⟨p, q, qs, hparams, hkind, hdep, hqs⟩ := hacc.this_cases
  · obtain ⟨m, c, hv, hm, hc⟩ := visitParams_faced s s' scope
      (sem.standIns id scope 0 d.params s').1.2 hacc hd .free hthis (List.forall_mem_nil _) rfl
      hexact
    exact matchDecl_of_offering hm hv hc
  · -- The receiver is matched first.
    have hk : Deduce.kind? d.params ⟨0⟩ = some (.this q) := by rw [hparams, ← hkind]; rfl
    have hgiven := hacc.given_this hk
    obtain ⟨l, b, hvisit, hl, hb⟩ := visitArg_faced s s' scope hacc hd .free hgiven hk rfl
    have hstandIns : (sem.standIns id scope 0 (p :: qs) s').1 = _ := standIns_this hkind hdep hqs
    rw [← hparams] at hstandIns
    rw [hstandIns]
    dsimp only
    change (sem.visitArg d ⟨0⟩ (.this q)
      (.type ((q.spec.map (Ty.withStandIns id)).getD (.standIn ⟨id, ⟨0⟩⟩))) _ s).1 = _ at hvisit
    generalize (q.spec.map (Ty.withStandIns id)).getD (.standIn ⟨id, ⟨0⟩⟩) = t at hvisit ⊢
    rcases hrun : sem.visitArg d ⟨0⟩ (.this q) (.type t) (.free d.params.length) s with ⟨r, s₁⟩
    rw [hrun] at hvisit
    cases hvisit
    have htake : d.params.take 1 = [p] := by rw [hparams]; rfl
    obtain ⟨m, c, hv, hm, hc⟩ := visitParams_faced s₁ s' scope (some t) hacc hd hb hqs
      (by rw [htake, List.forall_mem_singleton]; exact ⟨hdep, by rw [Param.isTuple, hkind]; rfl⟩)
      (by rw [hparams]; rfl) (Level.noMatch_lt_min hexact hl)
    refine matchDecl_of_offering hm ?_ hc
    have hcons : (sem.visitParams d (some t) 0 (p :: qs) (sem.standIns id scope 1 qs s').1.1 .exact
        (.free d.params.length) s).1 = .ok (m, c, []) := by
      have hfirst (args : List Arg) (b : Bindings) :
          sem.visitParam d (some t) ⟨0⟩ (.this q) args b =
            (sem.visitArg d ⟨0⟩ (.this q) (.type t) b, args) := rfl
      rw [visitParams_cons, hkind, hfirst]
      dsimp only
      rw [hrun]
      exact hv
    rwa [← hparams] at hcons

/-! ## The order of a declaration to itself -/

/-- The declaration accepts its own stand-ins and is as specialized as itself. -/
structure AcceptsItself (sem : Semantics σ) (id : DeclId) (d : Decl) (s : σ) : Prop where
  accepts (s' : σ) : ∃ ded, (sem.matchDecl d (sem.standIns id d.scope 0 d.params s).1.1
    (sem.standIns id d.scope 0 d.params s).1.2 .rank s').1 = .ok ded
  fits : .noMatch < (sem.leastAsSpecialized (id, d) (id, d) s).1
  ambiguous : (sem.compare (id, d) (id, d) s).1 = .ambiguous

theorem isVariadic_of_isOpenVariadic (h : d.isOpenVariadic = true) : d.isVariadic = true := by
  unfold Decl.isOpenVariadic at h
  unfold Decl.isVariadic
  cases hv : d.variadic? with
  | none =>
    rw [hv] at h
    cases h
  | some i => rfl

theorem leastAsSpecialized_self (hacc : d.Accepted) (hd : d.Mirrors sem id) (s : σ) :
    .noMatch < (sem.leastAsSpecialized (id, d) (id, d) s).1 :=
  leastAsSpecialized_pos_iff.mpr
    ⟨matchDecl_standIns _ s hacc hd, isVariadic_of_isOpenVariadic⟩

/-- **A declaration that mirrors its own stand-ins is as specialized as itself.** -/
theorem accepts_itself (hacc : d.Accepted) (hd : d.Mirrors sem id) (s : σ) :
    sem.AcceptsItself id d s where
  accepts s' := (matchDecl_standIns s' s hacc hd).imp fun _ h => h.1
  fits := leastAsSpecialized_self hacc hd s
  ambiguous := by
    rw [compare, bind_run, bind_run]
    dsimp only [pure, StateT.pure]
    rw [decide_eq_true (leastAsSpecialized_self hacc hd s),
      decide_eq_true (leastAsSpecialized_self hacc hd _)]
    rfl

end Semantics

/-- `D(this T, int k : 3, alias S, W : const(S!(V, R)), V, int n = 4, P = V*, R...)`. -/
def racks : Decl where
  name := "D"
  params := [
    { name := "T", kind := .this {} },
    { name := "k", kind := .value { ty := .int, spec := some ⟨3⟩ } },
    { name := "S", kind := .symbol {} },
    { name := "W"
      kind := .type { spec := some (.const (.inst (.param ⟨2⟩)
        [.type (.param ⟨4⟩), .type (.param ⟨7⟩)])) } },
    { name := "V", dependent := true, kind := .type {} },
    { name := "n", kind := .value { ty := .int, default := some ⟨4⟩ } },
    { name := "P", kind := .type { default := some (.ptr (.param ⟨4⟩)) } },
    { name := "R", dependent := true, kind := .tuple }]

theorem racks_accepted : racks.Accepted := ⟨racks.unmarked, rfl⟩

theorem racks_given_of_lt {i : ParamIdx} (hi : i.index < 4) : racks.Given i := by
  obtain ⟨_ | _ | _ | _ | n⟩ := i
  case succ.succ.succ.succ => exact absurd hi (Nat.not_lt.mpr (Nat.le_add_left 4 n))
  all_goals
    unfold Decl.Given
    decide

theorem racks_not_given {i : ParamIdx} (hi : 4 ≤ i.index) : ¬racks.Given i := fun h => by
  have hdep := (h _ (Decl.mem_take (i := 4) rfl (Nat.lt_succ_of_le hi))).1
  cases hdep

/-- The pattern of the fourth parameter gives what it mentions. -/
theorem racks_pins {j : ParamIdx} (hj : j ∈ [⟨2⟩, ⟨4⟩, ⟨7⟩]) : racks.Pins 8 j :=
  ⟨⟨3⟩, _, _, by decide, racks_given_of_lt (by decide), rfl, rfl, hj⟩

theorem racks_mirrors : racks.Mirrors counting ⟨0⟩ where
  kind {i k} hgiven hk := by
    obtain ⟨_ | _ | _ | _ | n⟩ := i
    case succ.succ.succ.succ => exact absurd hgiven (racks_not_given (Nat.le_add_left 4 n))
    all_goals cases hk
    · intro pat hpat
      cases hpat
    · refine ⟨rfl, fun e he => ?_⟩
      cases he
      exact ⟨_, fun _ _ => rfl, .inl rfl⟩
    · exact ⟨fun _ h => (by cases h), fun _ h => (by cases h)⟩
    · intro pat hpat
      cases hpat
      exact ⟨rfl, rfl, rfl, rfl⟩
  pattern {i j k k' t} hgiven hk ht hj hlt hk' := by
    obtain ⟨_ | _ | _ | _ | n⟩ := i
    case succ.succ.succ.succ => exact absurd hgiven (racks_not_given (Nat.le_add_left 4 n))
    all_goals
      cases hk
      cases ht
    -- only the symbol that gives the template comes before
    simp only [Ty.mentions, TemplateRef.mentions, Arg.mentionsList, Arg.mentions, List.cons_append,
      List.nil_append, List.mem_cons, List.not_mem_nil, or_false] at hj
    obtain rfl | rfl | rfl := hj
    · cases hk'
      exact ⟨rfl, rfl⟩
    · exact absurd hlt (by decide)
    · exact absurd hlt (by decide)
  declared {i j p} hgiven hk hj := by
    obtain ⟨_ | _ | _ | _ | n⟩ := i
    case succ.succ.succ.succ => exact absurd hgiven (racks_not_given (Nat.le_add_left 4 n))
    all_goals
      cases hk
    cases hj
  rest {i k} hgiven hk := by
    have hi : 4 ≤ i.index := Nat.le_of_not_lt fun hi => hgiven (racks_given_of_lt hi)
    obtain ⟨_ | _ | _ | _ | _ | _ | _ | _ | n⟩ := i
    case succ.succ.succ.succ.zero => exact .inr (.inl (racks_pins (by decide)))
    case succ.succ.succ.succ.succ.zero =>
      cases hk
      exact .inr (.inr ⟨rfl, List.forall_mem_nil _, _, _, rfl, fun _ _ => rfl, .inl rfl,
        fun _ h => (by cases h)⟩)
    case succ.succ.succ.succ.succ.succ.zero =>
      cases hk
      refine .inr (.inr ⟨_, rfl, rfl, fun j hj => .inr (racks_pins ?_), fun _ h => (by cases h)⟩)
      cases List.mem_singleton.mp hj
      decide
    case succ.succ.succ.succ.succ.succ.succ.zero =>
      cases hk
      exact .inl rfl
    case succ.succ.succ.succ.succ.succ.succ.succ => cases hk
    all_goals exact absurd hi (by decide)

theorem accepts_itself_racks : racks.Accepted ∧ racks.Mirrors counting ⟨0⟩ ∧
    counting.AcceptsItself ⟨0⟩ racks () :=
  ⟨racks_accepted, racks_mirrors, Semantics.accepts_itself racks_accepted racks_mirrors ()⟩

/-! ## Declarations that turn their own stand-ins away -/

/-- A declaration without an error in its patterns, whose values are constants of their types, does
not accept its own stand-ins. -/
structure Semantics.RejectsItself {σ : Type} (sem : Semantics σ) (d : Decl) (s : σ) : Prop where
  accepted : d.Accepted
  errorFree : ∀ p ∈ d.params, p.kind.pattern?.any Ty.containsError = false
  constant : ∀ p ∈ d.params, ∀ q e, p.kind = .value q → q.spec = some e →
    ∃ v, sem.Folds e v ∧ v.ty = q.ty
  rejects : ∃ why, (sem.matchDecl d (sem.standIns ⟨0⟩ d.scope 0 d.params s).1.1
    (sem.standIns ⟨0⟩ d.scope 0 d.params s).1.2 .rank s).1 = .error why
  incompatible : (sem.compare (⟨0⟩, d) (⟨0⟩, d) s).1 = .incompatible

/-- A value that is asked for is an `int`. -/
def ParamKind.asksForInt : ParamKind → Bool
  | .value p => p.spec.isNone || p.ty = .int
  | .type _ | .this _ | .symbol _ | .tuple => true

theorem Semantics.RejectsItself.of_ints {d : Decl} (hacc : d.Accepted)
    (hints : ∀ p ∈ d.params, p.kind.asksForInt = true)
    (herr : ∀ p ∈ d.params, p.kind.pattern?.any Ty.containsError = false)
    (hrej : ∃ why, (counting.matchDecl d (counting.standIns ⟨0⟩ d.scope 0 d.params ()).1.1
      (counting.standIns ⟨0⟩ d.scope 0 d.params ()).1.2 .rank ()).1 = .error why)
    (hcmp : (counting.compare (⟨0⟩, d) (⟨0⟩, d) ()).1 = .incompatible) :
    counting.RejectsItself d () where
  accepted := hacc
  errorFree := herr
  constant p hp q e hq he := by
    have hint := hints p hp
    rw [hq, ParamKind.asksForInt, he] at hint
    exact ⟨.int e.index, fun _ _ => rfl, (of_decide_eq_true hint).symm⟩
  rejects := hrej
  incompatible := hcmp

/-- `E(alias R : int)`: a stand-in has no type. -/
theorem rejects_typed : counting.RejectsItself typed () :=
  .of_ints ⟨typed, rfl⟩ (by decide) (by decide) ⟨_, rfl⟩ (by decide)

/-- `D(alias S : a)` for an alias `a`: the stand-in is the alias and not what it names. -/
theorem rejects_followed : counting.RejectsItself followed () :=
  .of_ints ⟨followed, rfl⟩ (by decide) (by decide) ⟨_, rfl⟩ (by decide)

/-- `D(T : X!(n), int n)`: the stand-in in `X!(n)` is a type. -/
theorem rejects_sized : counting.RejectsItself sized () :=
  .of_ints ⟨sized.unmarked, rfl⟩ (by decide) (by decide) ⟨_, rfl⟩ (by decide)

/-- `D(T : n[], int n)`. -/
def elements : Decl where
  name := "D"
  params := [
    { name := "T", kind := .type { spec := some (.array (.param ⟨1⟩)) } },
    { name := "n", dependent := true, kind := .value { ty := .int } }]

/-- A value is no type. -/
theorem rejects_elements : counting.RejectsItself elements () :=
  .of_ints ⟨elements.unmarked, rfl⟩ (by decide) (by decide) ⟨_, rfl⟩ (by decide)

/-- `D(T : X!(S, int), S...)`. -/
def leading : Decl where
  name := "D"
  params := [
    { name := "T"
      kind := .type { spec := some (.inst (.symbol ⟨9⟩) [.type (.param ⟨1⟩), .type .int]) } },
    { name := "S", dependent := true, kind := .tuple }]

/-- A sequence takes all arguments that are left. -/
theorem rejects_leading : counting.RejectsItself leading () :=
  .of_ints ⟨leading.unmarked, rfl⟩ (by decide) (by decide) ⟨_, rfl⟩ (by decide)

/-- `D(T : const(const(U)), U)`. -/
def qualified : Decl where
  name := "D"
  params := [
    { name := "T", kind := .type { spec := some (.const (.const (.param ⟨1⟩))) } },
    { name := "U", dependent := true, kind := .type {} }]

/-- The stand-in is `const` once only. -/
theorem rejects_qualified : counting.RejectsItself qualified () :=
  .of_ints ⟨qualified.unmarked, rfl⟩ (by decide) (by decide) ⟨_, rfl⟩ (by decide)

/-- `D(U : int, T : U[])`. -/
def given : Decl where
  name := "D"
  params := [
    { name := "U", kind := .type { spec := some .int } },
    { name := "T", kind := .type { spec := some (.array (.param ⟨0⟩)) } }]

/-- `U` is bound to `int`, and its stand-in is another type. -/
theorem rejects_given : counting.RejectsItself given () :=
  .of_ints ⟨given, rfl⟩ (by decide) (by decide) ⟨_, rfl⟩ (by decide)

/-- `D(int n : 3, T : int[n])`. -/
def measured : Decl where
  name := "D"
  params := [
    { name := "n", kind := .value { ty := .int, spec := some ⟨3⟩ } },
    { name := "T", kind := .type { spec := some (.staticArray .int (.param ⟨0⟩)) } }]

/-- `n` is bound to 3, and its stand-in is another length. -/
theorem rejects_measured : counting.RejectsItself measured () :=
  .of_ints ⟨measured, rfl⟩ (by decide) (by decide) ⟨_, rfl⟩ (by decide)

/-- `D(T, T n, U : int[n])`. -/
def indexed : Decl where
  name := "D"
  params := [
    { name := "T", kind := .type {} },
    { name := "n", kind := .value { ty := .param ⟨0⟩ } },
    { name := "U", kind := .type { spec := some (.staticArray .int (.param ⟨1⟩)) } }]

/-- `n` is bound to a value of type `T`, and its stand-in as a length is an `ulong`. -/
theorem rejects_indexed : counting.RejectsItself indexed () :=
  .of_ints ⟨indexed, rfl⟩ (by decide) (by decide) ⟨_, rfl⟩ (by decide)

/-- `D(T n, T)`. -/
def early : Decl where
  name := "D"
  params := [
    { name := "n", kind := .value { ty := .param ⟨1⟩ } },
    { name := "T", dependent := true, kind := .type {} }]

/-- The type of `n` is not known in time. -/
theorem rejects_early : counting.RejectsItself early () :=
  .of_ints ⟨early.unmarked, rfl⟩ (by decide) (by decide) ⟨_, rfl⟩ (by decide)

/-- `D(T : U[], U, V)`. -/
def trailing : Decl where
  name := "D"
  params := [
    { name := "T", kind := .type { spec := some (.array (.param ⟨1⟩)) } },
    { name := "U", dependent := true, kind := .type {} },
    { name := "V", kind := .type {} }]

/-- The stand-ins end before `U`, and nothing binds `V`. -/
theorem rejects_trailing : counting.RejectsItself trailing () :=
  .of_ints ⟨trailing.unmarked, rfl⟩ (by decide) (by decide) ⟨_, rfl⟩ (by decide)

/-- `D(T : U[], U, V : int = char)`. -/
def defaulted : Decl where
  name := "D"
  params := [
    { name := "T", kind := .type { spec := some (.array (.param ⟨1⟩)) } },
    { name := "U", dependent := true, kind := .type {} },
    { name := "V", kind := .type { spec := some .int, default := some .char } }]

/-- The default of `V` does not fit. -/
theorem rejects_defaulted : counting.RejectsItself defaulted () :=
  .of_ints ⟨defaulted.unmarked, rfl⟩ (by decide) (by decide) ⟨_, rfl⟩ (by decide)

/-- Not every declaration accepts its own stand-ins. -/
theorem not_accepts_itself :
    counting.RejectsItself typed () ∧ counting.RejectsItself followed () ∧
    counting.RejectsItself sized () ∧ counting.RejectsItself elements () ∧
    counting.RejectsItself leading () ∧ counting.RejectsItself qualified () ∧
    counting.RejectsItself given () ∧ counting.RejectsItself measured () ∧
    counting.RejectsItself indexed () ∧ counting.RejectsItself early () ∧
    counting.RejectsItself trailing () ∧ counting.RejectsItself defaulted () :=
  ⟨rejects_typed, rejects_followed, rejects_sized, rejects_elements, rejects_leading,
    rejects_qualified, rejects_given, rejects_measured, rejects_indexed, rejects_early,
    rejects_trailing, rejects_defaulted⟩

end Templates
