import Templates.Proofs.Selection.Best

/-!
# Who wins the selection

The comparison of two declarations need be no order, and it may depend on the state that earlier
comparisons have left. What a choice rests on is therefore the comparisons that were made on the way
(`Semantics.Compares`). A candidate is chosen if no other one of the best level was found strictly
more specialized, and of several such candidates the first two are ambiguous. Where each candidate of
the best level was beaten by another one, the first two are said to be ambiguous, whatever was found
about them (`Semantics.crowns`).
-/

namespace Templates

/-- A candidate stands at the place, and none of the list has a higher level. -/
def Candidate.IsTop (cs : List Candidate) (i : Nat) : Prop :=
  ∃ c, cs[i]? = some c ∧ ∀ d ∈ cs, d.level ≤ c.level

/-- Places of candidates that were compared, the first with the second, and whether the first
candidate was found strictly more specialized. -/
abbrev Comparisons := List (Nat × Nat × Bool)

namespace Semantics

variable {σ : Type} {sem : Semantics σ} {cs : List Candidate} {s t u : σ} {i j k : Nat}
  {log log' : Comparisons}

/-- In this state the first candidate is found strictly more specialized. -/
def outranks (sem : Semantics σ) (s : σ) (c d : Candidate) : Bool :=
  (sem.compare (c.id, c.decl) (d.id, d.decl) s).1 = .moreSpecific

/-- The candidate at the first place is found strictly more specialized. -/
def Outranks (sem : Semantics σ) (cs : List Candidate) (s : σ) (j i : Nat) : Prop :=
  ∃ c d, cs[j]? = some c ∧ cs[i]? = some d ∧ sem.outranks s c d = true

/-- The comparisons were made one after the other, the first of them in the first state. -/
inductive Compares (sem : Semantics σ) (cs : List Candidate) : σ → Comparisons → σ → Prop
  | nil {s : σ} : Compares sem cs s [] s
  | cons {s t : σ} {c d : Candidate} {i j : Nat} {log : Comparisons} :
    cs[j]? = some c → cs[i]? = some d →
    Compares sem cs (sem.compare (c.id, c.decl) (d.id, d.decl) s).2 log t →
    Compares sem cs s ((j, i, sem.outranks s c d) :: log) t

theorem Compares.append (h : sem.Compares cs s log t) (h' : sem.Compares cs t log' u) :
    sem.Compares cs s (log ++ log') u := by
  induction h with
  | nil => exact h'
  | cons hc hd _ ih => exact .cons hc hd (ih h')

/-- A comparison was made in a state that the ones before it had left. -/
theorem Compares.of_mem (h : sem.Compares cs s log t) {b : Bool} (hmem : (j, i, b) ∈ log) :
    ∃ before u c d, sem.Compares cs s before u ∧ cs[j]? = some c ∧ cs[i]? = some d ∧
      b = sem.outranks u c d := by
  induction h with
  | nil => cases hmem
  | @cons s t c d _ _ _ hc hd _ ih =>
    rcases List.mem_cons.mp hmem with heq | hmem
    · cases heq
      exact ⟨[], s, c, d, .nil, hc, hd, rfl⟩
    · obtain ⟨before, u, c', d', hrun, h⟩ := ih hmem
      exact ⟨_, u, c', d', .cons hc hd hrun, h⟩

/-- The comparison of candidates depends on no earlier ones. -/
def Settled (sem : Semantics σ) (cs : List Candidate) (s : σ) : Prop :=
  ∀ ⦃log t⦄, sem.Compares cs s log t → ∀ j i, sem.Outranks cs t j i ↔ sem.Outranks cs s j i

theorem Settled.outranks_of_mem (H : sem.Settled cs s) (h : sem.Compares cs s log t)
    (hmem : (j, i, true) ∈ log) : sem.Outranks cs s j i := by
  obtain ⟨before, u, c, d, hrun, hc, hd, hb⟩ := h.of_mem hmem
  exact (H hrun j i).mp ⟨c, d, hc, hd, hb.symm⟩

theorem Settled.not_outranks_of_mem (H : sem.Settled cs s) (h : sem.Compares cs s log t)
    (hmem : (j, i, false) ∈ log) : ¬sem.Outranks cs s j i := by
  obtain ⟨before, u, c, d, hrun, hc, hd, hb⟩ := h.of_mem hmem
  intro hout
  obtain ⟨c', d', hc', hd', hout⟩ := (H hrun j i).mpr hout
  obtain rfl := Option.some.inj (hc.symm.trans hc')
  obtain rfl := Option.some.inj (hd.symm.trans hd')
  exact Bool.false_ne_true (hb.trans hout)

/-! ## The comparisons of a selection -/

/-- The rivals stand at their places in the list. -/
def Placed (cs : List Candidate) (rivals : List (Candidate × Nat)) : Prop :=
  ∀ r ∈ rivals, cs[r.2]? = some r.1

/-- A candidate is not compared with itself. -/
theorem isBeaten_of_eq {c : Candidate} {r : Candidate × Nat} {rivals : List (Candidate × Nat)}
    (h : r.2 = i) : sem.isBeaten i c (r :: rivals) s = sem.isBeaten i c rivals s := by
  obtain ⟨r, j⟩ := r
  rw [isBeaten, if_pos h]

/-- The search ends with the first rival that wins. -/
theorem isBeaten_of_ne {c : Candidate} {r : Candidate × Nat} {rivals : List (Candidate × Nat)}
    (h : r.2 ≠ i) : sem.isBeaten i c (r :: rivals) s =
      match sem.outranks s r.1 c with
      | true => (true, (sem.compare (r.1.id, r.1.decl) (c.id, c.decl) s).2)
      | false => sem.isBeaten i c rivals (sem.compare (r.1.id, r.1.decl) (c.id, c.decl) s).2 := by
  obtain ⟨r, j⟩ := r
  rw [isBeaten, if_neg h, bind_run, outranks]
  by_cases hout : (sem.compare (r.id, r.decl) (c.id, c.decl) s).1 = .moreSpecific
  · rw [if_pos hout, decide_eq_true hout]
    rfl
  · rw [if_neg hout, decide_eq_false hout]

variable (sem) in
theorem isBeaten_compares {c : Candidate} {rivals : List (Candidate × Nat)} (hc : cs[i]? = some c)
    (hrivals : Placed cs rivals) (s : σ) :
    ∃ log, sem.Compares cs s log (sem.isBeaten i c rivals s).2 ∧
      ((sem.isBeaten i c rivals s).1 = true → ∃ r ∈ rivals, r.2 ≠ i ∧ (r.2, i, true) ∈ log) ∧
      ((sem.isBeaten i c rivals s).1 = false → ∀ r ∈ rivals, r.2 ≠ i → (r.2, i, false) ∈ log) := by
  induction rivals generalizing s with
  | nil => exact ⟨[], .nil, nofun, nofun⟩
  | cons r rivals ih =>
    obtain ⟨hr, hrivals⟩ := List.forall_mem_cons.mp hrivals
    by_cases hj : r.2 = i
    · rw [isBeaten_of_eq hj]
      obtain ⟨log, hrun, hbeaten, hnot⟩ := ih hrivals s
      refine ⟨log, hrun, fun h => ?_, fun h => ?_⟩
      · obtain ⟨x, hx, hout⟩ := hbeaten h
        exact ⟨x, List.mem_cons_of_mem _ hx, hout⟩
      · exact List.forall_mem_cons.mpr ⟨fun hne => absurd hj hne, hnot h⟩
    · rw [isBeaten_of_ne hj]
      have hstep {log : Comparisons} {t : σ} (hrest : sem.Compares cs _ log t) :
          sem.Compares cs s ((r.2, i, sem.outranks s r.1 c) :: log) t := .cons hr hc hrest
      cases hout : sem.outranks s r.1 c with
      | true =>
        rw [hout] at hstep
        exact ⟨_, hstep .nil, fun _ => ⟨r, List.mem_cons_self, hj, List.mem_cons_self⟩, nofun⟩
      | false =>
        rw [hout] at hstep
        obtain ⟨log, hrun, hbeaten, hnot⟩ :=
          ih hrivals (sem.compare (r.1.id, r.1.decl) (c.id, c.decl) s).2
        refine ⟨_, hstep hrun, fun h => ?_, fun h => ?_⟩
        · obtain ⟨x, hx, hne, hmem⟩ := hbeaten h
          exact ⟨x, List.mem_cons_of_mem _ hx, hne, List.mem_cons_of_mem _ hmem⟩
        · refine List.forall_mem_cons.mpr ⟨fun _ => List.mem_cons_self, fun x hx hne => ?_⟩
          exact List.mem_cons_of_mem _ (hnot h x hx hne)

variable (sem) in
theorem unbeaten_compares {rivals ps : List (Candidate × Nat)} (hrivals : Placed cs rivals)
    (hps : Placed cs ps) (s : σ) :
    ∃ log, sem.Compares cs s log (sem.unbeaten rivals ps s).2 ∧
      (sem.unbeaten rivals ps s).1.Sublist (ps.map (·.2)) ∧
      (∀ i ∈ (sem.unbeaten rivals ps s).1, ∀ r ∈ rivals, r.2 ≠ i → (r.2, i, false) ∈ log) ∧
      ∀ c ∈ ps, c.2 ∈ (sem.unbeaten rivals ps s).1 ∨
        ∃ r ∈ rivals, r.2 ≠ c.2 ∧ (r.2, c.2, true) ∈ log := by
  induction ps generalizing s with
  | nil => exact ⟨[], .nil, .slnil, nofun, nofun⟩
  | cons c ps ih =>
    obtain ⟨c, i⟩ := c
    obtain ⟨hc, hps⟩ := List.forall_mem_cons.mp hps
    obtain ⟨log₁, hrun₁, hbeaten, hnot⟩ := isBeaten_compares sem hc hrivals s
    obtain ⟨log₂, hrun₂, hsub, hfree, hrest⟩ := ih hps (sem.isBeaten i c rivals s).2
    have hrest' : ∀ b ∈ ps, b.2 ∈ (sem.unbeaten rivals ps (sem.isBeaten i c rivals s).2).1 ∨
        ∃ r ∈ rivals, r.2 ≠ b.2 ∧ (r.2, b.2, true) ∈ log₁ ++ log₂ := fun b hb =>
      (hrest b hb).imp_right fun ⟨r, hr, hne, hmem⟩ =>
        ⟨r, hr, hne, List.mem_append_right log₁ hmem⟩
    rw [unbeaten, bind_run, bind_run]
    refine ⟨log₁ ++ log₂, hrun₁.append hrun₂, ?_⟩
    cases h : (sem.isBeaten i c rivals s).1 with
    | true =>
      refine ⟨hsub.cons i, fun k hk r hr hne => ?_, List.forall_mem_cons.mpr ⟨.inr ?_, hrest'⟩⟩
      · exact List.mem_append_right _ (hfree k hk r hr hne)
      · obtain ⟨r, hr, hne, hmem⟩ := hbeaten h
        exact ⟨r, hr, hne, List.mem_append_left _ hmem⟩
    | false =>
      refine ⟨hsub.cons_cons i, List.forall_mem_cons.mpr ⟨fun r hr hne => ?_, fun k hk r hr hne => ?_⟩,
        List.forall_mem_cons.mpr ⟨.inl List.mem_cons_self, fun b hb => ?_⟩⟩
      · exact List.mem_append_left _ (hnot h r hr hne)
      · exact List.mem_append_right _ (hfree k hk r hr hne)
      · exact (hrest' b hb).imp_left (List.mem_cons_of_mem i)

/-! ## The candidates of the best level -/

theorem placed_topCandidates (cs : List Candidate) : Placed cs (topCandidates cs) :=
  fun (_, _) h => (mem_topCandidates.mp h).1

theorem isTop_iff : Candidate.IsTop cs i ↔ ∃ c, (c, i) ∈ topCandidates cs := by
  refine exists_congr fun c => ?_
  rw [mem_topCandidates]
  refine and_congr_right fun hc => ?_
  have hle : c.level ≤ topLevel cs := le_topLevel (List.mem_of_getElem? hc)
  rw [← topLevel_le_iff]
  exact ⟨fun h => Level.le_antisymm hle h, fun h => h ▸ Level.le_refl _⟩

theorem pairwise_topCandidates (cs : List Candidate) :
    ((topCandidates cs).map (·.2)).Pairwise (· < ·) := by
  refine List.Pairwise.sublist (List.filter_sublist.map _) ?_
  rw [List.zipIdx_map_snd]
  exact List.pairwise_lt_range'

end Semantics

/-! ## The choice -/

namespace Candidate

variable {cs : List Candidate} {i j i' j' : Nat}

/-- No other candidate of the best level was found strictly more specialized. -/
structure Prevails (cs : List Candidate) (log : Comparisons) (i : Nat) : Prop where
  top : IsTop cs i
  free {j : Nat} : IsTop cs j → j ≠ i → (j, i, false) ∈ log

/-- Each candidate of the best level lost to another one. -/
def Deadlock (cs : List Candidate) (log : Comparisons) : Prop :=
  ∀ i, IsTop cs i → ∃ j, IsTop cs j ∧ j ≠ i ∧ (j, i, true) ∈ log

/-- The first two candidates of the best level. -/
structure FirstTwo (cs : List Candidate) (i j : Nat) : Prop where
  lt : i < j
  left : IsTop cs i
  right : IsTop cs j
  first {k : Nat} : IsTop cs k → k = i ∨ j ≤ k

theorem FirstTwo.unique (h : FirstTwo cs i j) (h' : FirstTwo cs i' j') : i = i' ∧ j = j' := by
  have hi := h.first h'.left
  have hj := h.first h'.right
  have hi' := h'.first h.left
  have hj' := h'.first h.right
  have hlt := h.lt
  have hlt' := h'.lt
  omega

end Candidate

/-- The choice among the candidates that are left, or else between two of the others. -/
def Selection.among (i j : Nat) : List Nat → Selection
  | [w] => .unique w
  | v :: w :: _ => .ambiguous v w
  | [] => .ambiguous i j

/-- What the comparisons say of the choice. -/
structure Selection.Follows (cs : List Candidate) (log : Comparisons) (r : Selection) : Prop where
  empty : r = .empty ↔ cs = []
  unique {i : Nat} : r = .unique i → Candidate.Prevails cs log i
  /-- In a deadlock the first two are said to be ambiguous. -/
  ambiguous {i j : Nat} : r = .ambiguous i j → i < j ∧
    (Candidate.Prevails cs log i ∧ Candidate.Prevails cs log j ∨
      Candidate.Deadlock cs log ∧ Candidate.FirstTwo cs i j)

namespace Semantics

variable {σ : Type} {sem : Semantics σ} {cs : List Candidate} {s t : σ} {i j : Nat}
  {log : Comparisons} {r : Selection}

theorem firstTwo_of_topCandidates {c d : Candidate} {rest : List (Candidate × Nat)}
    (h : topCandidates cs = (c, i) :: (d, j) :: rest) : Candidate.FirstTwo cs i j := by
  have hsorted := pairwise_topCandidates cs
  have htop {k : Nat} : Candidate.IsTop cs k ↔ ∃ x, (x, k) ∈ topCandidates cs := isTop_iff
  rw [h] at htop
  rw [h, List.map_cons, List.map_cons, List.pairwise_cons, List.pairwise_cons] at hsorted
  refine ⟨hsorted.1 j List.mem_cons_self, htop.mpr ⟨c, List.mem_cons_self⟩,
    htop.mpr ⟨d, List.mem_cons_of_mem _ List.mem_cons_self⟩, fun hk => ?_⟩
  obtain ⟨x, hx⟩ := htop.mp hk
  rcases List.mem_cons.mp hx with heq | hx
  · exact .inl (Prod.mk.inj heq).2
  rcases List.mem_cons.mp hx with heq | hx
  · exact .inr (Prod.mk.inj heq).2.ge
  · exact .inr (hsorted.2.1 _ (List.mem_map_of_mem hx)).le

/-- The candidates of the best level that are left have prevailed, and the other ones have lost. -/
theorem unbeaten_topCandidates (sem : Semantics σ) (cs : List Candidate) (s : σ) :
    ∃ log, sem.Compares cs s log (sem.unbeaten (topCandidates cs) (topCandidates cs) s).2 ∧
      (sem.unbeaten (topCandidates cs) (topCandidates cs) s).1.Pairwise (· < ·) ∧
      (∀ k ∈ (sem.unbeaten (topCandidates cs) (topCandidates cs) s).1,
        Candidate.Prevails cs log k) ∧
      ((sem.unbeaten (topCandidates cs) (topCandidates cs) s).1 = [] →
        Candidate.Deadlock cs log) := by
  have hplaced := placed_topCandidates cs
  obtain ⟨log, hrun, hsub, hfree, hrest⟩ := unbeaten_compares sem hplaced hplaced s
  refine ⟨log, hrun, (pairwise_topCandidates cs).sublist hsub, fun k hk => ?_, fun hnil k hk => ?_⟩
  · obtain ⟨⟨x, k⟩, hx, rfl⟩ := List.mem_map.mp (hsub.mem hk)
    refine ⟨isTop_iff.mpr ⟨x, hx⟩, fun hl hne => ?_⟩
    obtain ⟨y, hy⟩ := isTop_iff.mp hl
    exact hfree k hk (y, _) hy hne
  · obtain ⟨x, hx⟩ := isTop_iff.mp hk
    obtain hleft | ⟨⟨y, l⟩, hy, hne, hmem⟩ := hrest _ hx
    · rw [hnil] at hleft
      cases hleft
    · exact ⟨l, isTop_iff.mpr ⟨y, hy⟩, hne, hmem⟩

/-- A candidate that is alone on the best level is not compared with any other. -/
theorem follows_of_alone {c : Candidate} (h : topCandidates cs = [(c, i)]) :
    (Selection.unique i).Follows cs [] := by
  have htop {k : Nat} : Candidate.IsTop cs k ↔ k = i := by
    rw [isTop_iff, h]
    simp
  have hcs : cs ≠ [] := by
    rintro rfl
    cases h
  refine ⟨⟨nofun, fun h => absurd h hcs⟩, fun hi => ?_, nofun⟩
  obtain rfl := Selection.unique.inj hi
  exact ⟨htop.mpr rfl, fun hj hne => absurd (htop.mp hj) hne⟩

/-- The choice among those that are left. -/
theorem follows_of_left {left : List Nat} (htwo : Candidate.FirstTwo cs i j)
    (hsorted : left.Pairwise (· < ·)) (hprevails : ∀ k ∈ left, Candidate.Prevails cs log k)
    (hdead : left = [] → Candidate.Deadlock cs log) :
    (Selection.among i j left).Follows cs log := by
  have hcs : cs ≠ [] := by
    rintro rfl
    obtain ⟨c, hc, -⟩ := htwo.left
    cases hc
  match left with
  | [] =>
    refine ⟨⟨nofun, fun h => absurd h hcs⟩, nofun, fun h => ?_⟩
    obtain ⟨rfl, rfl⟩ := Selection.ambiguous.inj h
    exact ⟨htwo.lt, .inr ⟨hdead rfl, htwo⟩⟩
  | [w] =>
    refine ⟨⟨nofun, fun h => absurd h hcs⟩, fun h => ?_, nofun⟩
    obtain rfl := Selection.unique.inj h
    exact hprevails _ List.mem_cons_self
  | v :: w :: _ =>
    refine ⟨⟨nofun, fun h => absurd h hcs⟩, nofun, fun h => ?_⟩
    obtain ⟨rfl, rfl⟩ := Selection.ambiguous.inj h
    have hlt := List.rel_of_pairwise_cons hsorted List.mem_cons_self
    exact ⟨hlt, .inl ⟨hprevails _ List.mem_cons_self,
      hprevails _ (List.mem_cons_of_mem _ List.mem_cons_self)⟩⟩

theorem selectBest_of_nil (h : topCandidates cs = []) :
    sem.selectBest cs s = (.empty, s) := by
  rw [selectBest, h]
  rfl

theorem selectBest_of_alone {c : Candidate} (h : topCandidates cs = [(c, i)]) :
    sem.selectBest cs s = (.unique i, s) := by
  rw [selectBest, h]
  rfl

theorem selectBest_of_two {c d : Candidate} {rest : List (Candidate × Nat)}
    (h : topCandidates cs = (c, i) :: (d, j) :: rest) : sem.selectBest cs s =
      (.among i j (sem.unbeaten (topCandidates cs) (topCandidates cs) s).1,
        (sem.unbeaten (topCandidates cs) (topCandidates cs) s).2) := by
  rw [selectBest, h]
  dsimp only
  rw [bind_run]
  rcases sem.unbeaten ((c, i) :: (d, j) :: rest) ((c, i) :: (d, j) :: rest) s with
    ⟨_ | ⟨v, _ | ⟨w, more⟩⟩, t⟩ <;> rfl

theorem follows_selectBest (sem : Semantics σ) (cs : List Candidate) (s : σ) :
    ∃ log, sem.Compares cs s log (sem.selectBest cs s).2 ∧
      (sem.selectBest cs s).1.Follows cs log := by
  rcases h : topCandidates cs with _ | ⟨⟨c, i⟩, _ | ⟨⟨d, j⟩, rest⟩⟩
  · rw [selectBest_of_nil h]
    exact ⟨[], .nil, ⟨fun _ => topCandidates_eq_nil h, fun _ => rfl⟩, nofun, nofun⟩
  · rw [selectBest_of_alone h]
    exact ⟨[], .nil, follows_of_alone h⟩
  · obtain ⟨log, hrun, hsorted, hprevails, hdead⟩ := sem.unbeaten_topCandidates cs s
    rw [selectBest_of_two h]
    exact ⟨log, hrun, follows_of_left (firstTwo_of_topCandidates h) hsorted hprevails hdead⟩

/-! ## Comparisons that depend on nothing -/

/-- The winner is a best candidate, and candidates that are ambiguous are best ones of which neither
beats the other, by the comparisons in this state. -/
structure ChoosesBest (sem : Semantics σ) (cs : List Candidate) (s : σ) (r : Selection) :
    Prop where
  empty : r = .empty ↔ cs = []
  unique {i : Nat} : r = .unique i → Candidate.IsTop cs i ∧
    ∀ j, Candidate.IsTop cs j → j ≠ i → ¬sem.Outranks cs s j i
  ambiguous {i j : Nat} : r = .ambiguous i j → i ≠ j ∧ Candidate.IsTop cs i ∧
    Candidate.IsTop cs j ∧ ¬sem.Outranks cs s i j ∧ ¬sem.Outranks cs s j i

/-- Each candidate of the best level loses to another one, and one of the first two to the other. -/
structure Deadlocks (sem : Semantics σ) (cs : List Candidate) (s : σ) (i j : Nat) : Prop where
  firstTwo : Candidate.FirstTwo cs i j
  outranked {k : Nat} : Candidate.IsTop cs k →
    ∃ l, Candidate.IsTop cs l ∧ l ≠ k ∧ sem.Outranks cs s l k
  uneven : sem.Outranks cs s i j ∨ sem.Outranks cs s j i

section

variable (H : sem.Settled cs s) (hrun : sem.Compares cs s log t) (hr : r.Follows cs log)
include H hrun

theorem Settled.not_outranks_of_prevails (hi : Candidate.Prevails cs log i)
    (hj : Candidate.IsTop cs j) (hne : j ≠ i) : ¬sem.Outranks cs s j i :=
  H.not_outranks_of_mem hrun (hi.free hj hne)

theorem Settled.not_prevails_of_deadlocks (h : sem.Deadlocks cs s i j) {k : Nat} :
    ¬Candidate.Prevails cs log k := by
  intro hk
  obtain ⟨l, hl, hne, hout⟩ := h.outranked hk.top
  exact H.not_outranks_of_prevails hrun hk hl hne hout

include hr

theorem Settled.choosesBest (hfree : ∀ i j, ¬sem.Deadlocks cs s i j) : sem.ChoosesBest cs s r where
  empty := hr.empty
  unique {i} h := by
    have hi := hr.unique h
    exact ⟨hi.top, fun j => H.not_outranks_of_prevails hrun hi⟩
  ambiguous {i j} h := by
    obtain ⟨hlt, ⟨hi, hj⟩ | ⟨hdead, htwo⟩⟩ := hr.ambiguous h
    · exact ⟨hlt.ne, hi.top, hj.top, H.not_outranks_of_prevails hrun hj hi.top hlt.ne,
        H.not_outranks_of_prevails hrun hi hj.top hlt.ne'⟩
    · have houtranked {k : Nat} (hk : Candidate.IsTop cs k) :
          ∃ l, Candidate.IsTop cs l ∧ l ≠ k ∧ sem.Outranks cs s l k := by
        obtain ⟨l, hl, hne, hmem⟩ := hdead k hk
        exact ⟨l, hl, hne, H.outranks_of_mem hrun hmem⟩
      have heven := not_or.mp fun h => hfree i j ⟨htwo, houtranked, h⟩
      exact ⟨hlt.ne, htwo.left, htwo.right, heven.1, heven.2⟩

theorem Settled.not_choosesBest (h : sem.Deadlocks cs s i j) : ¬sem.ChoosesBest cs s r := by
  intro hbest
  have hnone {k : Nat} : ¬Candidate.Prevails cs log k := H.not_prevails_of_deadlocks hrun h
  cases hcase : r with
  | empty =>
    obtain ⟨c, hc, -⟩ := h.firstTwo.left
    rw [hr.empty.mp hcase] at hc
    cases hc
  | unique k => exact hnone (hr.unique hcase)
  | ambiguous k l =>
    obtain ⟨-, ⟨hk, -⟩ | ⟨-, htwo⟩⟩ := hr.ambiguous hcase
    · exact hnone hk
    · obtain ⟨rfl, rfl⟩ := h.firstTwo.unique htwo
      obtain ⟨-, -, -, hij, hji⟩ := hbest.ambiguous hcase
      exact h.uneven.elim hij hji

end

/-- What a selection rests on. -/
structure Crowns (sem : Semantics σ) (cs : List Candidate) (s : σ) : Prop where
  /-- The choice follows from the comparisons made for it. -/
  follows : ∃ log, sem.Compares cs s log (sem.selectBest cs s).2 ∧
    (sem.selectBest cs s).1.Follows cs log
  /-- Where the comparisons depend on no earlier ones, a best candidate wins, and ambiguous ones do
  not beat each other, unless there is a deadlock. -/
  best : sem.Settled cs s →
    (sem.ChoosesBest cs s (sem.selectBest cs s).1 ↔ ∀ i j, ¬sem.Deadlocks cs s i j)

/-- **The winner of a selection is a best candidate.** A candidate wins if it has the best level and
no other one of that level is strictly more specialized; several such candidates are ambiguous. Only
if there is no such candidate the first two of the best level are said to be ambiguous although one
may beat the other. -/
theorem crowns (sem : Semantics σ) (cs : List Candidate) (s : σ) : sem.Crowns cs s where
  follows := sem.follows_selectBest cs s
  best H := by
    obtain ⟨log, hrun, hr⟩ := sem.follows_selectBest cs s
    exact ⟨fun hbest i j h => H.not_choosesBest hrun hr h hbest, H.choosesBest hrun hr⟩

end Semantics

/-- A front end to which `int`, `long` and `short` convert in a circle, and `int` and `short` to
`byte`. -/
def circling : Semantics Unit where
  evaluate _ _ := pure (.error ⟨"", {}⟩)
  openScope s := pure s
  declareSymbol _ _ _ := pure ()
  symbolName _ _ := ""
  conversion
    | _, .basic .int, .basic .long | _, .basic .long, .basic .short
    | _, .basic .short, .basic .int | _, .basic .int, .basic .byte
    | _, .basic .short, .basic .byte => .convert
    | _, a, b => if a = b then .exact else .noMatch

/-- A declaration with one value parameter of the type, that a request matches by conversion. -/
def valueCandidate (id : DeclId) (name : String) (t : BasicTy) : Candidate where
  id := id
  decl := { name, params := [{ name := "n", kind := .value { ty := .basic t } }] }
  level := .convert

/-- `A(int n)`, `B(long n)`, `C(short n)` and `D(byte n)`. -/
def circle : List Candidate :=
  [valueCandidate ⟨0⟩ "A" .int, valueCandidate ⟨1⟩ "B" .long, valueCandidate ⟨2⟩ "C" .short,
    valueCandidate ⟨3⟩ "D" .byte]

/-- Each of the four is beaten by another one. `A` and `B` are said to be ambiguous, though `A` is
strictly more specialized; of `B` and `D` neither is. -/
theorem not_choosesBest_circle : circling.Settled circle () ∧
    (circling.selectBest circle ()).1 = .ambiguous 0 1 ∧ circling.Outranks circle () 0 1 ∧
    ¬circling.Outranks circle () 1 3 ∧ ¬circling.Outranks circle () 3 1 ∧
    ¬circling.ChoosesBest circle () (circling.selectBest circle ()).1 := by
  have hchoice : (circling.selectBest circle ()).1 = .ambiguous 0 1 := rfl
  have hout : circling.Outranks circle () 0 1 := ⟨_, _, rfl, rfl, rfl⟩
  refine ⟨fun _ _ _ _ _ => .rfl, hchoice, hout, ?_, ?_, fun h => ?_⟩
  · rintro ⟨_, _, ⟨⟩, ⟨⟩, h⟩
    cases h
  · rintro ⟨_, _, ⟨⟩, ⟨⟩, h⟩
    cases h
  · obtain ⟨-, -, -, hnot, -⟩ := h.ambiguous hchoice
    exact hnot hout

end Templates
