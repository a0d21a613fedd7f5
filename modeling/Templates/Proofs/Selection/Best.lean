import Templates.Proofs.Ranking.Fits
import Templates.Proofs.Selection.Agreement

/-!
# The best of the candidates

With an impartial front end the comparison of two declarations depends neither on their numbers nor
on the state (`Semantics.Impartial.compare`), so one state will do to say which declarations beat
which (`Semantics.beats`). A candidate is chosen if it alone is surpassed by none
(`Semantics.Impartial.selectBest`), wherever it stands.
-/

namespace Templates

/-- No stand-in is written in the declaration, and its scope is a known one. -/
structure Decl.Neutral (known : ScopeId → Prop) (d : Decl) : Prop where
  scope : known d.scope
  standInFree : d.StandInFree

/-! ## Stand-ins -/

section

variable {a b : DeclId} {k : ParamKind}

theorem Arg.toType?_fill (f : Filling) (x : Arg) :
    (x.fill f).toType? = x.toType?.map (Ty.fill f) := by
  cases x <;> rfl

theorem ParamKind.StandInFree.standIn_swap (hk : k.StandInFree) (i : ParamIdx)
    (spec : Option Value) :
    (k.standIn ⟨a, i⟩ spec).fill (Renaming.swap a b).filling =
      k.standIn ⟨b, i⟩ (spec.map (Value.fill (Renaming.swap a b).filling)) := by
  cases k with
  | tuple => rfl
  | type p | this p =>
    refine congrArg Arg.type ?_
    cases hp : p.spec with
    | none => exact congrArg Ty.standIn (Renaming.swap_standIn i)
    | some t => exact Renaming.swap_withStandIns.1 t (hk.pattern hp)
  | value p =>
    cases spec with
    | some v => rfl
    | none =>
      exact congrArg₂ Arg.value (Renaming.swap_withStandIns.1 _ (hk.pattern rfl))
        (congrArg Const.standIn (Renaming.swap_standIn i))
  | symbol p =>
    refine congrArg Arg.symbol ?_
    cases hp : p.specSymbol with
    | none => exact Renaming.swap_placeholder i
    | some x =>
      have hx := hk.symbols x (List.mem_append_left _ (Option.mem_toList.mpr hp))
      rw [Option.getD_some, Option.getD_some]
      exact (Renaming.swap a b).symbol_of_real hx

end

namespace Semantics

variable {σ : Type} {sem : Semantics σ} {ok : σ → Prop} {known : ScopeId → Prop} {d d' : Decl}
  {a b x y : DeclId} {s s' s₀ : σ}

namespace Impartial

variable (hsem : sem.Impartial ok known)
include hsem

theorem specValue (r : Renaming) {scope : ScopeId} (hscope : known scope) (k : ParamKind) :
    Agree ok (Option.map (Value.fill r.filling)) (sem.specValue scope k)
      (sem.specValue scope k) := by
  unfold Semantics.specValue
  split
  · next e _ =>
    refine (hsem.evaluate r e hscope).bind fun result => ?_
    cases result <;> exact .pure rfl
  · exact .pure rfl

theorem standIns {scope : ScopeId} (hscope : known scope) (n : Nat) (ps : List Param)
    (hps : ∀ p ∈ ps, p.kind.StandInFree) :
    Agree ok (fun (as, t) => (Arg.fillList (Renaming.swap a b).filling as,
        t.map (Ty.fill (Renaming.swap a b).filling)))
      (sem.standIns a scope n ps) (sem.standIns b scope n ps) := by
  induction ps generalizing n with
  | nil => exact .pure rfl
  | cons p ps ih =>
    obtain ⟨hp, hps⟩ := List.forall_mem_cons.mp hps
    rw [Semantics.standIns, Semantics.standIns]
    split
    · exact .pure rfl
    refine (hsem.specValue (Renaming.swap a b) hscope p.kind).bind fun spec =>
      (ih (n + 1) hps).bind fun rest => ?_
    rw [← hp.standIn_swap]
    obtain ⟨as, t⟩ := rest
    dsimp only
    split
    · refine .pure ?_
      rw [Arg.toType?_fill]
      cases t <;> rfl
    · exact .pure rfl

/-! ## Comparison -/

variable (hd : d.Neutral known) (hd' : d'.Neutral known)
include hd hd'

theorem leastAsSpecialized :
    Agree ok id (sem.leastAsSpecialized (a, d) (x, d'))
      (sem.leastAsSpecialized (b, d) (y, d')) := by
  unfold Semantics.leastAsSpecialized
  refine (hsem.standIns hd.scope 0 d.params hd.standInFree).bind fun (args, receiver) => ?_
  refine (hsem.matchDecl (Renaming.swap a b) hd'.scope hd'.standInFree).bind fun result => ?_
  cases result with
  | error why => exact .pure rfl
  | ok ded =>
    have same : Agree ok id
        (if .noMatch < ded.level && d.isOpenVariadic && !d'.isVariadic then pure .noMatch
          else pure ded.level)
        (if .noMatch < ded.level && d.isOpenVariadic && !d'.isVariadic then pure .noMatch
          else pure ded.level) := by
      split <;> exact .pure rfl
    exact same

/-- The comparison depends neither on the numbers nor on the state. -/
theorem compare : Agree ok id (sem.compare (a, d) (x, d')) (sem.compare (b, d) (y, d')) :=
  (hsem.leastAsSpecialized hd hd').bind fun _ =>
    (hsem.leastAsSpecialized hd' hd).bind fun _ => .pure rfl

end Impartial

/-- The first declaration is more specific than the second, as far as `s₀` shows it. -/
def beats (sem : Semantics σ) (s₀ : σ) (d d' : Decl) : Bool :=
  (sem.compare (⟨0⟩, d) (⟨0⟩, d') s₀).1 = .moreSpecific

namespace Impartial

variable (hsem : sem.Impartial ok known) (h₀ : ok s₀)
include hsem h₀

theorem compare_run (hd : d.Neutral known) (hd' : d'.Neutral known) (hs : ok s) (a x : DeclId) :
    ((sem.compare (a, d) (x, d') s).1 = .moreSpecific ↔ sem.beats s₀ d d' = true) ∧
      ok (sem.compare (a, d) (x, d') s).2 := by
  obtain ⟨h, -, hok⟩ := hsem.compare (b := a) (y := x) hd hd' h₀ hs
  refine ⟨?_, hok⟩
  rw [h, beats, decide_eq_true_eq]
  rfl

/-- No declaration beats itself. -/
theorem beats_irrefl (hd : d.Neutral known) : sem.beats s₀ d d = false := by
  have hleast := hsem.leastAsSpecialized (a := ⟨0⟩) (x := ⟨0⟩) (b := ⟨0⟩) (y := ⟨0⟩) hd hd
  obtain ⟨-, h₁, -⟩ := hleast h₀ h₀
  obtain ⟨h, -, -⟩ := hleast h₀ h₁
  refine decide_eq_false ?_
  rw [compare_eq_moreSpecific_iff, h]
  exact fun h => h.2 h.1

/-! ## The choice -/

variable {i : Nat} {c : Candidate} {rivals cs : List (Candidate × Nat)}

theorem isBeaten (hc : c.decl.Neutral known)
    (hrivals : ∀ r ∈ rivals, r.1.decl.Neutral known) (hs : ok s) :
    (sem.isBeaten i c rivals s).1 = rivals.any (fun r => r.2 ≠ i && sem.beats s₀ r.1.decl c.decl) ∧
      ok (sem.isBeaten i c rivals s).2 := by
  induction rivals generalizing s with
  | nil => exact ⟨rfl, hs⟩
  | cons r rivals ih =>
    obtain ⟨r, j⟩ := r
    obtain ⟨hr, hrivals⟩ := List.forall_mem_cons.mp hrivals
    rw [Semantics.isBeaten, List.any_cons]
    by_cases hj : j = i
    · rw [if_pos hj]
      obtain ⟨h, hok⟩ := ih hrivals hs
      exact ⟨by rw [h]; simp [hj], hok⟩
    · rw [if_neg hj, bind_run]
      obtain ⟨hbeats, hok⟩ := hsem.compare_run h₀ hr hc hs r.id c.id
      by_cases hb : sem.beats s₀ r.decl c.decl = true
      · rw [if_pos (hbeats.mpr hb)]
        refine ⟨?_, hok⟩
        change true = _
        simp [hj, hb]
      · rw [if_neg (mt hbeats.mp hb)]
        obtain ⟨h, hok⟩ := ih hrivals hok
        exact ⟨by rw [h]; simp [hb], hok⟩

theorem unbeaten (hrivals : ∀ r ∈ rivals, r.1.decl.Neutral known)
    (hcs : ∀ c ∈ cs, c.1.decl.Neutral known) (hs : ok s) :
    (sem.unbeaten rivals cs s).1 = (cs.filter fun c =>
        !rivals.any fun r => r.2 ≠ c.2 && sem.beats s₀ r.1.decl c.1.decl).map (·.2) ∧
      ok (sem.unbeaten rivals cs s).2 := by
  induction cs generalizing s with
  | nil => exact ⟨rfl, hs⟩
  | cons c cs ih =>
    obtain ⟨hc, hcs⟩ := List.forall_mem_cons.mp hcs
    obtain ⟨hbeaten, hok⟩ := hsem.isBeaten h₀ (i := c.2) hc hrivals hs
    obtain ⟨hrest, hok⟩ := ih hcs hok
    rw [Semantics.unbeaten, bind_run, bind_run, hbeaten, hrest, List.filter_cons]
    refine ⟨?_, hok⟩
    cases rivals.any fun r => r.2 ≠ c.2 && sem.beats s₀ r.1.decl c.1.decl <;> rfl

end Impartial

/-- The candidate with the greater level surpasses the other, and of two with the same level the one
whose declaration beats the other's. -/
def surpasses (sem : Semantics σ) (s₀ : σ) (x y : Decl × Level) : Bool :=
  y.2 < x.2 || x.2 = y.2 && sem.beats s₀ x.1 y.1

/-- No candidate of the list surpasses this one. -/
def isBest (sem : Semantics σ) (s₀ : σ) (cs : List (Decl × Level)) (c : Decl × Level) : Bool :=
  !cs.any fun r => sem.surpasses s₀ r c

end Semantics

namespace Candidate

def ranked (c : Candidate) : Decl × Level := (c.decl, c.level)

end Candidate

namespace Level

theorem noMatch_le (a : Level) : noMatch ≤ a := by cases a <;> decide

theorem le_refl (a : Level) : a ≤ a := by cases a <;> decide

theorem max_le_iff {a b c : Level} : max a b ≤ c ↔ a ≤ c ∧ b ≤ c := by
  cases a <;> cases b <;> cases c <;> decide

theorem not_lt {a b : Level} : ¬a < b ↔ b ≤ a := by cases a <;> cases b <;> decide

theorem max_choice (a b : Level) : max a b = a ∨ max a b = b := by
  cases a <;> cases b <;> decide

end Level

namespace Semantics

variable {cs : List Candidate}

/-- The best level of the candidates. -/
def topLevel (cs : List Candidate) : Level := cs.foldl (fun l c => max l c.level) .noMatch

theorem topLevel_le_iff {l : Level} : topLevel cs ≤ l ↔ ∀ c ∈ cs, c.level ≤ l := by
  have general (k : Level) : cs.foldl (fun l c => max l c.level) k ≤ l ↔
      k ≤ l ∧ ∀ c ∈ cs, c.level ≤ l := by
    induction cs generalizing k with
    | nil => simp
    | cons c cs ih => rw [List.foldl_cons, ih, Level.max_le_iff, List.forall_mem_cons, and_assoc]
  rw [topLevel, general, and_iff_right (Level.noMatch_le l)]

theorem le_topLevel {c : Candidate} (hc : c ∈ cs) : c.level ≤ topLevel cs :=
  topLevel_le_iff.mp (Level.le_refl _) c hc

theorem exists_topLevel (hcs : cs ≠ []) : ∃ c ∈ cs, c.level = topLevel cs := by
  have general (k : Level) : cs.foldl (fun l c => max l c.level) k = k ∨
      ∃ c ∈ cs, c.level = cs.foldl (fun l c => max l c.level) k := by
    clear hcs
    induction cs generalizing k with
    | nil => exact .inl rfl
    | cons c cs ih =>
      rw [List.foldl_cons]
      obtain h | ⟨x, hx, h⟩ := ih (max k c.level)
      · rw [h]
        obtain hk | hc := Level.max_choice k c.level
        · exact .inl hk
        · exact .inr ⟨c, List.mem_cons_self, hc.symm⟩
      · exact .inr ⟨x, List.mem_cons_of_mem c hx, h⟩
  obtain h | h := general .noMatch
  · obtain ⟨c, cs, rfl⟩ := List.exists_cons_of_ne_nil hcs
    refine ⟨c, List.mem_cons_self, Level.le_antisymm (le_topLevel List.mem_cons_self) ?_⟩
    rw [topLevel, h]
    exact Level.noMatch_le _
  · exact h

theorem mem_topCandidates {c : Candidate} {i : Nat} :
    (c, i) ∈ topCandidates cs ↔ cs[i]? = some c ∧ c.level = topLevel cs := by
  rw [← List.mk_mem_zipIdx_iff_getElem?]
  simp [topCandidates, topLevel]

theorem topCandidates_eq_nil (h : topCandidates cs = []) : cs = [] := by
  by_contra hcs
  obtain ⟨c, hc, hlevel⟩ := exists_topLevel hcs
  obtain ⟨i, hi⟩ := List.mem_iff_getElem?.mp hc
  have hmem := mem_topCandidates.mpr ⟨hi, hlevel⟩
  rw [h] at hmem
  cases hmem

variable {σ : Type} {sem : Semantics σ} {s₀ : σ}

/-- The best candidates with their places. -/
def bestPlaces (sem : Semantics σ) (s₀ : σ) (cs : List Candidate) : List (Candidate × Nat) :=
  cs.zipIdx.filter fun c => sem.isBest s₀ (cs.map Candidate.ranked) c.1.ranked

theorem isBest_eq_true {c : Candidate} : sem.isBest s₀ (cs.map Candidate.ranked) c.ranked = true ↔
    ∀ r ∈ cs, r.level ≤ c.level ∧ (r.level = c.level → sem.beats s₀ r.decl c.decl = false) := by
  rw [isBest, Bool.not_eq_true', List.any_eq_false, List.forall_mem_map]
  refine forall₂_congr fun r _ => ?_
  change ¬(c.level < r.level || r.level = c.level && sem.beats s₀ r.decl c.decl) = true ↔ _
  simp only [Bool.or_eq_true, Bool.and_eq_true, decide_eq_true_eq, not_or, not_and, Level.not_lt,
    Bool.not_eq_true]

/-- The best candidates are those of the best level that no other of that level beats. -/
theorem filter_topCandidates (hcs : ∀ c ∈ cs, sem.beats s₀ c.decl c.decl = false) :
    ((topCandidates cs).filter fun c =>
      !(topCandidates cs).any fun r => r.2 ≠ c.2 && sem.beats s₀ r.1.decl c.1.decl) =
      sem.bestPlaces s₀ cs := by
  conv_lhs => arg 2; rw [topCandidates]
  rw [List.filter_filter, bestPlaces]
  refine List.filter_congr fun (c, i) hc => ?_
  have hi := List.mk_mem_zipIdx_iff_getElem?.mp hc
  rw [Bool.eq_iff_iff, isBest_eq_true, Bool.and_eq_true, Bool.not_eq_true', List.any_eq_false,
    decide_eq_true_eq]
  constructor
  · rintro ⟨hunbeaten, hlevel : c.level = topLevel cs⟩ r hr
    refine ⟨by rw [hlevel]; exact le_topLevel hr, fun hrc => ?_⟩
    obtain ⟨j, hj⟩ := List.mem_iff_getElem?.mp hr
    by_cases hji : j = i
    · obtain rfl : r = c := Option.some.inj (hj.symm.trans (hji ▸ hi))
      exact hcs r hr
    · have hr := hunbeaten (r, j) (mem_topCandidates.mpr ⟨hj, hrc.trans hlevel⟩)
      simpa [hji] using hr
  · intro hbest
    have hlevel : c.level = topLevel cs :=
      Level.le_antisymm (le_topLevel (List.mem_of_getElem? hi))
        (topLevel_le_iff.mpr fun r hr => (hbest r hr).1)
    refine ⟨fun (r, j) hr => ?_, hlevel⟩
    obtain ⟨hj, hr⟩ := mem_topCandidates.mp hr
    have hr := (hbest r (List.mem_of_getElem? hj)).2 (hr.trans hlevel.symm)
    simp [hr]

/-- What is chosen among `n` candidates of which these are the best. -/
inductive Chooses (best : List (Candidate × Nat)) (n : Nat) : Selection → Prop
  | empty : n = 0 → Chooses best n .empty
  | unique {c i} : best = [(c, i)] → Chooses best n (.unique i)
  | ambiguous {i j} : i < n → j < n → best.length ≠ 1 → Chooses best n (.ambiguous i j)

theorem Impartial.selectBest {ok : σ → Prop} {known : ScopeId → Prop} {s : σ}
    (hsem : sem.Impartial ok known) (h₀ : ok s₀) (hcs : ∀ c ∈ cs, c.decl.Neutral known)
    (hs : ok s) : Chooses (sem.bestPlaces s₀ cs) cs.length (sem.selectBest cs s).1 := by
  have hirrefl : ∀ c ∈ cs, sem.beats s₀ c.decl c.decl = false := fun c hc =>
    hsem.beats_irrefl h₀ (hcs c hc)
  have hbest := filter_topCandidates hirrefl
  have htop {c : Candidate} {i : Nat} (h : (c, i) ∈ topCandidates cs) : i < cs.length :=
    (List.getElem?_eq_some_iff.mp (mem_topCandidates.mp h).1).1
  rcases h : topCandidates cs with _ | ⟨⟨c, i⟩, _ | ⟨⟨d, j⟩, rest⟩⟩ <;> rw [Semantics.selectBest, h]
  · exact .empty (by rw [topCandidates_eq_nil h]; rfl)
  · rw [h] at hbest
    refine .unique (c := c) (hbest.symm.trans ?_)
    simp
  · have hneutral : ∀ c ∈ topCandidates cs, c.1.decl.Neutral known := fun (c, i) hc =>
      hcs c (List.mem_of_getElem? (mem_topCandidates.mp hc).1)
    have hrun := (hsem.unbeaten h₀ hneutral hneutral hs).1
    have hplace {c : Candidate} {i : Nat} (h : (c, i) ∈ sem.bestPlaces s₀ cs) : i < cs.length :=
      htop (List.mem_of_mem_filter (hbest.symm ▸ h))
    rw [hbest] at hrun
    rw [h] at hrun htop
    dsimp only
    rw [bind_run, hrun]
    rcases hb : sem.bestPlaces s₀ cs with _ | ⟨⟨v, k⟩, _ | ⟨⟨w, l⟩, more⟩⟩
    · exact .ambiguous (htop List.mem_cons_self)
        (htop (List.mem_cons_of_mem _ List.mem_cons_self)) nofun
    · exact .unique rfl
    · rw [hb] at hplace
      exact .ambiguous (hplace List.mem_cons_self)
        (hplace (List.mem_cons_of_mem _ List.mem_cons_self)) (by simp)

end Semantics

end Templates
