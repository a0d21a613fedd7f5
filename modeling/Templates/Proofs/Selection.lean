import Mathlib.Data.Multiset.MapFold
import Templates.Engine.Select
import Templates.Proofs.Selection.Best
import Templates.Proofs.Selection.Overloads

/-!
# The order of declaration

Which declaration of an overload set is chosen for a list of arguments does not depend on the order
in which the set was declared (`Engine.select_perm`), if the front end is impartial
(`Semantics.Impartial`) and no stand-in is written in a declaration. With a stand-in written in one
it may (`not_select_perm`).
-/

namespace Templates

/-- What is chosen, whatever the numbers of the declarations. -/
inductive Verdict
  | chosen (d : Decl) (ded : Deduction)
  | ambiguous
  | noMatch (rejected : Multiset (Decl × Rejection))

/-- The outcome with the declarations in the place of their numbers. -/
def Engine.verdict (e : Engine) : Except SelectError (DeclId × Deduction) → Verdict
  | .ok (d, ded) => .chosen (e.decl d) ded
  | .error (.ambiguous _ _) => .ambiguous
  | .error (.noMatch rejected) => .noMatch (rejected.map fun (d, why) => (e.decl d, why))

variable {σ : Type} {sem : Semantics σ} {ok : σ → Prop} {known : ScopeId → Prop} {s₀ s s' : σ}
  {args : List Arg} {receiver : Option Ty} {m : ModuleId} {ds ds' : List Decl}

namespace Semantics

/-! ## The verdict on a list of declarations -/

/-- What matching says of a declaration, as far as `s₀` shows it. -/
def answer (sem : Semantics σ) (s₀ : σ) (args : List Arg) (receiver : Option Ty) (d : Decl) :
    Except Rejection Deduction := (sem.matchDecl d args receiver .instantiate s₀).1

/-- The declarations that match, with what is deduced. -/
def matchedOf (sem : Semantics σ) (s₀ : σ) (args : List Arg) (receiver : Option Ty)
    (ds : List Decl) : List (Decl × Deduction) :=
  ds.filterMap fun d => (sem.answer s₀ args receiver d).toOption.map (d, ·)

/-- The declarations that do not match, with the reasons. -/
def rejectedOf (sem : Semantics σ) (s₀ : σ) (args : List Arg) (receiver : Option Ty)
    (ds : List Decl) : List (Decl × Rejection) :=
  ds.filterMap fun d => match sem.answer s₀ args receiver d with
    | .ok _ => none
    | .error why => some (d, why)

theorem matchedOf_perm (h : ds.Perm ds') :
    (sem.matchedOf s₀ args receiver ds).Perm (sem.matchedOf s₀ args receiver ds') := h.filterMap _

theorem rejectedOf_perm (h : ds.Perm ds') :
    (sem.rejectedOf s₀ args receiver ds).Perm (sem.rejectedOf s₀ args receiver ds') :=
  h.filterMap _

/-- The matches that no other surpasses. -/
def bestOf (sem : Semantics σ) (s₀ : σ) (matched : List (Decl × Deduction)) :
    List (Decl × Deduction) :=
  matched.filter fun c => sem.isBest s₀ (matched.map fun c => (c.1, c.2.level)) (c.1, c.2.level)

/-- The one best match is chosen. -/
def verdict (sem : Semantics σ) (s₀ : σ) (matched : List (Decl × Deduction))
    (rejected : Multiset (Decl × Rejection)) : Verdict :=
  if matched.isEmpty then .noMatch rejected
  else
    match sem.bestOf s₀ matched with
    | [(d, ded)] => .chosen d ded
    | _ => .ambiguous

section

variable {ms ms' : List (Decl × Deduction)} {rejected : Multiset (Decl × Rejection)}

theorem verdict_of_best {d : Decl} {ded : Deduction} (h : sem.bestOf s₀ ms = [(d, ded)]) :
    sem.verdict s₀ ms rejected = .chosen d ded := by
  cases ms with
  | nil => cases h
  | cons c ms =>
    rw [verdict, h]
    rfl

theorem verdict_of_length_ne (hms : ms ≠ []) (h : (sem.bestOf s₀ ms).length ≠ 1) :
    sem.verdict s₀ ms rejected = .ambiguous := by
  rw [verdict, if_neg (mt List.isEmpty_iff.mp hms)]
  rcases hbest : sem.bestOf s₀ ms with _ | ⟨x, _ | ⟨y, best⟩⟩
  · rfl
  · rw [hbest] at h
    exact absurd rfl h
  · rfl

/-- The order of the matches does not count. -/
theorem verdict_perm (h : ms.Perm ms') :
    sem.verdict s₀ ms rejected = sem.verdict s₀ ms' rejected := by
  have hbest : (sem.bestOf s₀ ms).Perm (sem.bestOf s₀ ms') := by
    have hsame (c : Decl × Level) : sem.isBest s₀ (ms.map fun c => (c.1, c.2.level)) c =
        sem.isBest s₀ (ms'.map fun c => (c.1, c.2.level)) c := congrArg not (h.map _).any_eq
    simp only [bestOf, hsame]
    exact h.filter _
  by_cases hms : ms = []
  · rw [hms] at h ⊢
    rw [List.nil_perm.mp h]
  by_cases hone : (sem.bestOf s₀ ms).length = 1
  · obtain ⟨⟨d, ded⟩, hone⟩ := List.length_eq_one_iff.mp hone
    rw [hone] at hbest
    rw [verdict_of_best hone, verdict_of_best (List.singleton_perm.mp hbest).symm]
  · have hms' : ms' ≠ [] := fun h' => hms (List.perm_nil.mp (h' ▸ h))
    rw [verdict_of_length_ne hms hone, verdict_of_length_ne hms' (hbest.length_eq ▸ hone)]

end

/-! ## What the engine chooses -/

namespace Impartial

variable (hsem : sem.Impartial ok known) (h₀ : ok s₀)
include hsem h₀

variable (args receiver) in
theorem answer_run {d : Decl} (hd : d.Neutral known) (hs : ok s) :
    (sem.matchDecl d args receiver .instantiate s).1 = sem.answer s₀ args receiver d ∧
      ok (sem.matchDecl d args receiver .instantiate s).2 := by
  have hmatch : Agree ok Renaming.refl.deduced (sem.matchDecl d args receiver .instantiate) _ :=
    hsem.matchDecl .refl hd.scope hd.standInFree
  obtain ⟨h, -, hok⟩ := hmatch h₀ hs
  have hreceiver : receiver.map (Ty.fill Renaming.refl.filling) = receiver := by
    cases receiver with
    | none => rfl
    | some t => exact congrArg some (Renaming.fill_refl.1 t)
  rw [Renaming.fill_refl.2.2, hreceiver] at h hok
  refine ⟨h.trans ?_, hok⟩
  rw [answer]
  rcases (sem.matchDecl d args receiver .instantiate s₀).1 with why | ⟨l, as⟩
  · rfl
  · exact congrArg (fun as => Except.ok (Deduction.mk l as)) (Renaming.fill_refl.2.2 as)

end Impartial

/-- The match of a candidate. -/
def matchOf (c : Candidate × List Arg) : Decl × Deduction := (c.1.decl, ⟨c.1.level, c.2⟩)

/-- The declarations are parted into those that match and those that do not. -/
structure Parts (sem : Semantics σ) (s₀ : σ) (args : List Arg) (receiver : Option Ty) (e : Engine)
    (ds : List Decl) (ms : Matches) : Prop where
  matched : ms.matched.map matchOf = sem.matchedOf s₀ args receiver ds
  rejected : ms.rejected.map (fun (d, why) => (e.decl d, why)) = sem.rejectedOf s₀ args receiver ds
  decl : ∀ c ∈ ms.matched, e.decl c.1.id = c.1.decl
  mem : ∀ c ∈ ms.matched, c.1.decl ∈ ds

variable (args receiver m) in
theorem Impartial.matchOverloads (hsem : sem.Impartial ok known) (h₀ : ok s₀) {e : Engine}
    {ids : List DeclId} (hids : ∀ id ∈ ids, (e.decl id).Neutral known) (hs : ok s) :
    sem.Parts s₀ args receiver e ((ids.map e.decl).filter (·.isVisibleFrom m))
      (e.matchOverloads sem args receiver m ids s).1 ∧
    ok (e.matchOverloads sem args receiver m ids s).2 := by
  induction ids generalizing s with
  | nil => exact ⟨⟨rfl, rfl, List.forall_mem_nil _, List.forall_mem_nil _⟩, hs⟩
  | cons id ids ih =>
    obtain ⟨hd, hids⟩ := List.forall_mem_cons.mp hids
    rw [Engine.matchOverloads, List.map_cons, List.filter_cons]
    cases hv : (e.decl id).isVisibleFrom m with
    | false => exact ih hids hs
    | true =>
      obtain ⟨hanswer, hok⟩ := hsem.answer_run args receiver h₀ hd hs
      obtain ⟨H, hok⟩ := ih hids hok
      rw [if_pos rfl, if_neg (by decide), bind_run, bind_run, hanswer]
      rcases hd : sem.answer s₀ args receiver (e.decl id) with why | ded
      · refine ⟨⟨?_, ?_, H.decl, fun c hc => List.mem_cons_of_mem _ (H.mem c hc)⟩, hok⟩
        · rw [matchedOf, List.filterMap_cons_none (by rw [hd]; rfl)]
          exact H.matched
        · rw [rejectedOf, List.filterMap_cons_some (b := (e.decl id, why)) (by rw [hd])]
          exact congrArg _ H.rejected
      · refine ⟨⟨?_, ?_, List.forall_mem_cons.mpr ⟨rfl, H.decl⟩, List.forall_mem_cons.mpr
          ⟨List.mem_cons_self, fun c hc => List.mem_cons_of_mem _ (H.mem c hc)⟩⟩, hok⟩
        · rw [matchedOf, List.filterMap_cons_some (b := (e.decl id, ded)) (by rw [hd]; rfl)]
          exact congrArg _ H.matched
        · rw [rejectedOf, List.filterMap_cons_none (by rw [hd])]
          exact H.rejected

section

variable (sem s₀) (ms : List (Candidate × List Arg))

/-- The best matches with their places. -/
def bestMatches : List ((Candidate × List Arg) × Nat) :=
  ms.zipIdx.filter fun c => sem.isBest s₀ (ms.map fun c => c.1.ranked) c.1.1.ranked

theorem bestPlaces_map : sem.bestPlaces s₀ (ms.map (·.1)) =
    (sem.bestMatches s₀ ms).map fun c => (c.1.1, c.2) := by
  rw [bestPlaces, List.zipIdx_map, List.filter_map, List.map_map]
  rfl

theorem bestOf_map : sem.bestOf s₀ (ms.map matchOf) =
    (sem.bestMatches s₀ ms).map fun c => matchOf c.1 := by
  have places (p : Candidate × List Arg → Bool) :
      ms.filter p = (ms.zipIdx.filter fun c => p c.1).map (·.1) := by
    conv_lhs => rw [← List.zipIdx_map_fst 0 ms, List.filter_map]
    rfl
  rw [bestOf, List.filter_map, List.map_map, places, List.map_map]
  rfl

end

/-- What is chosen of an overload set depends on its declarations alone. -/
theorem Impartial.select (hsem : sem.Impartial ok known) (h₀ : ok s₀) {e : Engine} {d : DeclId}
    (hds : ((e.overloads d).map e.decl).filter (·.isVisibleFrom m) = ds)
    (hneutral : ∀ id ∈ e.overloads d, (e.decl id).Neutral known) (hs : ok s) :
    e.verdict (e.select sem d args receiver m s).1 =
      sem.verdict s₀ (sem.matchedOf s₀ args receiver ds) (sem.rejectedOf s₀ args receiver ds) := by
  obtain ⟨H, hok⟩ := hsem.matchOverloads args receiver m h₀ hneutral hs
  rw [hds] at H
  rw [Engine.select, bind_run]
  generalize e.matchOverloads sem args receiver m (e.overloads d) s = run at H hok ⊢
  obtain ⟨ms, s'⟩ := run
  have hcs : ∀ c ∈ ms.matched.map (·.1), c.decl.Neutral known := by
    intro c hc
    obtain ⟨x, hx, rfl⟩ := List.mem_map.mp hc
    have hmem := H.mem x hx
    rw [← hds] at hmem
    obtain ⟨id, hid, hdecl⟩ := List.mem_map.mp (List.mem_of_mem_filter hmem)
    rw [← hdecl]
    exact hneutral id hid
  have hchoice := hsem.selectBest h₀ hcs hok
  rw [bestPlaces_map, List.length_map] at hchoice
  rw [bind_run, ← H.matched, ← H.rejected]
  generalize sem.selectBest (ms.matched.map (·.1)) s' = run at hchoice ⊢
  obtain ⟨choice, s''⟩ := run
  dsimp only at hchoice ⊢
  cases hchoice with
  | empty h =>
    rw [List.eq_nil_of_length_eq_zero h]
    rfl
  | @unique c i h =>
    obtain ⟨⟨⟨c', as⟩, j⟩, hbest, h⟩ := List.map_eq_singleton_iff.mp h
    cases h
    have hmem : ((c', as), j) ∈ sem.bestMatches s₀ ms.matched := by
      rw [hbest]
      exact List.mem_cons_self
    have hi := List.mk_mem_zipIdx_iff_getElem?.mp (List.mem_of_mem_filter hmem)
    rw [verdict_of_best (by rw [bestOf_map, hbest]; rfl)]
    dsimp only
    rw [hi]
    change Verdict.chosen (e.decl c'.id) _ = .chosen c'.decl _
    rw [H.decl _ (List.mem_of_getElem? hi)]
  | ambiguous hi hj h =>
    rw [List.length_map] at h
    rw [verdict_of_length_ne (fun hms => ?_) (by rwa [bestOf_map, List.length_map])]
    · dsimp only
      rw [List.getElem?_eq_getElem hi, List.getElem?_eq_getElem hj]
      rfl
    · rw [List.map_eq_nil_iff.mp hms] at hi
      cases hi

end Semantics

theorem Decl.Neutral.marked {d : Decl} (h : d.Neutral known) : d.marked.Neutral known := by
  refine ⟨h.scope, fun p hp => ?_⟩
  obtain ⟨⟨q, i⟩, hq, rfl⟩ := List.mem_map.mp hp
  exact h.standInFree q (List.mem_of_getElem? (List.mk_mem_zipIdx_iff_getElem?.mp hq))

/-- **The order of declaration does not count.** Declared in another order, in another engine and
with other declarations in between, a set answers a list of arguments with the same declaration and
deduction, or is ambiguous as before, or rejects the arguments for the same reasons. -/
theorem Engine.select_perm {e e' : Engine} {ids ids' : List DeclId} {d d' : DeclId}
    (hsem : sem.Impartial ok known) (hds : ∀ d ∈ ds, d.Neutral known) (hperm : ds.Perm ds')
    (h : Declares ids ds e) (h' : Declares ids' ds' e') (hd : d ∈ ids) (hd' : d' ∈ ids')
    (hs : ok s) (hs' : ok s') :
    e.verdict (e.select sem d args receiver m s).1 =
      e'.verdict (e'.select sem d' args receiver m s').1 := by
  have hset := h.overloads hd
  have hset' := h'.overloads hd'
  have neutral {e : Engine} {ids : List DeclId} {ds : List Decl} (hds : ∀ d ∈ ds, d.Neutral known)
      (hset : ids.map e.decl = ds.map Decl.marked) : ∀ id ∈ ids, (e.decl id).Neutral known := by
    intro id hid
    have hmem : e.decl id ∈ ds.map Decl.marked := hset ▸ List.mem_map_of_mem hid
    obtain ⟨d, hd, hmarked⟩ := List.mem_map.mp hmem
    exact hmarked ▸ (hds d hd).marked
  rw [hsem.select hs (by rw [hset]) (neutral hds hset) hs,
    hsem.select hs (by rw [hset']) (neutral (fun d hd => hds d (hperm.mem_iff.mpr hd)) hset') hs']
  have hvisible := (hperm.map Decl.marked).filter (·.isVisibleFrom m)
  rw [Semantics.verdict_perm (Semantics.matchedOf_perm hvisible),
    Multiset.coe_eq_coe.mpr (Semantics.rejectedOf_perm hvisible)]

/-! ## A front end that remembers -/

/-- What is declared in a scope. -/
abbrev Names := List (String × Arg)

/-- The first expression is the value with the name `n`; all others are numbers. -/
def foldNamed (e : ExprId) (names : Names) : Except Failure Value :=
  match e.index with
  | 0 =>
    match names.find? (·.1 = "n") with
    | some (_, .value t c) => .ok ⟨t, c⟩
    | _ => .error { message := "no value has the name n" }
  | k + 1 => .ok (.int k)

/-- A front end that keeps every scope it was asked to open, after the one of the declarations. -/
def ledger : Semantics (List Names) where
  evaluate e scope := do return foldNamed e ((← get)[scope.index]?.getD [])
  openScope _ := fun s => (⟨s.length⟩, s ++ [[]])
  declareSymbol scope name a := modify (·.modify scope.index (· ++ [(name, a)]))
  symbolName _ _ := ""

/-- Nothing is declared in the scope of the declarations. -/
def Rooted (s : List Names) : Prop := s[0]? = some []

/-- The names of the parameters that are bound. -/
def boundNames : List Param → Bindings → Names
  | p :: ps, some a :: b => (p.name, a) :: boundNames ps b
  | _ :: ps, none :: b => boundNames ps b
  | _, _ => []

theorem boundNames_fill (f : Filling) (ps : List Param) (b : Bindings) :
    boundNames ps (b.fill f) = (boundNames ps b).map fun (name, a) => (name, a.fill f) := by
  induction ps generalizing b with
  | nil => cases b <;> rfl
  | cons p ps ih =>
    rcases b with _ | ⟨_ | a, b⟩
    · rfl
    · exact ih b
    · exact congrArg _ (ih b)

theorem foldNamed_fill (r : Renaming) (e : ExprId) (names : Names) :
    foldNamed e (names.map fun (name, a) => (name, a.fill r.filling)) =
      (foldNamed e names).map (Value.fill r.filling) := by
  obtain ⟨_ | k⟩ := e
  · simp only [foldNamed, List.find?_map, Function.comp_def]
    generalize List.find? _ names = found
    rcases found with _ | ⟨name, _ | _ | _ | _⟩ <;> rfl
  · rfl

theorem ledger_declareParams (s : List Names) (names : Names) (ps : List Param) (b : Bindings) :
    (ledger.declareParams ⟨s.length⟩ ps b (s ++ [names])).2 = s ++ [names ++ boundNames ps b] := by
  have last (s : List Names) (names : Names) (f : Names → Names) :
      (s ++ [names]).modify s.length f = s ++ [f names] := by
    induction s with
    | nil => rfl
    | cons t s ih => exact congrArg (t :: ·) ih
  induction ps generalizing b names with
  | nil => cases b <;> exact congrArg (s ++ [·]) (List.append_nil names).symm
  | cons p ps ih =>
    rcases b with _ | ⟨_ | a, b⟩
    · exact congrArg (s ++ [·]) (List.append_nil names).symm
    · exact ih names b
    · rw [Semantics.declareParams, bind_run]
      change (ledger.declareParams ⟨s.length⟩ ps b
        ((s ++ [names]).modify s.length (· ++ [(p.name, a)]))).2 = _
      rw [last, ih, List.append_assoc]
      rfl

theorem ledger_paramScope (d : Decl) (b : Bindings) (s : List Names) :
    ledger.paramScope d b s = (⟨s.length⟩, s ++ [boundNames d.params b]) :=
  congrArg (Prod.mk _) (ledger_declareParams s [] d.params b)

theorem Rooted.append {s : List Names} (h : Rooted s) (t : List Names) : Rooted (s ++ t) := by
  cases s with
  | nil => cases h
  | cons => exact h

theorem ledger_impartial : ledger.Impartial Rooted (· = ⟨0⟩) where
  evaluate r e scope hscope := by
    intro s s' hs hs'
    subst hscope
    refine ⟨?_, hs, hs'⟩
    change foldNamed e (s'[0]?.getD []) = (foldNamed e (s[0]?.getD [])).map _
    rw [hs, hs']
    exact foldNamed_fill r e []
  evaluateFor r b e d _ := by
    intro s s' hs hs'
    have hrun (b : Bindings) (s : List Names) : ledger.evaluateFor d b e s =
        (foldNamed e (boundNames d.params b), s ++ [boundNames d.params b]) := by
      rw [Semantics.evaluateFor, bind_run, ledger_paramScope]
      change (foldNamed e ((s ++ [boundNames d.params b])[s.length]?.getD []), _) = _
      rw [List.getElem?_concat_length]
      rfl
    rw [hrun, hrun, boundNames_fill]
    exact ⟨foldNamed_fill r e _, hs.append _, hs'.append _⟩
  paramScope b d s _ hs := by
    rw [ledger_paramScope]
    exact hs.append _
  canonicalSymbol _ _ _ _ _ _ := rfl
  symbolType _ _ _ _ _ _ := rfl
  conversion r t u _ _ _ _ := by
    change (if t.fill r.filling = u.fill r.filling then Level.exact else .noMatch) =
      if t = u then _ else _
    simp only [r.fill_inj]

/-- `D(int n, int k : n)`. -/
def doubled : Decl where
  name := "D"
  params := [.ofValue "n" .int none, .ofValue "k" .int (some ⟨0⟩)]

/-- `E(int n, S...)`. -/
def collected : Decl where
  name := "E"
  params := [.ofValue "n" .int none, .ofTuple "S"]

/-- `F(T, U : T[])`. -/
def layered : Decl where
  name := "F"
  params := [.ofType "T" none none, .ofType "U" (some (.array (.param ⟨0⟩))) none]

theorem neutral_doubled :
    ∀ d ∈ [layered, doubled, collected], d.Neutral (· = ⟨0⟩) := by
  have plain (n : String) (t : Ty) (spec : Option ExprId) (ht : t.All .plain) :
      (Param.ofValue n t spec).kind.StandInFree :=
    ⟨List.forall_mem_singleton.mpr ht, List.forall_mem_nil _⟩
  have tuple (n : String) : (Param.ofTuple n).kind.StandInFree :=
    ⟨List.forall_mem_nil _, List.forall_mem_nil _⟩
  simp only [List.forall_mem_cons]
  refine ⟨⟨rfl, ?_⟩, ⟨rfl, ?_⟩, ⟨rfl, ?_⟩, List.forall_mem_nil _⟩
  · refine List.forall_mem_cons.mpr ⟨⟨List.forall_mem_nil _, List.forall_mem_nil _⟩,
      List.forall_mem_singleton.mpr ⟨List.forall_mem_singleton.mpr trivial, List.forall_mem_nil _⟩⟩
  · exact List.forall_mem_cons.mpr ⟨plain _ _ _ trivial,
      List.forall_mem_singleton.mpr (plain _ _ _ trivial)⟩
  · exact List.forall_mem_cons.mpr ⟨plain _ _ _ trivial, List.forall_mem_singleton.mpr (tuple _)⟩

/-- The engine with `doubled` between the others. -/
def doubledSet : Engine := ({} : Engine).withSet [layered, doubled, collected]

/-- The other way round; before the last of them it is declared on its own. -/
def doubledSet' : Engine :=
  (((({} : Engine).withSet [collected, doubled]).declare layered).2.overloadInsert ⟨0⟩ layered).2

theorem select_perm_doubled :
    ledger.Impartial Rooted (· = ⟨0⟩) ∧
    (∀ d ∈ [layered, doubled, collected], d.Neutral (· = ⟨0⟩)) ∧
    [layered, doubled, collected].Perm [collected, doubled, layered] ∧
    Engine.Declares [⟨0⟩, ⟨1⟩, ⟨2⟩] [layered, doubled, collected] doubledSet ∧
    Engine.Declares [⟨0⟩, ⟨1⟩, ⟨3⟩] [collected, doubled, layered] doubledSet' ∧
    (⟨0⟩ : DeclId) ∈ [⟨0⟩, ⟨1⟩, ⟨2⟩] ∧ (⟨3⟩ : DeclId) ∈ [⟨0⟩, ⟨1⟩, ⟨3⟩] ∧
    Rooted [[]] ∧ Rooted [[], [("n", .type .int)]] ∧
    doubledSet.verdict (doubledSet.select ledger ⟨0⟩ [.value .int (.int 3), .value .int (.int 3)]
        none ⟨0⟩ [[]]).1 = .chosen doubled ⟨.exact, [.value .int (.int 3), .value .int (.int 3)]⟩ ∧
    doubledSet'.verdict (doubledSet'.select ledger ⟨3⟩ [.value .int (.int 3), .value .int (.int 3)]
        none ⟨0⟩ [[], [("n", .type .int)]]).1 =
      .chosen doubled ⟨.exact, [.value .int (.int 3), .value .int (.int 3)]⟩ := by
  have hperm : [layered, doubled, collected].Perm [collected, doubled, layered] :=
    (List.reverse_perm [layered, doubled, collected]).symm
  have h : Engine.Declares [⟨0⟩, ⟨1⟩, ⟨2⟩] [layered, doubled, collected] doubledSet :=
    Engine.declares_withSet layered [doubled, collected] (.init {}) (by decide)
  have h' : Engine.Declares [⟨0⟩, ⟨1⟩, ⟨3⟩] [collected, doubled, layered] doubledSet' :=
    .more (.between (Engine.declares_withSet collected [doubled] (.init {}) (by decide))
      (.declare layered)) List.mem_cons_self (Engine.overloadInsert_of_paramsError? (by decide) _)
  have hd : (⟨0⟩ : DeclId) ∈ [⟨0⟩, ⟨1⟩, ⟨2⟩] := by decide
  have hd' : (⟨3⟩ : DeclId) ∈ [⟨0⟩, ⟨1⟩, ⟨3⟩] := by decide
  have hverdict : doubledSet.verdict (doubledSet.select ledger ⟨0⟩
      [.value .int (.int 3), .value .int (.int 3)] none ⟨0⟩ [[]]).1 =
      .chosen doubled ⟨.exact, [.value .int (.int 3), .value .int (.int 3)]⟩ := rfl
  have hs : Rooted [[]] := rfl
  have hs' : Rooted [[], [("n", .type .int)]] := rfl
  exact ⟨ledger_impartial, neutral_doubled, hperm, h, h', hd, hd', hs, hs', hverdict,
    (Engine.select_perm ledger_impartial neutral_doubled hperm h h' hd hd' hs hs').symm.trans
      hverdict⟩

/-! ## Where the order counts -/

/-- The name of the declaration that is chosen. -/
def Verdict.winner? : Verdict → Option String
  | .chosen d _ => some d.name
  | .ambiguous | .noMatch _ => none

/-- The verdict on a set that is declared in this order and nothing before. -/
def verdictOn (ds : List Decl) (args : List Arg) : Verdict :=
  let e := ({} : Engine).withSet ds
  e.verdict (e.select ledger ⟨0⟩ args none ⟨0⟩ [[]]).1

/-- The stand-in for the first parameter of the first declaration. -/
abbrev firstStandIn : Ty := .standIn ⟨⟨0⟩, ⟨0⟩⟩

/-- The same for a symbol. -/
abbrev firstSymbol : SymbolId := .placeholder ⟨⟨0⟩, ⟨0⟩⟩

/-- Pairs of declarations with a stand-in written in the second, and arguments for them. -/
def biased : List (List Param × List Param × List Arg) := [
  -- `D(T, S...)` and `E(T, U : T = ~T, S...)`
  ([.ofType "T" none none, .ofTuple "S"],
    [.ofType "T" none none, .ofType "U" (some (.param ⟨0⟩)) (some firstStandIn), .ofTuple "S"],
    [.type .int, .type .int]),
  -- `D(T, S...)` and `E(T : ~T, S...)`
  ([.ofType "T" none none, .ofTuple "S"], [.ofType "T" (some firstStandIn) none, .ofTuple "S"],
    [.type firstStandIn]),
  -- `D(T, T n)` and `E(T, ~T n)`
  ([.ofType "T" none none, .ofValue "n" (.param ⟨0⟩) none],
    [.ofType "T" none none, .ofValue "n" firstStandIn none],
    [.type firstStandIn, .value firstStandIn (.int 3)]),
  -- `D(alias A, S...)` and `E(alias A : ~A, S...)`
  ([.ofSymbol "A" none none, .ofTuple "S"], [.ofSymbol "A" (some firstSymbol) none, .ofTuple "S"],
    [.symbol firstSymbol]),
  -- `D(alias A, S...)` and `E(alias A, alias B = ~A, T : B!() = A!(), S...)`
  ([.ofSymbol "A" none none, .ofTuple "S"],
    [.ofSymbol "A" none none, { name := "B", kind := .symbol { default := some firstSymbol } },
      .ofType "T" (some (.inst (.param ⟨1⟩) [])) (some (.inst (.param ⟨0⟩) [])), .ofTuple "S"],
    [.symbol ⟨5⟩, .symbol ⟨5⟩, .type (.inst (.symbol ⟨5⟩) [])])]

/-- The two declarations of a pair. -/
def pairOf (ps qs : List Param) : List Decl :=
  [{ name := "D", params := ps }, { name := "E", params := qs }]

theorem biased_winner :
    ∀ t ∈ biased, (verdictOn (pairOf t.1 t.2.1) t.2.2).winner? ≠
      (verdictOn (pairOf t.1 t.2.1).reverse t.2.2).winner? := by
  decide

/-- **The order may count** if a stand-in is written in a declaration: in a pattern, as a default,
in the declared type of a value, or as a symbol that is asked for. -/
theorem not_select_perm : ledger.Impartial Rooted (· = ⟨0⟩) ∧ Rooted [[]] ∧
    ∀ t ∈ biased,
      Engine.Declares [⟨0⟩, ⟨1⟩] (pairOf t.1 t.2.1) (.withSet {} (pairOf t.1 t.2.1)) ∧
      Engine.Declares [⟨0⟩, ⟨1⟩] (pairOf t.1 t.2.1).reverse
        (.withSet {} (pairOf t.1 t.2.1).reverse) ∧
      verdictOn (pairOf t.1 t.2.1) t.2.2 ≠ verdictOn (pairOf t.1 t.2.1).reverse t.2.2 := by
  have haccepted : ∀ t ∈ biased, Decl.paramsError? t.1 = none ∧ Decl.paramsError? t.2.1 = none := by
    decide
  refine ⟨ledger_impartial, rfl, fun t ht => ⟨?_, ?_, fun h => ?_⟩⟩
  · exact Engine.declares_withSet { name := "D", params := t.1 }
      [{ name := "E", params := t.2.1 }] (.init {}) (by simpa using haccepted t ht)
  · exact Engine.declares_withSet { name := "E", params := t.2.1 }
      [{ name := "D", params := t.1 }] (.init {}) (by simpa [and_comm] using haccepted t ht)
  · exact biased_winner t ht (congrArg Verdict.winner? h)

end Templates
