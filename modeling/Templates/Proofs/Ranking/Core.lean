import Templates.Proofs.Matching.Accepted
import Templates.Proofs.Ranking.StandIns

/-!
# Receivers and defaults

A receiver is taken like a first argument, and a default counts only where an argument is missing.
So where no default is needed a declaration matches like the one in which `this` is an ordinary type
parameter and nothing has a default, its core (`Semantics.matchDecl_core`).
-/

namespace Templates

/-- The parameter without its default. `this` becomes an ordinary type parameter. -/
def ParamKind.core : ParamKind → ParamKind
  | .type p | .this p => .type { p with default := none }
  | .value p => .value { p with default := none }
  | .symbol p => .symbol { p with default := none }
  | .tuple => .tuple

def Param.core (p : Param) : Param := { p with kind := p.kind.core }

def Decl.core (d : Decl) : Decl := { d with params := d.params.map Param.core }

namespace ParamKind

@[simp] theorem isTuple_core (k : ParamKind) : k.core.isTuple = k.isTuple := by cases k <;> rfl

@[simp] theorem isThis_core (k : ParamKind) : k.core.isThis = false := by cases k <;> rfl

@[simp] theorem hasDefault_core (k : ParamKind) : k.core.hasDefault = false := by cases k <;> rfl

@[simp] theorem pattern?_core (k : ParamKind) : k.core.pattern? = k.pattern? := by cases k <;> rfl

@[simp] theorem patternRefs_core (k : ParamKind) : k.core.patternRefs = k.patternRefs := by
  rw [patternRefs, patternRefs, pattern?_core]

end ParamKind

namespace Decl

/-- There is a `this` parameter. -/
def takesReceiver (d : Decl) : Bool := d.params.any Param.isThis

/-- The parameters that have a stand-in. -/
def front (d : Decl) : List Param := d.params.takeWhile fun p => !(p.dependent || p.isTuple)

/-- Each parameter with a default gets one of `n` arguments. -/
def NeedsNoDefault (d : Decl) (n : Nat) : Prop :=
  ∀ ⦃i p⦄, d.params[i]? = some p → p.kind.hasDefault = true →
    p.isThis = false ∧ (d.params.take i).countP (fun q => !q.isThis) < n

variable {d : Decl} {ps : List Param}

theorem isDependent_core (ps : List Param) (i : Nat) :
    isDependent (ps.map Param.core) i = isDependent ps i := by
  unfold isDependent
  rw [← List.map_take, List.any_map]
  refine congrArg _ (funext fun p => ?_)
  exact congrArg (fun is : List ParamIdx => is.contains ⟨i⟩) p.kind.patternRefs_core

theorem paramsError?_core (h : paramsError? ps = none) :
    paramsError? (ps.map Param.core) = none := by
  obtain ⟨hshape, href⟩ := Option.or_eq_none_iff.mp h
  have hzip {q : Param} {i : Nat} (hq : (q, i) ∈ (ps.map Param.core).zipIdx) :
      ∃ p, (p, i) ∈ ps.zipIdx ∧ q = p.core := by
    rw [List.mem_zipIdx_iff_getElem?, List.getElem?_map] at hq
    obtain ⟨p, hp, rfl⟩ := Option.map_eq_some_iff.mp hq
    exact ⟨p, List.mem_zipIdx_iff_getElem?.mpr hp, rfl⟩
  refine Option.or_eq_none_iff.mpr
    ⟨List.findSome?_eq_none_iff.mpr ?_, List.findSome?_eq_none_iff.mpr ?_⟩
  · rintro ⟨q, i⟩ hq
    obtain ⟨p, hp, rfl⟩ := hzip hq
    have hshape := List.findSome?_eq_none_iff.mp hshape (p, i) hp
    have htuple : p.core.isTuple = p.isTuple := p.kind.isTuple_core
    have hthis : p.core.isThis = false := p.kind.isThis_core
    have hnames : ((ps.map Param.core).take i).any (fun q => q.name = p.core.name) =
        (ps.take i).any (fun q => q.name = p.name) := by
      rw [← List.map_take, List.any_map]
      rfl
    unfold shapeError? at hshape ⊢
    dsimp only at hshape ⊢
    rw [htuple, hthis, List.length_map, hnames]
    grind
  · rintro ⟨q, i⟩ hq
    obtain ⟨p, hp, rfl⟩ := hzip hq
    have href := List.findSome?_eq_none_iff.mp href (p, i) hp
    have hrefs : p.core.kind.patternRefs = p.kind.patternRefs := p.kind.patternRefs_core
    unfold refError? at href ⊢
    dsimp only at href ⊢
    rwa [hrefs, List.length_map]

theorem Accepted.core (H : d.Accepted) : d.core.Accepted := by
  obtain ⟨d₀, h⟩ := H
  refine ⟨d₀.core, ?_⟩
  unfold finalize? at h ⊢
  split at h
  · cases h
  · next hnone =>
    cases h
    have hcore : paramsError? d₀.core.params = none := paramsError?_core hnone
    rw [hcore]
    refine congrArg (fun ps => Except.ok { d₀ with params := ps }) (List.ext_getElem? fun i => ?_)
    change (((d₀.params.map Param.core).zipIdx.map _)[i]?) = ((d₀.params.zipIdx.map _).map _)[i]?
    simp only [List.getElem?_map, List.getElem?_zipIdx]
    cases d₀.params[i]? with
    | none => rfl
    | some p =>
      have hdep : isDependent d₀.core.params i = isDependent d₀.params i := isDependent_core ..
      simp [Param.core, hdep]

theorem takesReceiver_eq_false : d.takesReceiver = false ↔ ∀ p ∈ d.params, p.isThis = false := by
  rw [takesReceiver, List.any_eq_false]
  exact forall₂_congr fun p _ => Bool.eq_false_iff.symm

/-- The receiver goes to the first parameter. -/
theorem Accepted.receiver_first (H : d.Accepted) (hd : d.takesReceiver = true) :
    ∃ p q ps, d.params = p :: ps ∧ p.kind = .this q ∧ p.dependent = false ∧
      ∀ q ∈ ps, q.isThis = false := by
  refine H.this_cases.resolve_left fun h => ?_
  rw [takesReceiver_eq_false.mpr h] at hd
  cases hd

/-- Where there is no `this` parameter each takes an argument. -/
theorem countP_not_this {ps : List Param} (h : ∀ p ∈ ps, p.isThis = false) (i : Nat) :
    (ps.take i).countP (fun q => !q.isThis) = min i ps.length := by
  rw [List.countP_eq_length.mpr, List.length_take]
  intro p hp
  rw [h p (List.mem_of_mem_take hp)]
  rfl

end Decl

/-! ## Deduction -/

namespace Deduce

/-- Deduction asks the same of both lists of parameters. -/
structure Alike (ps qs : List Param) : Prop where
  tyParam (i : ParamIdx) (t : Ty) (b : Bindings) : tyParam qs i t b = tyParam ps i t b
  argParam (i : ParamIdx) (a : Arg) (b : Bindings) : argParam qs i a b = argParam ps i a b
  dim (d n : Dim) (b : Bindings) : dim qs d n b = dim ps d n b
  templateRef (r q : TemplateRef) (b : Bindings) : templateRef qs r q b = templateRef ps r q b
  soaking? (a : Arg) : soaking? qs a = soaking? ps a

variable {ps qs : List Param} {b c : Bindings} {l : Level} {i : ParamIdx}

theorem Alike.symm (H : Alike ps qs) : Alike qs ps where
  tyParam i t b := (H.tyParam i t b).symm
  argParam i a b := (H.argParam i a b).symm
  dim d n b := (H.dim d n b).symm
  templateRef r q b := (H.templateRef r q b).symm
  soaking? a := (H.soaking? a).symm

theorem Derives.of_alike {g : Goal} (H : Alike ps qs) (h : Derives ps g b l c) :
    Derives qs g b l c := by
  induction h with
  | param h => exact .param ((H.tyParam ..).trans h)
  | argParam h => exact .argParam ((H.argParam ..).trans h)
  | const _ ih => exact .const ih
  | unqualify hi hq _ ih => exact .unqualify hi hq ih
  | basic => exact .basic
  | named => exact .named
  | standIn => exact .standIn
  | ptr _ ih => exact .ptr ih
  | array _ ih => exact .array ih
  | staticArray _ hd ih => exact .staticArray ih ((H.dim ..).trans hd)
  | inst hr _ ih => exact .inst ((H.templateRef ..).trans hr) ih
  | type hi _ ih => exact .type hi ih
  | value => exact .value
  | symbol => exact .symbol
  | tuple => exact .tuple
  | nil => exact .nil
  | soak hi h => exact .soak ((H.soaking? _).trans hi) h
  | cons hi _ _ iha ihas => exact .cons ((H.soaking? _).trans hi) iha ihas

theorem ty_of_alike (H : Alike ps qs) (t pat : Ty) (b : Bindings) :
    ty qs t pat b = ty ps t pat b := by
  refine Option.ext fun ⟨l, c⟩ => ?_
  have hiff (ps : List Param) : ty ps t pat b = some (l, c) ↔ Derives ps (.ty t pat) b l c :=
    run_eq_some_iff (g := .ty t pat)
  exact (hiff qs).trans (.trans ⟨.of_alike H.symm, .of_alike H⟩ (hiff ps).symm)

theorem kind?_core (ps : List Param) (i : ParamIdx) :
    kind? (ps.map Param.core) i = (kind? ps i).map ParamKind.core := by
  rw [kind?, kind?, List.getElem?_map, Option.map_map, Option.map_map]
  rfl

theorem alike_core (ps : List Param) : Alike ps (ps.map Param.core) where
  tyParam i t b := by
    unfold Deduce.tyParam
    rw [kind?_core]
    rcases kind? ps i with _ | _ | _ | _ | _ | _ <;> rfl
  argParam i a b := by
    unfold Deduce.argParam
    rw [kind?_core]
    rcases kind? ps i with _ | _ | _ | _ | _ | _ <;> cases a <;> rfl
  dim d n b := by
    cases n with
    | known | standIn => rfl
    | param i =>
      rw [Deduce.dim, Deduce.dim, kind?_core]
      rcases kind? ps i with _ | _ | _ | _ | _ | _ <;> cases lengthConst? d <;> rfl
  templateRef r q b := by
    cases r with
    | param => rfl
    | symbol =>
      cases q with
      | symbol => rfl
      | param i =>
        rw [Deduce.templateRef, Deduce.templateRef, kind?_core]
        rcases kind? ps i with _ | _ | _ | _ | _ | _ <;> rfl
  soaking? a := by
    unfold Deduce.soaking?
    split
    · rw [kind?_core]
      rcases kind? ps _ with _ | _ | _ | _ | _ | _ <;> rfl
    · rfl

end Deduce

/-! ## Visits -/

namespace Semantics

variable {σ : Type} {sem : Semantics σ} {d : Decl} {i : ParamIdx} {k : ParamKind} {a : Arg}
  {args rest : List Arg} {b c : Bindings} {receiver : Option Ty} {n : Nat} {l m : Level} {s : σ}
  {ps qs : List Param} {id : DeclId} {scope : ScopeId}

theorem declareParams_core : sem.declareParams scope (ps.map Param.core) b =
    sem.declareParams scope ps b := by
  induction ps generalizing b with
  | nil => rfl
  | cons p ps ih =>
    rcases b with _ | ⟨_ | a, b⟩
    · rfl
    · exact ih
    · rw [List.map_cons, declareParams, declareParams, ih]
      rfl

theorem paramScope_core : sem.paramScope d.core b = sem.paramScope d b := by
  unfold paramScope Decl.core
  simp only [declareParams_core]

theorem matchArg_core : sem.matchArg d.core i k.core a b = sem.matchArg d i k a b := by
  have hty (t pat : Ty) (b : Bindings) :
      Deduce.ty d.core.params t pat b = Deduce.ty d.params t pat b :=
    Deduce.ty_of_alike (Deduce.alike_core d.params) t pat b
  have htype (p : TypeParam) :
      matchType i d.core.params { p with default := none } a b = matchType i d.params p a b := by
    unfold matchType
    simp only [hty]
  cases k with
  | type p | this p =>
    change pure (matchType i d.core.params { p with default := none } a b) = _
    rw [htype]
    rfl
  | value p =>
    change sem.matchValue i d.core { p with default := none } a b = sem.matchValue i d p a b
    unfold matchValue
    rw [paramScope_core]
    rfl
  | symbol p =>
    have h (s : σ) : sem.matchSymbol s i d.core.params { p with default := none } a b =
        sem.matchSymbol s i d.params p a b := by
      unfold matchSymbol
      simp only [hty]
    unfold matchArg ParamKind.core
    simp only [h]
  | tuple => rfl

theorem visitArg_core : sem.visitArg d.core i k.core a b = sem.visitArg d i k a b := by
  unfold visitArg
  rw [matchArg_core]

/-- Without an argument there must be no default. -/
theorem visitParam_core (hk : k.isThis = false) (hdefault : k.hasDefault = true → args ≠ []) :
    sem.visitParam d.core none i k.core args b = sem.visitParam d receiver i k args b := by
  have hmissing (h : args = []) :
      sem.visitMissing d.core i k.core b = sem.visitMissing d i k b := by
    unfold visitMissing
    rw [k.hasDefault_core, Bool.eq_false_iff.mpr fun hk => hdefault hk h]
    rfl
  cases k with
  | this => cases hk
  | tuple => rfl
  | type | value | symbol =>
    cases args with
    | nil => exact congrArg (·, []) (hmissing rfl)
    | cons a args => exact congrArg (·, args) visitArg_core

variable (receiver) in
theorem visitParams_core (hthis : ∀ q ∈ qs, q.isThis = false)
    (hlast : ∀ j q, qs[j]? = some q → q.isTuple = true → j + 1 = qs.length)
    (hdefault : ∀ j q, qs[j]? = some q → q.kind.hasDefault = true → j < args.length) :
    sem.visitParams d.core none n (qs.map Param.core) args l b s =
      sem.visitParams d receiver n qs args l b s := by
  induction qs generalizing n args l b s with
  | nil => rfl
  | cons q qs ih =>
    have hvisit : sem.visitParam d.core none ⟨n⟩ q.core.kind args b =
        sem.visitParam d receiver ⟨n⟩ q.kind args b := by
      refine visitParam_core (hthis q List.mem_cons_self) fun hq => ?_
      exact List.ne_nil_of_length_pos (hdefault 0 q rfl hq)
    rw [List.map_cons, visitParams_cons, visitParams_cons, hvisit]
    rcases (sem.visitParam d receiver ⟨n⟩ q.kind args b).1 s with ⟨_ | ⟨m, c⟩, s'⟩
    · rfl
    · refine ih (fun q hq => hthis q (List.mem_cons_of_mem _ hq))
        (fun j r hr htuple => Nat.succ.inj (hlast (j + 1) r hr htuple)) fun j r hr hr' => ?_
      have hj := hdefault (j + 1) r hr hr'
      have hlast := hlast 0 q rfl
      rw [Param.isTuple] at hlast
      have hthis := hthis q List.mem_cons_self
      rw [Param.isThis] at hthis
      cases hkind : q.kind with
      | this => cases hkind ▸ hthis
      | tuple =>
        obtain rfl : qs = [] := List.length_eq_zero_iff.mp (Nat.succ.inj (hlast (hkind ▸ rfl))).symm
        cases hr
      | type | value | symbol =>
        cases args with
        | nil => cases hj
        | cons a args => exact Nat.lt_of_succ_lt_succ hj

/-! ## The whole match -/

theorem matchDecl_rank_eq_ok_iff {ded : Deduction} :
    (sem.matchDecl d args receiver .rank s).1 = .ok ded ↔
      (sem.visitParams d receiver 0 d.params args .exact (.free d.params.length) s).1 =
        .ok (ded.level, .ofArgs ded.args, []) :=
  ⟨matchDecl_eq_ok, matchDecl_of_visit⟩

/-- Without a `this` parameter the receiver is not looked at. -/
theorem matchDecl_core {ded : Deduction} (hacc : d.Accepted) (hthis : d.takesReceiver = false)
    (hdefault : d.NeedsNoDefault args.length) :
    (sem.matchDecl d args receiver .rank s).1 = .ok ded ↔
      (sem.matchDecl d.core args none .rank s).1 = .ok ded := by
  have hthis := Decl.takesReceiver_eq_false.mp hthis
  rw [matchDecl_rank_eq_ok_iff, matchDecl_rank_eq_ok_iff]
  change _ ↔ (sem.visitParams d.core none 0 (d.params.map Param.core) args .exact
    (.free (d.params.map Param.core).length) s).1 = _
  rw [List.length_map, visitParams_core receiver hthis
    (fun j q hq htuple => hacc.tuple_last hq htuple) fun j q hq hq' => ?_]
  have hj := (hdefault hq hq').2
  rwa [Decl.countP_not_this hthis, min_eq_left (List.getElem?_eq_some_iff.mp hq).1.le] at hj

/-- A receiver is a first argument of the core. -/
theorem matchDecl_core_receiver {ded : Deduction} {t : Ty} (hacc : d.Accepted)
    (hthis : d.takesReceiver = true) (hdefault : d.NeedsNoDefault args.length) :
    (sem.matchDecl d args (some t) .rank s).1 = .ok ded ↔
      (sem.matchDecl d.core (.type t :: args) none .rank s).1 = .ok ded := by
  obtain ⟨p, q, ps, hparams, hkind, -, hps⟩ := hacc.receiver_first hthis
  rw [matchDecl_rank_eq_ok_iff, matchDecl_rank_eq_ok_iff]
  have hvisits : sem.visitParams d.core none 0 (p.core :: ps.map Param.core) (.type t :: args)
      .exact (.free d.params.length) s = sem.visitParams d (some t) 0 (p :: ps) args .exact
        (.free d.params.length) s := by
    have hfirst : sem.visitParam d.core none ⟨0⟩ p.core.kind (.type t :: args)
        (.free d.params.length) = sem.visitParam d (some t) ⟨0⟩ p.kind args
          (.free d.params.length) := by
      rw [Param.core, hkind]
      exact congrArg (·, args) (visitArg_core (k := .this q))
    have htail (m : Level) (c : Bindings) (s : σ) :
        sem.visitParams d.core none 1 (ps.map Param.core) args m c s =
          sem.visitParams d (some t) 1 ps args m c s := by
      refine visitParams_core _ hps (fun j r hr htuple => ?_) fun j r hr hr' => ?_
      · have hlast := hacc.tuple_last (i := j + 1) (hparams ▸ hr) htuple
        rw [hparams] at hlast
        exact Nat.succ.inj hlast
      · have hj := (hdefault (i := j + 1) (hparams ▸ hr) hr').2
        have hp : p.isThis = true := by rw [Param.isThis, hkind]; rfl
        rw [hparams, List.take_succ_cons, List.countP_cons_of_neg (by simp [hp]),
          Decl.countP_not_this hps, min_eq_left (List.getElem?_eq_some_iff.mp hr).1.le] at hj
        exact hj
    rw [visitParams_cons, visitParams_cons, hfirst, hkind]
    rcases (sem.visitParam d (some t) ⟨0⟩ (.this q) args (.free d.params.length)).1 s with
      ⟨_ | ⟨m, c⟩, s'⟩
    · rfl
    · exact htail _ c s'
  change _ ↔ (sem.visitParams d.core none 0 (d.params.map Param.core) (.type t :: args) .exact
    (.free (d.params.map Param.core).length) s).1 = _
  rw [← List.map_cons, ← hparams] at hvisits
  rw [List.length_map, hvisits]

/-- A `this` parameter without a default must be given a receiver. -/
theorem matchDecl_no_receiver {ded : Deduction} (hacc : d.Accepted)
    (hthis : d.takesReceiver = true) (hdefault : d.NeedsNoDefault n) :
    (sem.matchDecl d args none .rank s).1 ≠ .ok ded := by
  obtain ⟨p, q, ps, hparams, hkind, -, -⟩ := hacc.receiver_first hthis
  have hnone : p.kind.hasDefault = false := by
    refine Bool.eq_false_iff.mpr fun hp => ?_
    have hthis := (hdefault (i := 0) (hparams ▸ rfl) hp).1
    rw [Param.isThis, hkind] at hthis
    cases hthis
  have hmissing : sem.visitParam d none ⟨0⟩ p.kind args (.free d.params.length) =
      (pure (.error (.unbound ⟨0⟩)), args) := by
    rw [hkind] at hnone ⊢
    change (sem.visitMissing d ⟨0⟩ (.this q) (.free d.params.length), args) = _
    unfold visitMissing
    rw [Bindings.get?_free, hnone]
    rfl
  have hvisits : (sem.visitParams d none 0 (p :: ps) args .exact (.free d.params.length) s).1 =
      .error (.unbound ⟨0⟩) := by
    rw [visitParams_cons, hmissing]
    rfl
  rw [← hparams] at hvisits
  intro h
  rw [matchDecl_rank_eq_ok_iff, hvisits] at h
  cases h

/-! ## Stand-ins -/

theorem standIns_core (hthis : ∀ q ∈ qs, q.isThis = false) :
    sem.standIns id scope n (qs.map Param.core) = sem.standIns id scope n qs := by
  induction qs generalizing n with
  | nil => rfl
  | cons q qs ih =>
    have htuple : q.core.isTuple = q.isTuple := q.kind.isTuple_core
    have hthis' : q.core.isThis = q.isThis :=
      q.kind.isThis_core.trans (hthis q List.mem_cons_self).symm
    have hspec : sem.specValue scope q.core.kind = sem.specValue scope q.kind := by
      rw [Param.core]
      rcases q.kind with _ | _ | ⟨t, _ | e, dflt⟩ | _ | _ <;> rfl
    have hstand (v : Option Value) :
        q.core.kind.standIn ⟨id, ⟨n⟩⟩ v = q.kind.standIn ⟨id, ⟨n⟩⟩ v := by
      rw [Param.core]
      cases q.kind <;> rfl
    rw [List.map_cons, standIns, standIns, htuple, hthis', hspec,
      ih fun q hq => hthis q (List.mem_cons_of_mem _ hq)]
    simp only [hstand]
    rfl

end Semantics

end Templates
