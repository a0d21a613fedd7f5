import Templates.Proofs.Engine.Plans
import Templates.Proofs.Selection

/-!
# What a front end sees of a scope

A contextual front end answers by what it is asked and by what is bound where it is asked
(`Semantics.Contextual`). From two states in which the scope of a request and those of the declarations
that it can mean show the same bindings, the arguments of the request resolve to the same, and if it
has a plan in one of them it has the same plan in the other (`Semantics.Contextual.plan`).
-/

namespace Templates

variable {σ V α : Type}

/-- Opens a scope inside another and binds the names in it. -/
def Semantics.openWith (sem : Semantics σ) (outer : ScopeId) (names : Names) : StateM σ ScopeId := do
  let scope ← sem.openScope outer
  names.forM fun (name, a) => sem.declareSymbol scope name a
  pure scope

/-- The scopes are open in these states and show the same bindings there. `view` tells the bindings that
are visible in a scope; one that is not open has none. -/
def SameView (view : σ → ScopeId → Option V) (s s' : σ) (c c' : ScopeId) : Prop :=
  ∃ v, view s c = some v ∧ view s' c' = some v

/-- The front end answers by its arguments and by the bindings that are visible where it is asked, and
nothing else matters to what becomes of the bindings. -/
structure Semantics.Contextual (sem : Semantics σ) (view : σ → ScopeId → Option V) : Prop where
  evaluate (e : ExprId) {s s' : σ} {c c' : ScopeId} : SameView view s s' c c' →
    (sem.evaluate e c' s').1 = (sem.evaluate e c s).1
  evaluate_view (e : ExprId) {s s' : σ} {c c' d : ScopeId} : SameView view s s' c c' →
    SameView view s s' d d → SameView view (sem.evaluate e c s).2 (sem.evaluate e c' s').2 d d
  resolveType (t : Ty) {s s' : σ} {c c' : ScopeId} : SameView view s s' c c' →
    (sem.resolveType t c' s').1 = (sem.resolveType t c s).1
  resolveType_view (t : Ty) {s s' : σ} {c c' d : ScopeId} : SameView view s s' c c' →
    SameView view s s' d d → SameView view (sem.resolveType t c s).2 (sem.resolveType t c' s').2 d d
  /-- A new scope shows what is visible around it and what is bound in it. -/
  openWith (names : Names) {s s' : σ} {c c' : ScopeId} : SameView view s s' c c' →
    SameView view (sem.openWith c names s).2 (sem.openWith c' names s').2
      (sem.openWith c names s).1 (sem.openWith c' names s').1
  openWith_view (names : Names) {s s' : σ} {c c' d : ScopeId} : SameView view s s' c c' →
    SameView view s s' d d → SameView view (sem.openWith c names s).2 (sem.openWith c' names s').2 d d
  canonicalSymbol (s s' : σ) : sem.canonicalSymbol s' = sem.canonicalSymbol s
  symbolType (s s' : σ) : sem.symbolType s' = sem.symbolType s
  localContext (s s' : σ) : sem.localContext s' = sem.localContext s
  conversion (s s' : σ) : sem.conversion s' = sem.conversion s

/-- The scopes of `K` show the same bindings in both states. -/
def Shown (view : σ → ScopeId → Option V) (K : ScopeId → Prop) (s s' : σ) : Prop :=
  ∀ c, K c → SameView view s s' c c

/-- From related states the second program answers what the first does, and they leave related
states. -/
def Follows (R : σ → σ → Prop) (x y : StateM σ α) : Prop :=
  ∀ ⦃s s'⦄, R s s' → (y s').1 = (x s).1 ∧ R (x s).2 (y s').2

/-- The program answers the same from related states. -/
abbrev Stable (R : σ → σ → Prop) (x : StateM σ α) : Prop := Follows R x x

section

variable {β : Type} {R : σ → σ → Prop}

namespace Follows

theorem pure {a b : α} (h : b = a) : Follows R (pure a) (pure b) := fun _ _ hs => ⟨h, hs⟩

/-- Only the answers that the first program gives matter to what follows. -/
theorem bind_of {x y : StateM σ α} {k l : α → StateM σ β} {P : α → Prop} (hxy : Follows R x y)
    (hP : ∀ s, P (x s).1) (hkl : ∀ a, P a → Follows R (k a) (l a)) :
    Follows R (x >>= k) (y >>= l) := by
  intro s s' hs
  obtain ⟨hy, hs'⟩ := hxy hs
  rw [bind_run, bind_run, hy]
  exact hkl _ (hP s) hs'

theorem bind {x y : StateM σ α} {k l : α → StateM σ β} (hxy : Follows R x y)
    (hkl : ∀ a, Follows R (k a) (l a)) : Follows R (x >>= k) (y >>= l) :=
  hxy.bind_of (P := fun _ => True) (fun _ => trivial) fun a _ => hkl a

theorem get_bind {k l : σ → StateM σ β} (h : ∀ s s', Follows R (k s) (l s')) :
    Follows R (get >>= k) (get >>= l) :=
  fun s s' hs => h s s' hs

end Follows

end

namespace Engine

variable {sem : Semantics σ} {e e' : Engine} {args : List Arg} {receiver : Option Ty} {m : ModuleId}

theorem matchOverloads_congr {ids : List DeclId} (h : ∀ id ∈ ids, e'.decl id = e.decl id) :
    e'.matchOverloads sem args receiver m ids = e.matchOverloads sem args receiver m ids := by
  induction ids with
  | nil => rfl
  | cons id ids ih =>
    obtain ⟨hid, hids⟩ := List.forall_mem_cons.mp h
    rw [matchOverloads, matchOverloads, hid, ih hids]

/-- The engines have the same declarations in the set of `d`. -/
structure SameSet (e e' : Engine) (d : DeclId) : Prop where
  overloads : e'.overloads d = e.overloads d
  decl : ∀ id ∈ e.overloads d, e'.decl id = e.decl id

theorem SameSet.select {d : DeclId} (h : e.SameSet e' d) :
    e'.select sem d args receiver m = e.select sem d args receiver m := by
  rw [Engine.select, Engine.select, h.overloads, matchOverloads_congr h.decl]

end Engine

namespace Semantics

theorem declareParams_eq (sem : Semantics σ) (scope : ScopeId) (ps : List Param) (b : Bindings) :
    sem.declareParams scope ps b =
      (boundNames ps b).forM fun (name, a) => sem.declareSymbol scope name a := by
  induction ps generalizing b with
  | nil => cases b <;> rfl
  | cons p ps ih =>
    rcases b with _ | ⟨_ | a, b⟩
    · rfl
    · exact ih b
    · rw [declareParams, ih b]
      rfl

theorem paramScope_eq (sem : Semantics σ) (d : Decl) (b : Bindings) :
    sem.paramScope d b = sem.openWith d.scope (boundNames d.params b) := by
  unfold paramScope openWith
  simp only [declareParams_eq]

namespace Contextual

variable {sem : Semantics σ} {view : σ → ScopeId → Option V} {K : ScopeId → Prop}
  {d : Decl} {i : ParamIdx} {k : ParamKind} {a : Arg} {b : Bindings} {s s' : σ}

section

variable (hsem : sem.Contextual view)

include hsem

/-! ## Questions -/

theorem evaluate_stable (e : ExprId) {c : ScopeId} (hc : K c) :
    Stable (Shown view K) (sem.evaluate e c) :=
  fun _ _ hs => ⟨hsem.evaluate e (hs c hc), fun d hd => hsem.evaluate_view e (hs c hc) (hs d hd)⟩

theorem resolveType_stable (t : Ty) {c : ScopeId} (hc : K c) :
    Stable (Shown view K) (sem.resolveType t c) :=
  fun _ _ hs =>
    ⟨hsem.resolveType t (hs c hc), fun d hd => hsem.resolveType_view t (hs c hc) (hs d hd)⟩

theorem paramScope_shown (hd : K d.scope) (hs : Shown view K s s') :
    Shown view K (sem.paramScope d b s).2 (sem.paramScope d b s').2 := by
  simp only [paramScope_eq]
  exact fun c hc => hsem.openWith_view _ (hs _ hd) (hs c hc)

/-- What is done with a scope of parameters does not depend on which scope it is. -/
theorem paramScope_bind {x : ScopeId → StateM σ α} (hd : K d.scope)
    (h : ∀ c c', Follows (Shown view K) (x c) (x c')) :
    Stable (Shown view K) (do x (← sem.paramScope d b)) :=
  fun _ _ hs => h _ _ (hsem.paramScope_shown hd hs)

theorem evaluateFor_stable (e : ExprId) (hd : K d.scope) :
    Stable (Shown view K) (sem.evaluateFor d b e) := by
  intro s s' hs
  have hscope := hsem.openWith (boundNames d.params b) (hs _ hd)
  rw [← paramScope_eq] at hscope
  exact ⟨hsem.evaluate e hscope,
    fun c hc => hsem.evaluate_view e hscope (hsem.paramScope_shown hd hs c hc)⟩

/-- What is done with the value of an expression. -/
theorem evaluateFor_bind {x : Except Failure Value → StateM σ α} {e : ExprId} (hd : K d.scope)
    (h : ∀ result, Stable (Shown view K) (x result)) :
    Stable (Shown view K) (do x (← sem.evaluate e (← sem.paramScope d b))) :=
  (hsem.evaluateFor_stable e hd).bind h

/-! ## One parameter -/

theorem convert?_eq (s s' : σ) : sem.convert? s' = sem.convert? s := by
  unfold Semantics.convert?
  rw [hsem.conversion s s']

theorem matchSymbol_eq (s s' : σ) : sem.matchSymbol s' = sem.matchSymbol s := by
  unfold Semantics.matchSymbol
  rw [hsem.canonicalSymbol s s', hsem.symbolType s s']

theorem matchValue {p : ValueParam} (hd : K d.scope) :
    Stable (Shown view K) (sem.matchValue i d p a b) := by
  refine .get_bind fun s s' => ?_
  rw [hsem.convert?_eq s s']
  rcases sem.convert? s p a b with _ | ⟨l, v⟩
  · exact .pure rfl
  cases p.spec with
  | none => exact .pure rfl
  | some e =>
    refine hsem.evaluateFor_bind hd fun result => ?_
    cases result with
    | error f => exact .pure rfl
    | ok expected =>
      dsimp only
      split <;> exact .pure rfl

theorem matchArg (hd : K d.scope) : Stable (Shown view K) (sem.matchArg d i k a b) := by
  cases k with
  | type p | this p => exact .pure rfl
  | value p => exact hsem.matchValue hd
  | symbol p =>
    refine .get_bind fun s s' => ?_
    rw [hsem.matchSymbol_eq s s']
    exact .pure rfl
  | tuple => exact .pure rfl

theorem visitArg (hd : K d.scope) : Stable (Shown view K) (sem.visitArg d i k a b) := by
  refine (hsem.matchArg hd).bind fun fit => ?_
  cases fit <;> exact .pure rfl

/-- Only the default of a value is looked up in a scope. -/
theorem defaultArg_agree (hvalue : ∀ p, k = .value p → p.default = none) (c c' : ScopeId) :
    Follows (Shown view K) (sem.defaultArg k c b) (sem.defaultArg k c' b) := by
  cases k with
  | type p | this p | tuple => exact .pure rfl
  | value p =>
    obtain ⟨t, spec, _⟩ := p
    cases hvalue _ rfl
    exact .pure rfl
  | symbol p =>
    refine .get_bind fun s s' => ?_
    rw [hsem.canonicalSymbol s s']
    exact .pure rfl

/-- What is done with a default. -/
theorem defaultArg_bind {x : Except Failure (Option Arg) → StateM σ α} (hd : K d.scope)
    (h : ∀ result, Stable (Shown view K) (x result)) :
    Stable (Shown view K) (do x (← sem.defaultArg k (← sem.paramScope d b) b)) := by
  by_cases hvalue : ∃ p e, k = .value p ∧ p.default = some e
  · obtain ⟨⟨_, _, _⟩, e, rfl, rfl⟩ := hvalue
    exact hsem.evaluateFor_bind hd (x := fun v => x (v.map fun v => some (.ofValue v))) fun _ => h _
  · have hnone (p : ValueParam) (hp : k = .value p) : p.default = none :=
      Option.eq_none_iff_forall_ne_some.mpr fun e he => hvalue ⟨p, e, hp, he⟩
    exact hsem.paramScope_bind hd fun c c' => (hsem.defaultArg_agree hnone c c').bind h

theorem visitMissing (hd : K d.scope) : Stable (Shown view K) (sem.visitMissing d i k b) := by
  unfold Semantics.visitMissing
  split
  · exact .pure rfl
  split
  · exact .pure rfl
  refine hsem.defaultArg_bind hd fun result => ?_
  rcases result with f | _ | a
  · exact .pure rfl
  · exact .pure rfl
  · exact hsem.visitArg hd

theorem visitParam (receiver : Option Ty) (args : List Arg) (hd : K d.scope) :
    Stable (Shown view K) (sem.visitParam d receiver i k args b).1 := by
  cases k with
  | tuple => exact .pure rfl
  | this p =>
    cases receiver with
    | none => exact hsem.visitMissing hd
    | some t => exact hsem.visitArg hd
  | type p | value p | symbol p =>
    cases args with
    | nil => exact hsem.visitMissing hd
    | cons a args => exact hsem.visitArg hd

/-! ## Declarations -/

theorem visitParams {receiver : Option Ty} {args : List Arg} {n : Nat} {ps : List Param} {l : Level}
    (hd : K d.scope) : Stable (Shown view K) (sem.visitParams d receiver n ps args l b) := by
  induction ps generalizing n args l b with
  | nil => exact .pure rfl
  | cons p ps ih =>
    rw [Semantics.visitParams]
    refine (hsem.visitParam receiver args hd).bind fun visit => ?_
    cases visit with
    | error why => exact .pure rfl
    | ok v => exact ih

theorem checkConstraint {e : ExprId} {as : List Arg} (hd : K d.scope) :
    Stable (Shown view K) (sem.checkConstraint d e as) := by
  refine hsem.evaluateFor_bind hd fun result => ?_
  cases result with
  | error f => exact .pure rfl
  | ok v =>
    dsimp only
    split <;> exact .pure rfl

theorem matchDecl {receiver : Option Ty} {args : List Arg} {mode : MatchMode} (hd : K d.scope) :
    Stable (Shown view K) (sem.matchDecl d args receiver mode) := by
  refine (hsem.visitParams hd).bind fun visits => ?_
  rcases visits with why | ⟨l, b, rest⟩
  · exact .pure rfl
  dsimp only
  split
  · exact .pure rfl
  split
  · exact .pure rfl
  split
  · refine (hsem.checkConstraint hd).bind fun result => ?_
    cases result <;> exact .pure rfl
  · exact .pure rfl

/-! ## Ranking -/

theorem specValue {c : ScopeId} (hc : K c) : Stable (Shown view K) (sem.specValue c k) := by
  unfold Semantics.specValue
  split
  · refine (hsem.evaluate_stable _ hc).bind fun result => ?_
    cases result <;> exact .pure rfl
  · exact .pure rfl

theorem standIns {x : DeclId} {c : ScopeId} {n : Nat} {ps : List Param} (hc : K c) :
    Stable (Shown view K) (sem.standIns x c n ps) := by
  induction ps generalizing n with
  | nil => exact .pure rfl
  | cons p ps ih =>
    unfold Semantics.standIns
    split
    · exact .pure rfl
    refine (hsem.specValue hc).bind fun spec => ih.bind fun rest => ?_
    dsimp only
    split <;> exact .pure rfl

theorem leastAsSpecialized {x y : DeclId × Decl} (hx : K x.2.scope) (hy : K y.2.scope) :
    Stable (Shown view K) (sem.leastAsSpecialized x y) := by
  refine (hsem.standIns hx).bind fun standIns => (hsem.matchDecl hy).bind fun result => ?_
  cases result with
  | error why => exact .pure rfl
  | ok ded =>
    dsimp only
    split <;> exact .pure rfl

theorem compare {x y : DeclId × Decl} (hx : K x.2.scope) (hy : K y.2.scope) :
    Stable (Shown view K) (sem.compare x y) :=
  (hsem.leastAsSpecialized hx hy).bind fun _ => (hsem.leastAsSpecialized hy hx).bind fun _ =>
    .pure rfl

theorem isBeaten {n : Nat} {c : Candidate} {rivals : List (Candidate × Nat)} (hc : K c.decl.scope)
    (hr : ∀ r ∈ rivals, K r.1.decl.scope) :
    Stable (Shown view K) (sem.isBeaten n c rivals) := by
  induction rivals with
  | nil => exact .pure rfl
  | cons r rivals ih =>
    obtain ⟨hr, hrivals⟩ := List.forall_mem_cons.mp hr
    unfold Semantics.isBeaten
    split
    · exact ih hrivals
    refine (hsem.compare hr hc).bind fun order => ?_
    split
    · exact .pure rfl
    · exact ih hrivals

theorem unbeaten {rivals cs : List (Candidate × Nat)} (hr : ∀ r ∈ rivals, K r.1.decl.scope)
    (hcs : ∀ c ∈ cs, K c.1.decl.scope) : Stable (Shown view K) (sem.unbeaten rivals cs) := by
  induction cs with
  | nil => exact .pure rfl
  | cons c cs ih =>
    obtain ⟨hc, hcs⟩ := List.forall_mem_cons.mp hcs
    exact (hsem.isBeaten hc hr).bind fun _ => (ih hcs).bind fun _ => .pure rfl

theorem selectBest {cs : List Candidate} (hcs : ∀ c ∈ cs, K c.decl.scope) :
    Stable (Shown view K) (sem.selectBest cs) := by
  have htop : ∀ c ∈ topCandidates cs, K c.1.decl.scope := fun c hc =>
    hcs c.1 (List.fst_mem_of_mem_zipIdx (List.mem_of_mem_filter hc))
  unfold Semantics.selectBest
  split
  · exact .pure rfl
  · exact .pure rfl
  · next h =>
    rw [h] at htop
    refine (hsem.unbeaten htop htop).bind fun places => ?_
    rcases places with _ | ⟨_, _ | _⟩ <;> exact .pure rfl

/-! ## Overload sets -/

theorem matchOverloads {e : Engine} {args : List Arg} {receiver : Option Ty} {m : ModuleId}
    {ids : List DeclId} (hids : ∀ id ∈ ids, K (e.decl id).scope) :
    Stable (Shown view K) (e.matchOverloads sem args receiver m ids) := by
  induction ids with
  | nil => exact .pure rfl
  | cons id ids ih =>
    obtain ⟨hid, hids⟩ := List.forall_mem_cons.mp hids
    unfold Engine.matchOverloads
    dsimp only
    split
    · exact ih hids
    refine (hsem.matchDecl hid).bind fun result => (ih hids).bind fun rest => ?_
    cases result <;> exact .pure rfl

theorem select {e : Engine} {x : DeclId} {args : List Arg} {receiver : Option Ty} {m : ModuleId}
    (hK : ∀ id ∈ e.overloads x, K (e.decl id).scope) :
    Stable (Shown view K) (e.select sem x args receiver m) := by
  have hknown (s : σ) : ∀ c ∈ (e.matchOverloads sem args receiver m (e.overloads x) s).1.matched,
      K c.1.decl.scope := by
    rintro ⟨c, deduced⟩ hc
    obtain ⟨hid, hdecl, -⟩ := Engine.of_mem_matchOverloads hc
    rw [hdecl]
    exact hK _ hid
  refine (hsem.matchOverloads hK).bind_of (P := fun ms => ∀ c ∈ ms.matched, K c.1.decl.scope)
    hknown fun ms hms => ?_
  have hbest : ∀ c ∈ ms.matched.map (·.1), K c.decl.scope := by
    intro c hc
    obtain ⟨y, hy, rfl⟩ := List.mem_map.mp hc
    exact hms y hy
  refine (hsem.selectBest hbest).bind fun choice => ?_
  rcases choice with i | ⟨i, j⟩ | -
  · dsimp only
    split <;> exact .pure rfl
  · dsimp only
    split <;> exact .pure rfl
  · exact .pure rfl

/-! ## Requests -/

theorem scopeOf {e e' : Engine} {q : Request} {resolved args : List Arg} {scope : Option ScopeId}
    (h : e.scopeOf sem s q resolved args = .ok scope) :
    e'.scopeOf sem s' q resolved args = .ok scope := by
  unfold Engine.scopeOf at h ⊢
  rw [hsem.localContext s s']
  split at h
  · exact h
  · split at h
    · exact h
    · cases h

/-- **A plan is made again.** -/
theorem plan {e e' : Engine} {q : Request} {resolved : List Arg} {p : Plan} {s₁ : σ}
    (hset : e.SameSet e' q.decl) (hK : ∀ id ∈ e.overloads q.decl, K (e.decl id).scope)
    (hs : Shown view K s s')
    (h : e.plan sem q resolved s = (.ok p, s₁)) :
    ∃ s₂, e'.plan sem q resolved s' = (.ok p, s₂) := by
  have hselect : Stable (Shown view K) (e.select sem q.decl resolved q.receiver q.module) :=
    hsem.select hK
  obtain ⟨hsame, -⟩ := hselect hs
  unfold Engine.plan at h ⊢
  rw [bind_run, bind_run, get_run] at h ⊢
  rw [hset.select, hsame]
  rcases hselected : (e.select sem q.decl resolved q.receiver q.module s).1 with why | ⟨x, ded⟩
  · rw [hselected] at h
    cases h
  · have hx := (Engine.select_ok hselected).1
    rw [hselected] at h
    dsimp only at h ⊢
    rw [hset.decl x hx]
    split at h
    · cases h
    · next hmixin =>
      rw [if_neg hmixin]
      cases hscope : e.scopeOf sem _ q resolved ded.args with
      | error err =>
        rw [hscope] at h
        cases h
      | ok scope =>
        rw [hscope] at h
        rw [hsem.scopeOf hscope]
        cases h
        exact ⟨_, rfl⟩

end

mutual

theorem resolveArg (hsem : sem.Contextual view) {c : ScopeId} (hc : K c) :
    (a : SiteArg) → Stable (Shown view K) (sem.resolveArg c a)
  | .type t => (hsem.resolveType_stable t hc).bind fun _ => .pure rfl
  | .value _ => .pure rfl
  | .expr e => (hsem.evaluate_stable e hc).bind fun _ => .pure rfl
  | .symbol x => by
    refine .get_bind fun s s' => ?_
    rw [hsem.canonicalSymbol s s']
    exact .pure rfl
  | .tuple elems => hsem.resolveArgs hc elems

theorem resolveArgs (hsem : sem.Contextual view) {c : ScopeId} (hc : K c) :
    (as : List SiteArg) → Stable (Shown view K) (sem.resolveArgs c as)
  | [] => .pure rfl
  | a :: as => by
    unfold Semantics.resolveArgs
    refine (hsem.resolveArg hc a).bind fun front => ?_
    cases front with
    | error f => exact .pure rfl
    | ok front =>
      refine (hsem.resolveArgs hc as).bind fun rest => ?_
      cases rest <;> exact .pure rfl

end

/-- **Arguments resolve to the same again.** -/
theorem resolveRequest (hsem : sem.Contextual view) {q : Request} (hq : K q.scope) :
    Stable (Shown view K) (sem.resolveRequest q) := by
  refine (hsem.resolveArgs hq q.args).bind fun resolved => ?_
  cases resolved with
  | error f => exact .pure rfl
  | ok resolved =>
    dsimp only
    split <;> exact .pure rfl

end Contextual

end Semantics

end Templates
