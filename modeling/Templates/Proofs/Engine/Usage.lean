import Templates.Proofs.Gagging.Marks

/-!
# Who has asked for an instance

Requests leave traces on an instance: the mark of speculation goes, and a root module becomes the
owner of the code. Only a request that is answered with the instance does so, unless it found it on
its chain (`Engine.answer?_usage`, `Engine.create_uses`). All else that the engine does leaves the
traces alone (`Engine.SameUsage`), but for a claim of the code.
-/

namespace Templates

/-- What requests have left on an instance, and whether its code was taken over. -/
structure Usage where
  gagged : Bool
  firstModule : Option ModuleId
  claimed : Bool

/-- Nothing has asked for the instance. -/
def Usage.unused : Usage := ⟨true, none, false⟩

def Instance.usage (x : Instance) : Usage := ⟨x.gagged, x.firstModule, x.claimed⟩

namespace Engine

def usage? (e : Engine) (i : InstanceId) : Option Usage := (e.inst? i).map Instance.usage

/-- The first root module that needs the instance. -/
def firstModule? (e : Engine) (i : InstanceId) : Option ModuleId :=
  (e.inst? i).bind (·.firstModule)

/-- The module as an owner: a root module, outside every gag. -/
def offered (e : Engine) (m : ModuleId) : Option ModuleId :=
  if !e.isGagged && e.isRoot m then some m else none

/-- The traces after a request. -/
def used (e : Engine) (q : Request) (u : Usage) : Usage where
  gagged := u.gagged && e.isGagged
  firstModule := u.firstModule.or (e.offered q.module)
  claimed := u.claimed

/-- A request has left its traces on the instance `i`. -/
structure Uses (e : Engine) (q : Request) (i : InstanceId) (e' : Engine) : Prop where
  roots : e'.roots = e.roots
  usage (j : InstanceId) : e'.usage? j =
    if j = i then some (e.used q ((e.usage? i).getD .unused)) else e.usage? j

/-- The instances have the traces that they had, and no module ceased to be a root. -/
structure SameUsage (e e' : Engine) : Prop where
  roots : e.roots ⊆ e'.roots
  usage (i : InstanceId) : e'.usage? i = e.usage? i

variable {e e' e'' : Engine} {i j : InstanceId} {m : ModuleId}

theorem firstModule?_eq (e : Engine) (i : InstanceId) :
    e.firstModule? i = (e.usage? i).bind (·.firstModule) := by
  rw [usage?, Option.bind_map]
  rfl

theorem usage?_eq_none_iff : e.usage? i = none ↔ e.insts.size ≤ i.index := by
  simp [usage?, inst?]

theorem usage?_modifyInst (e : Engine) (i j : InstanceId) (f : Instance → Instance) :
    (e.modifyInst i f).usage? j =
      if i = j then (e.inst? j).map fun x => (f x).usage else e.usage? j := by
  unfold usage?
  rw [inst?_modifyInst]
  split
  · rw [Option.map_map]
    rfl
  · rfl

theorem Uses.firstModule? {q : Request} (h : e.Uses q i e') (j : InstanceId) :
    e'.firstModule? j =
      if j = i then (e.firstModule? i).or (e.offered q.module) else e.firstModule? j := by
  rw [firstModule?_eq, h.usage, firstModule?_eq, firstModule?_eq]
  split
  · cases e.usage? i <;> rfl
  · rfl

theorem SameUsage.firstModule? (h : e.SameUsage e') (j : InstanceId) :
    e'.firstModule? j = e.firstModule? j := by
  rw [firstModule?_eq, firstModule?_eq, h.usage]

theorem offered_eq_some {a : ModuleId} (h : e.offered m = some a) :
    a = m ∧ e.isGagged = false ∧ e.isRoot m = true := by
  unfold offered at h
  split at h
  · next hm =>
    cases h
    simpa using hm
  · cases h

theorem offered_isSome_iff :
    (e.offered m).isSome ↔ e.isGagged = false ∧ e.isRoot m = true := by
  unfold offered
  split <;> simp_all

namespace SameUsage

@[refl] theorem refl (e : Engine) : e.SameUsage e := ⟨List.Subset.refl _, fun _ => rfl⟩

@[trans] theorem trans (h : e.SameUsage e') (h' : e'.SameUsage e'') : e.SameUsage e'' :=
  ⟨List.Subset.trans h.roots h'.roots, fun i => (h'.usage i).trans (h.usage i)⟩

theorem of_insts (hr : e.roots ⊆ e'.roots) (hi : e'.insts = e.insts) : e.SameUsage e' := by
  refine ⟨hr, fun i => ?_⟩
  rw [usage?, usage?, inst?, hi]
  rfl

theorem modifyInst {f : Instance → Instance} (hf : ∀ x, (f x).usage = x.usage) :
    e.SameUsage (e.modifyInst i f) := by
  refine ⟨List.Subset.refl _, fun j => ?_⟩
  rw [usage?_modifyInst]
  split
  · simp only [hf, usage?]
  · rfl

end SameUsage

/-! ## What leaves the traces alone -/

section

variable {names : SymbolId → String} {r : Request} {c : Chain} {p : Plan}

theorem reject_usage (err : TemplateError) : e.SameUsage (e.reject names err c).2 :=
  .of_insts (List.Subset.refl _) rfl

theorem defer_usage (i t : InstanceId) : e.SameUsage (e.defer i t) := by
  obtain h | h := e.defer_cases i t <;> rw [h]
  refine .trans (.modifyInst ?_) (.modifyInst ?_) <;> exact fun _ => rfl

theorem complete_usage (i : InstanceId) (members : MemberTable) :
    e.SameUsage (e.complete i members) := .modifyInst fun _ => rfl

theorem takeDeferred_usage (i : InstanceId) : e.SameUsage (e.takeDeferred i).2 :=
  .modifyInst fun _ => rfl

theorem release_usage (i : InstanceId) : e.SameUsage (e.release i).2 := .modifyInst fun _ => rfl

theorem evict_roots (e : Engine) (i : InstanceId) : (e.evict i).roots = e.roots := by
  obtain ⟨_, _, h⟩ := e.evict_frame i
  rw [h]

theorem fail_usage (i : InstanceId) (reason : String) (span : Span) :
    e.SameUsage (e.fail names i reason span c).2 := by
  rw [fail_eq]
  refine SameUsage.trans ?_ (reject_usage _)
  have herr : e.SameUsage (e.errored i) := .modifyInst fun _ => rfl
  have hevict (e : Engine) : e.SameUsage (e.evict i) :=
    .of_insts (evict_roots e i ▸ List.Subset.refl _) (insts_evict e i)
  obtain hf | hf := e.failed_cases i <;> rw [hf]
  · exact herr
  · exact herr.trans (hevict _)

theorem settle_usage (i : InstanceId) (result : Except Failure Unit) :
    e.SameUsage (e.settle names i result) := by
  cases result with
  | ok => exact .modifyInst fun _ => rfl
  | error f => exact fail_usage ..

theorem declare_roots (d : Decl) : (e.declare d).2.roots = e.roots := by
  obtain ⟨_, _, h⟩ := e.declare_frame d
  rw [h]

theorem overloadInsert_roots (d : DeclId) (d' : Decl) :
    (e.overloadInsert d d').2.roots = e.roots := by
  obtain ⟨_, h⟩ := e.overloadInsert_frame d d'
  rw [h]
  exact declare_roots d'

theorem roots_subset_addRoot (m : ModuleId) : e.roots ⊆ (e.addRoot m).roots := by
  obtain ⟨-, h⟩ | h := e.addRoot_cases m <;> rw [h]
  · exact List.Subset.refl _
  · exact List.subset_cons_self m e.roots

/-! ## What requests leave -/

theorem touch_uses {q : Request} (hi : i.index < e.insts.size) : e.Uses q i (e.touch i q) := by
  obtain ⟨x, hx⟩ := inst?_eq_some_iff.mpr hi
  obtain ⟨hg, h⟩ | ⟨hg, h⟩ := e.touch_cases i q <;> rw [h]
  · refine ⟨rfl, fun j => ?_⟩
    split
    · next h => simp [h, usage?, hx, used, offered, hg]
    · rfl
  · refine ⟨rfl, fun j => ?_⟩
    rw [usage?_modifyInst]
    by_cases h : j = i
    · cases hm : x.firstModule <;>
        simp [h, usage?, hx, Instance.usage, used, offered, hg, hm]
    · rw [if_neg (Ne.symm h), if_neg h]

theorem create_uses : e.Uses r ⟨e.insts.size⟩ (e.create r c p).2 := by
  refine ⟨rfl, fun j => ?_⟩
  have hpush : (e.create r c p).2.usage? j =
      if j.index = e.insts.size then some (e.used r .unused) else e.usage? j := by
    unfold usage? create inst?
    dsimp only [modifyDecl]
    rw [Array.getElem?_push]
    split <;> rfl
  have hnew : e.usage? ⟨e.insts.size⟩ = none := usage?_eq_none_iff.mpr (Nat.le_refl _)
  rw [hpush, hnew]
  exact if_congr ⟨congrArg InstanceId.mk, congrArg InstanceId.index⟩ rfl rfl

theorem lt_of_lookup {d : DeclId} {args : List Arg} {enclosing : Option ScopeId}
    (h : e.lookup d args enclosing = some i) : i.index < e.insts.size := by
  obtain ⟨entry, -, h⟩ := Option.bind_eq_some_iff.mp h
  have hkey := List.find?_some h
  apply inst?_eq_some_iff.mp
  cases hx : e.inst? i with
  | none => simp [hx] at hkey
  | some x => exact ⟨x, rfl⟩

/-- The instance that a planned request gets, unless it finds it on its chain: a cached one or a new
one. -/
def takes? (e : Engine) (names : SymbolId → String) (q : Request) (c : Chain) (p : Plan) :
    Option InstanceId :=
  match c.findAttempt? p.decl p.deduction.args p.enclosing with
  | some _ => none
  | none =>
    match e.answer? names q c p with
    | none => some ⟨e.insts.size⟩
    | some (.ok i, _) => some i
    | some (.error _, _) => none

theorem takes?_of_answer?_eq_none (h : e.answer? names r c p = none) :
    e.takes? names r c p = some ⟨e.insts.size⟩ := by
  rw [takes?, (answer?_eq_none_iff.mp h).1, h]

/-- A request that is answered from the chain is answered with the instance of the frame. -/
theorem eq_of_findAttempt? {f : Frame} {c' : Chain}
    (hf : c.findAttempt? p.decl p.deduction.args p.enclosing = some (f, c'))
    (h : e.answer? names r c p = some (.ok i, e')) : f.inst = i := by
  cases finds_of_answer? h with
  | reference hf' | defer hf' =>
    rw [hf] at hf'
    cases hf'
    rfl
  | cached hf' => cases hf.symm.trans hf'

/-- An instance that a request is answered with stands on its chain, or the request takes it. -/
theorem takes?_of_answer?_eq_ok (h : e.answer? names r c p = some (.ok i, e')) :
    (∃ f ∈ c, f.inst = i) ∨ e.takes? names r c p = some i := by
  cases hf : c.findAttempt? p.decl p.deduction.args p.enclosing with
  | none =>
    refine .inr ?_
    rw [takes?, hf, h]
  | some fc => exact .inl ⟨fc.1, Chain.mem_of_findAttempt? hf, eq_of_findAttempt? hf h⟩

/-- An answer from the cache leaves its traces on the instance, and no other answer does. -/
theorem answer?_usage {a : Except TemplateError InstanceId}
    (h : e.answer? names r c p = some (a, e')) :
    e.takes? names r c p = none ∧ e.SameUsage e' ∨
      ∃ i, e.takes? names r c p = some i ∧ a = .ok i ∧ e.Uses r i e' := by
  have hhit : e.SameUsage e.countHit := .of_insts (List.Subset.refl _) rfl
  cases finds_of_answer? h with
  | recursive hf => exact .inl ⟨by rw [takes?, hf], reject_usage _⟩
  | reference hf => exact .inl ⟨by rw [takes?, hf], .refl e⟩
  | defer hf => exact .inl ⟨by rw [takes?, hf], defer_usage ..⟩
  | failed hf => exact .inl ⟨by rw [takes?, hf, h], hhit⟩
  | busy hf => exact .inl ⟨by rw [takes?, hf, h], hhit.trans (reject_usage _)⟩
  | @cached i hf hl =>
    obtain ⟨hroots, husage⟩ := touch_uses (q := r) (e := e.countHit) (lt_of_lookup hl)
    exact .inr ⟨i, by rw [takes?, hf, h], rfl, hroots, husage⟩
  | tooDeep hf => exact .inl ⟨by rw [takes?, hf, h], reject_usage _⟩

end

end Engine

/-! ## Commands -/

/-- A command leaves the traces alone, unless it claims the code of an instance. -/
theorem Command.run_usage {e : Engine} (c : Command) :
    e.SameUsage (c.run e).2 ∨ ∃ i m, c = .claim i m := by
  cases c with
  | declare d =>
    have hroots : (e.declare d).2.roots = e.roots := Engine.declare_roots d
    exact .inl (.of_insts (hroots ▸ List.Subset.refl _) (Engine.declare_insts d))
  | overload d d' =>
    have hroots : (e.overloadInsert d d').2.roots = e.roots := Engine.overloadInsert_roots d d'
    refine .inl (.of_insts (hroots ▸ List.Subset.refl _) ?_)
    exact (Engine.overloadInsert_eq e d d').2.1.trans (Engine.declare_insts d')
  | addRoot m => exact .inl (.of_insts (Engine.roots_subset_addRoot m) (Engine.addRoot_eq m).1)
  | claim i m => exact .inr ⟨i, m, rfl⟩
  | recordImport i m =>
    refine .inl (.modifyInst fun x => ?_)
    unfold Instance.addImport
    split <;> rfl
  | addDiagnostic | pushGag | popGag | flush => exact .inl (.of_insts (List.Subset.refl _) rfl)

/-- A claim takes the code over. -/
theorem Engine.claimCodegen_usage (e : Engine) (i : InstanceId) (m : ModuleId) :
    (e.claimCodegen i m).2.roots = e.roots ∧ ∀ j,
      (e.claimCodegen i m).2.usage? j = e.usage? j ∨
        (e.claimCodegen i m).2.usage? j = (e.usage? j).map fun u => { u with claimed := true } := by
  obtain h | h := e.claimCodegen_cases i m <;> rw [h]
  · exact ⟨rfl, fun _ => .inl rfl⟩
  · refine ⟨rfl, fun j => ?_⟩
    rw [usage?_modifyInst]
    split
    · refine .inr ?_
      rw [usage?, Option.map_map]
      rfl
    · exact .inl rfl

end Templates
