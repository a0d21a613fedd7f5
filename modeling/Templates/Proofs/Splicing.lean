import Templates.Proofs.Repeating.AtRest
import Templates.Proofs.Reporting.Invariant

/-!
# Members that are spliced into aggregates

The members of a mixin are added to its aggregate in the step in which its elaboration succeeds
(`Service.step_eq_muted`), when the members are there, though the instance may still wait for others.
So every mixin whose elaboration succeeds is spliced once and as a whole, in the order in which the
elaborations succeed (`Service.injected_eq`). What fails while it is elaborated is not spliced. What
fails when the front end goes on with it was spliced before, and stays so (`Service.splices`).
-/

namespace Templates

variable {σ α : Type}

/-! ## What a step adds to aggregates -/

/-- The members, each with the aggregate that it goes to. Without an aggregate there is nothing to
add. -/
def addressed (target : Option SymbolId) (members : MemberTable) : List (SymbolId × Member) :=
  match target with
  | some aggregate => members.map (aggregate, ·)
  | none => []

/-- The members of the instance, each with the aggregate that it goes to. -/
def Engine.additions (e : Engine) (i : InstanceId) : List (SymbolId × Member) :=
  match e.inst? i with
  | some x => (x.members.map (addressed x.mixinTarget)).getD []
  | none => []

/-- The instance did not fail. -/
def Engine.isHealthy (e : Engine) (i : InstanceId) : Bool :=
  (e.inst? i).map (·.state) ≠ some .errored

namespace Machine

/-- What the next step adds to aggregates, in order. -/
def injects (m : Machine σ α) : List (SymbolId × Member) :=
  match m.control with
  | .program (.elaborate call _ _) (.done (.ok members)) =>
    addressed (call.request.mixin.map (·.aggregate)) members
  | _ => []

/-- The instance whose elaboration succeeds in the next step. -/
def elaborates? (m : Machine σ α) : Option InstanceId :=
  match m.control with
  | .program (.elaborate _ _ i) (.done (.ok _)) => some i
  | _ => none

/-- The elaboration of the instance fails in the next step. -/
def FailsToElaborate (m : Machine σ α) (i : InstanceId) : Prop :=
  ∃ call p f, m.control = .program (.elaborate call p i) (.done (.error f))

/-- The front end cannot go on with the instance in the next step. -/
def FailsToResume (m : Machine σ α) (i : InstanceId) : Prop :=
  ∃ call o rest f, m.control = .program (.resume call o i rest) (.done (.error f))

/-- Something happens to the front end. -/
def serve (f : σ → σ) (m : Machine σ α) : Machine σ α :=
  { m with run := { m.run with service := f m.run.service } }

end Machine

namespace Service

/-- The same front end, which does nothing when a member is added to an aggregate. -/
def muted (svc : Service σ) : Service σ := { svc with inject := fun _ _ => pure () }

/-- Adds each member to its aggregate, in order. -/
def injectEach (svc : Service σ) (l : List (SymbolId × Member)) : StateM σ Unit :=
  l.forM fun (aggregate, m) => svc.inject aggregate m

/-- What has been added to aggregates when `n` steps are made, in order. -/
def injected (svc : Service σ) (m₀ : Machine σ α) (n : Nat) : List (SymbolId × Member) :=
  (List.range n).flatMap fun k => (svc.after k m₀).injects

/-- The instances whose elaboration has succeeded when `n` steps are made, in order. -/
def elaborated (svc : Service σ) (m₀ : Machine σ α) (n : Nat) : List InstanceId :=
  (List.range n).filterMap fun k => (svc.after k m₀).elaborates?

variable {svc : Service σ} {r : Run σ} {ws : List (Waiting σ α)} {c : Control σ α}
  {m : Machine σ α}

theorem splice_eq (svc : Service σ) (q : Request) (members : MemberTable) :
    svc.splice q members = svc.injectEach (addressed (q.mixin.map (·.aggregate)) members) := by
  cases hq : q.mixin with
  | none =>
    rw [splice, hq]
    rfl
  | some target =>
    rw [splice, hq]
    change svc.injectAll target.aggregate members = svc.injectEach (members.map _)
    induction members with
    | nil => rfl
    | cons m ms ih =>
      rw [injectAll, ih]
      rfl

theorem muted_splice (svc : Service σ) (q : Request) (members : MemberTable) (s : σ) :
    (svc.muted.splice q members s).2 = s := by
  rw [splice_eq]
  induction addressed (q.mixin.map (·.aggregate)) members with
  | nil => rfl
  | cons _ _ ih => exact ih

/-- A step adds these members to their aggregates and asks for nothing else to be added. -/
theorem step_eq_muted (svc : Service σ) (m : Machine σ α) :
    svc.step m = (svc.muted.step m).serve fun s => (svc.injectEach m.injects s).2 := by
  obtain ⟨r, c, ws⟩ := m
  cases c with
  | unasked | stage => rfl
  | program role p =>
    cases p with
    | halt | read | service | command | request => cases role <;> rfl
    | done b =>
      cases role with
      | client | resume => rfl
      | elaborate call p i =>
        cases b with
        | error => rfl
        | ok members =>
          change svc.programEnded r ws (.elaborate call p i) (.ok members) =
            (svc.muted.programEnded r ws (.elaborate call p i) (.ok members)).serve _
          unfold programEnded Machine.serve
          dsimp only
          rw [splice_eq, muted_splice]
          rfl

end Service

/-! ## For whom instances are elaborated -/

/-- The instance that the call has made is being elaborated, or is about to be. -/
inductive Machine.Elaborates (m : Machine σ α) (call : Call) (i : InstanceId) : Prop
  | openScope {p : Plan} : m.control = .stage (.openScope call p i) → Elaborates m call i
  | elaborate {p : Plan} : m.control = .stage (.elaborate call p i) → Elaborates m call i
  | program {p : Plan} : .elaborate call p i ∈ m.roles → Elaborates m call i

/-- What is being elaborated is for the aggregate of the call that has made it. -/
def Machine.Aimed (m : Machine σ α) : Prop :=
  ∀ ⦃call i⦄, m.Elaborates call i → ∃ x, m.engine.origins i = some x ∧
    x.mixinTarget = call.request.mixin.map (·.aggregate)

namespace Service

variable {svc : Service σ} {r : Run σ} {ws : List (Waiting σ α)} {c : Control σ α}
  {m : Machine σ α} {call : Call} {i : InstanceId} {members : MemberTable}

theorem roles_giveAnswer {a : Except TemplateError InstanceId} :
    (giveAnswer r call a ws).roles = ws.map (·.role) := by
  cases ws <;> rfl

theorem roles_haltAsker {h : Halt} : (haltAsker r h ws).roles = ws.map (·.role) := by
  cases ws <;> rfl

theorem roles_openCall {chain : Chain} {q : Request} :
    (openCall r chain q ws).roles = ws.map (·.role) := by
  rw [openCall_eq]
  rfl

/-- What is being elaborated was so before the step, or it is made in the step. -/
theorem Steps.elaborates (h : svc.Steps r ws c m) (hi : m.Elaborates call i) :
    (⟨r, c, ws⟩ : Machine σ α).Elaborates call i ∨ ∃ p, i = ⟨r.engine.insts.size⟩ ∧
      m.engine = (r.engine.create call.request call.chain p).2 := by
  cases hi with
  | @openScope p hc =>
    cases h with
    | create =>
      cases hc
      exact .inr ⟨p, rfl, rfl⟩
    | unresolved | refuse | answer | finish | undeclared => cases ws <;> cases hc
    | request =>
      rw [openCall_eq] at hc
      cases hc
    | _ => cases hc
  | @elaborate p hc =>
    cases h with
    | openScope =>
      cases hc
      exact .inl (.openScope rfl)
    | unresolved | refuse | answer | finish | undeclared => cases ws <;> cases hc
    | request =>
      rw [openCall_eq] at hc
      cases hc
    | _ => cases hc
  | @program p hrole =>
    refine .inl ?_
    cases h with
    | unresolved | refuse | answer | finish =>
      rw [roles_giveAnswer] at hrole
      exact .program hrole
    | undeclared =>
      rw [roles_haltAsker] at hrole
      exact .program hrole
    | elaborate =>
      obtain hrole | hrole := List.mem_cons.mp hrole
      · cases hrole
        exact .elaborate rfl
      · exact .program hrole
    | resume =>
      obtain hrole | hrole := List.mem_cons.mp hrole
      · cases hrole
      · exact .program hrole
    | suspend | complete | fail | settle => exact .program (List.mem_cons_of_mem _ hrole)
    | request =>
      rw [roles_openCall] at hrole
      exact .program hrole
    | resolve | create | openScope | release | wake | done | halt | read | service | dangling
    | command | unasked => exact .program hrole

theorem Steps.aimed (hl : r.engine.Linked) (hp : (⟨r, c, ws⟩ : Machine σ α).Planned)
    (H : (⟨r, c, ws⟩ : Machine σ α).Aimed) (h : svc.Steps r ws c m) : m.Aimed := by
  intro call i hi
  obtain hi | ⟨p, rfl, he⟩ := h.elaborates hi
  · obtain ⟨x, hx, ht⟩ := H hi
    exact ⟨x, (h.becomes hl hp).origins hx, ht⟩
  · refine ⟨r.engine.made call.request call.chain p, ?_, rfl⟩
    rw [he, Engine.origins_create]
    exact Arena.put_self

end Service

/-! ## Who has members -/

/-- An instance that is done with its elaboration and did not fail has its members, and so has one that
goes on. -/
structure Machine.Furnished (m : Machine σ α) : Prop where
  members {i : InstanceId} {s : InstanceState} {t : Option MemberTable} :
    m.engine.progress? i = some (s, t) → s = .suspended ∨ s = .complete → t.isSome
  resuming {i : InstanceId} : i ∈ m.work.resuming →
    ∃ s t, m.engine.progress? i = some (s, t) ∧ t.isSome

theorem Machine.Evolves.furnished {m m' : Machine σ α} (hheld : m.Held) (H : m.Furnished)
    (h : m.Evolves m') : m'.Furnished := by
  have hkeep {i : InstanceId} (hi : i ∈ m.work.resuming) :
      ∃ s t, m'.engine.progress? i = some (s, t) ∧ t.isSome := by
    obtain ⟨s, t, hs, ht⟩ := H.resuming hi
    obtain ⟨s', t', hs', -, htt⟩ := h.progress hheld hs
    exact ⟨s', t', hs', htt ht ▸ ht⟩
  -- Only one instance changes, and if it has no members then it is errored.
  have hupdate {j : InstanceId} {v : InstanceState × Option MemberTable}
      (he : m'.engine.progress? = Function.update m.engine.progress? j (some v))
      (hv : v.1 = .suspended ∨ v.1 = .complete → v.2.isSome) {i : InstanceId} {s : InstanceState}
      {t : Option MemberTable} (hi : m'.engine.progress? i = some (s, t))
      (hs : s = .suspended ∨ s = .complete) : t.isSome := by
    rw [he] at hi
    by_cases hij : i = j
    · rw [hij, Function.update_self] at hi
      cases hi
      exact hv hs
    · rw [Function.update_of_ne hij] at hi
      exact H.members hi hs
  cases h with
  | same he _ hr => exact ⟨fun hi => H.members (he ▸ hi), fun hi => hkeep (hr ▸ hi)⟩
  | make _ he _ hr => exact ⟨hupdate he (by simp), fun hi => hkeep (hr ▸ hi)⟩
  | succeed _ _ he _ hr => exact ⟨hupdate he fun _ => rfl, fun hi => hkeep (hr ▸ hi)⟩
  | fail he _ hr => exact ⟨hupdate he (by simp), fun hi => hkeep (hr ▸ hi)⟩
  | @wake i t hi _ _ he _ hr =>
    refine ⟨fun hi => H.members (he ▸ hi), fun {j} hj => ?_⟩
    rw [hr] at hj
    obtain rfl | hj := List.mem_cons.mp hj
    · exact ⟨.suspended, t, he ▸ hi, H.members hi (.inl rfl)⟩
    · exact hkeep hj
  | @settle i s s' t hi _ _ he _ hr =>
    refine ⟨hupdate he fun _ => ?_, fun hj => hkeep (hr ▸ List.mem_cons_of_mem i hj)⟩
    obtain ⟨_, _, hi', ht⟩ := H.resuming (hr ▸ List.mem_cons_self)
    cases hi.symm.trans hi'
    exact ht

namespace Machine

variable {m : Machine σ α} {i : InstanceId} {t : MemberTable}

theorem elaborates?_eq_some_iff : m.elaborates? = some i ↔ ∃ t, m.Succeeds i t := by
  constructor
  · intro h
    unfold elaborates? at h
    split at h
    · next call p _ t hc =>
      cases h
      exact ⟨t, call, p, hc⟩
    · cases h
  · rintro ⟨t, call, p, hc⟩
    rw [elaborates?, hc]

theorem injects_of_elaborates?_eq_none (h : m.elaborates? = none) : m.injects = [] := by
  unfold elaborates? at h
  unfold injects
  split at h
  · cases h
  · next hne =>
    split
    · next hc => exact absurd hc (hne _ _ _ _)
    · rfl

end Machine

namespace Service

section

variable (svc : Service σ) {config : EngineConfig} {s : σ} {p : Program σ α} {k n : Nat}
  {i : InstanceId} {x : Instance}

theorem aimed_after (n : Nat) : (svc.after n (.boot config s p)).Aimed := by
  induction n with
  | zero =>
    intro call i h
    cases h with
    | openScope hc | elaborate hc => cases hc
    | program hrole => cases List.mem_singleton.mp hrole
  | succ n ih =>
    rw [after_succ]
    exact (step_steps _).aimed (linked_after svc n) (planned_after svc n) ih

theorem furnished_after (n : Nat) : (svc.after n (.boot config s p)).Furnished := by
  induction n with
  | zero => exact ⟨nofun, nofun⟩
  | succ n ih => exact (evolves_after svc n).furnished (held_after svc n) ih

/-- The members that a step adds are those of the instance whose elaboration succeeds in it. -/
theorem injects_after (hk : k < n) : (svc.after k (.boot config s p)).injects =
    (svc.after k (.boot config s p)).elaborates?.toList.flatMap
      (svc.after n (.boot config s p)).engine.additions := by
  cases h : (svc.after k (.boot config s p)).elaborates? with
  | none => exact Machine.injects_of_elaborates?_eq_none h
  | some i =>
    obtain ⟨t, hsucceeds⟩ := Machine.elaborates?_eq_some_iff.mp h
    obtain ⟨st, hprogress⟩ := (members_after_iff svc).mpr ⟨k, hk, hsucceeds⟩
    obtain ⟨x, hx, -, ht⟩ := Engine.progress?_eq_some_iff.mp hprogress
    obtain ⟨call, pl, hc⟩ := hsucceeds
    have hrole : Role.elaborate call pl i ∈ (svc.after k (.boot config s p)).roles := by
      rw [Machine.roles, hc]
      exact List.mem_cons_self
    obtain ⟨y, hy, htarget⟩ := aimed_after svc k (.program hrole)
    have horigin := (origins_after svc hk.le hy).symm.trans (Engine.origins_eq_some hx)
    cases horigin
    rw [Machine.injects, hc, Option.toList_some, List.flatMap_singleton, Engine.additions, hx]
    dsimp only
    rw [ht, Option.map_some, Option.getD_some, ← htarget]
    rfl

end

/-- What has been added to aggregates after `n` steps are the members of the instances that are not
errored, each once, in an order of the instances. -/
def SplicesHealthy (svc : Service σ) (m₀ : Machine σ α) (n : Nat) : Prop :=
  ∃ order : List InstanceId, order.Nodup ∧
    (∀ i, i ∈ order ↔ ∃ x, (svc.after n m₀).engine.inst? i = some x ∧ x.state ≠ .errored) ∧
    svc.injected m₀ n = order.flatMap (svc.after n m₀).engine.additions

/-- What is known of the members that have been added to aggregates when the run from `m₀` has made `n`
steps. -/
structure Splices (svc : Service σ) (m₀ : Machine σ α) (n : Nat) : Prop where
  /-- In a step these members are added, in order, and no other. -/
  step (k : Nat) : svc.after (k + 1) m₀ = (svc.muted.step (svc.after k m₀)).serve fun s =>
    (svc.injectEach (svc.after k m₀).injects s).2
  /-- All members of an instance are added when its elaboration succeeds, each to the aggregate of the
  instance. -/
  injected : svc.injected m₀ n = (svc.elaborated m₀ n).flatMap (svc.after n m₀).engine.additions
  /-- The elaboration of no instance succeeds twice. -/
  once : (svc.elaborated m₀ n).Nodup
  mem_iff {i : InstanceId} : i ∈ svc.elaborated m₀ n ↔
    ∃ x, (svc.after n m₀).engine.inst? i = some x ∧ x.members.isSome
  /-- What fails while it is elaborated is never among them. -/
  failed {k : Nat} {i : InstanceId} : (svc.after k m₀).FailsToElaborate i →
    i ∉ svc.elaborated m₀ n
  /-- At the top all are among them that did not fail. -/
  healthy {i : InstanceId} {x : Instance} : (svc.after n m₀).AtTop →
    (svc.after n m₀).engine.inst? i = some x → x.state ≠ .errored → i ∈ svc.elaborated m₀ n
  /-- Of those that failed there are the ones with which the front end could not go on. -/
  late {i : InstanceId} {x : Instance} : (svc.after n m₀).engine.inst? i = some x →
    x.state = .errored → i ∈ svc.elaborated m₀ n → ∃ k < n, (svc.after k m₀).FailsToResume i
  /-- So at the top only what did not fail is spliced if no such instance had members to add. -/
  healthy_iff : (svc.after n m₀).AtTop → (svc.SplicesHealthy m₀ n ↔
    ∀ i x, (svc.after n m₀).engine.inst? i = some x → x.state = .errored →
      (svc.after n m₀).engine.additions i = [])

section

variable {svc : Service σ} {config : EngineConfig} {s : σ} {p : Program σ α} {k n : Nat}
  {i : InstanceId} {x : Instance}

theorem injected_eq (n : Nat) : svc.injected (.boot config s p) n =
    (svc.elaborated (.boot config s p) n).flatMap
      (svc.after n (.boot config s p)).engine.additions := by
  rw [elaborated, List.filterMap_eq_flatMap_toList, List.flatMap_assoc, injected]
  exact List.flatMap_congr fun k hk => injects_after svc (List.mem_range.mp hk)

theorem nodup_elaborated (n : Nat) : (svc.elaborated (.boot config s p) n).Nodup := by
  refine List.Nodup.filterMap (fun k l i hk hl => ?_) List.nodup_range
  obtain ⟨_, hk⟩ := Machine.elaborates?_eq_some_iff.mp hk
  obtain ⟨_, hl⟩ := Machine.elaborates?_eq_some_iff.mp hl
  exact Nat.le_antisymm (succeeds_once svc hl hk) (succeeds_once svc hk hl)

theorem mem_elaborated_iff : i ∈ svc.elaborated (.boot config s p) n ↔
    ∃ x, (svc.after n (.boot config s p)).engine.inst? i = some x ∧ x.members.isSome := by
  have hmem : i ∈ svc.elaborated (.boot config s p) n ↔
      ∃ k < n, ∃ t, (svc.after k (.boot config s p)).Succeeds i t := by
    simp only [elaborated, List.mem_filterMap, List.mem_range, Machine.elaborates?_eq_some_iff]
  rw [hmem]
  constructor
  · rintro ⟨k, hk, t, h⟩
    obtain ⟨st, h⟩ := (members_after_iff svc).mpr ⟨k, hk, h⟩
    obtain ⟨x, hx, -, ht⟩ := Engine.progress?_eq_some_iff.mp h
    exact ⟨x, hx, ht ▸ rfl⟩
  · rintro ⟨x, hx, ht⟩
    obtain ⟨t, ht⟩ := Option.isSome_iff_exists.mp ht
    obtain ⟨k, hk, h⟩ := (members_after_iff svc).mp
      ⟨x.state, Engine.progress?_eq_some_iff.mpr ⟨x, hx, rfl, ht⟩⟩
    exact ⟨k, hk, t, h⟩

theorem step_progress?_of_failsToElaborate {m : Machine σ α} {st : InstanceState}
    {t : Option MemberTable} (h : m.FailsToElaborate i) (hi : m.engine.progress? i = some (st, t)) :
    (svc.step m).engine.progress? i = some (.errored, t) := by
  have hs : svc.Steps m.run m.waiting m.control (svc.step m) := step_steps m
  obtain ⟨call, pl, f, hc⟩ := h
  rw [hc] at hs
  generalize svc.step m = m' at hs ⊢
  cases hs with
  | fail hf =>
    obtain rfl := congrArg Prod.snd hf
    change (Engine.takeDeferred _ i).2.progress? i = _
    rw [Engine.progress?_takeDeferred, Engine.progress?_fail hi, Function.update_self]

/-- An instance whose elaboration has failed is not elaborated any more. -/
theorem not_succeeds_of_failsToElaborate {t : MemberTable} {l : Nat}
    (hk : (svc.after k (.boot config s p)).FailsToElaborate i) :
    ¬(svc.after l (.boot config s p)).Succeeds i t := by
  obtain ⟨call, pl, f, hc⟩ := hk
  intro hl
  have hwork : i ∈ (svc.after k (.boot config s p)).work.elaborating := by
    rw [Machine.work, hc, Machine.roles, hc]
    exact List.mem_cons_self
  have hheld := (held_after svc k).elaborating hwork
  obtain hlt | rfl | hlt := lt_trichotomy l k
  · obtain ⟨st, hst⟩ := (members_after_iff svc).mpr ⟨l, hlt, hl⟩
    cases hst.symm.trans hheld
  · obtain ⟨_, _, hc'⟩ := hl
    cases hc.symm.trans hc'
  · have herrored : (svc.after (k + 1) (.boot config s p)).engine.progress? i =
        some (.errored, none) := by
      rw [after_succ]
      exact step_progress?_of_failsToElaborate ⟨call, pl, f, hc⟩ hheld
    obtain ⟨st, u, hst, hprecedes, -⟩ := progress_after svc (Nat.succ_le_of_lt hlt) herrored
    cases hst.symm.trans ((held_after svc l).elaborating hl.mem_work)
    simp [InstanceState.Precedes] at hprecedes

theorem notMem_elaborated_of_failsToElaborate
    (hk : (svc.after k (.boot config s p)).FailsToElaborate i) :
    i ∉ svc.elaborated (.boot config s p) n := by
  intro hi
  obtain ⟨l, -, hl⟩ := List.mem_filterMap.mp hi
  obtain ⟨t, ht⟩ := Machine.elaborates?_eq_some_iff.mp hl
  exact not_succeeds_of_failsToElaborate hk ht

/-- An errored instance has failed. -/
theorem exists_fails (h : (svc.after n (.boot config s p)).engine.arena.state? i = some .errored) :
    ∃ k < n, ∃ o d, svc.Fails (svc.after k (.boot config s p)) i o d := by
  induction n with
  | zero => cases h
  | succ n ih =>
    rw [after_succ] at h
    obtain h | hfails := (step_steps _).errored (linked_after svc n) h
    · obtain ⟨k, hk, hfails⟩ := ih h
      exact ⟨k, Nat.lt_succ_of_lt hk, hfails⟩
    · exact ⟨n, Nat.lt_succ_self n, hfails⟩

theorem exists_failsToResume (hx : (svc.after n (.boot config s p)).engine.inst? i = some x)
    (hs : x.state = .errored) (hi : i ∈ svc.elaborated (.boot config s p) n) :
    ∃ k < n, (svc.after k (.boot config s p)).FailsToResume i := by
  have herrored : (svc.after n (.boot config s p)).engine.arena.state? i = some .errored := by
    rw [Engine.state?_arena, hx, Option.map_some, hs]
  obtain ⟨k, hk, o, d, hfails⟩ := exists_fails herrored
  refine ⟨k, hk, ?_⟩
  cases hfails with
  | elaborate hc => exact absurd hi (notMem_elaborated_of_failsToElaborate ⟨_, _, _, hc⟩)
  | resume hc => exact ⟨_, _, _, _, hc⟩

theorem mem_elaborated_of_atTop (htop : (svc.after n (.boot config s p)).AtTop)
    (hx : (svc.after n (.boot config s p)).engine.inst? i = some x) (hs : x.state ≠ .errored) :
    i ∈ svc.elaborated (.boot config s p) n := by
  have hmade := Engine.inst?_eq_some_iff.mp ⟨x, hx⟩
  have helaborating := not_elaborating_of_atTop htop (Nat.le_refl n) hmade
  rw [Engine.state?_arena, hx, Option.map_some, Ne, Option.some.injEq] at helaborating
  refine mem_elaborated_iff.mpr ⟨x, hx, ?_⟩
  refine (furnished_after svc n).members (Engine.progress?_of_inst? hx) ?_
  cases hstate : x.state <;> simp_all

/-- What is dropped from a list and is not missed gives nothing. -/
theorem eq_nil_of_flatMap_filter {β γ : Type} {l : List β} {q : β → Bool} {f : β → List γ}
    (h : ((l.filter q).flatMap f).length = (l.flatMap f).length) {a : β} (ha : a ∈ l)
    (hq : q a = false) : f a = [] := by
  have hperm := ((List.filter_append_perm q l).flatMap_right f).length_eq
  rw [List.flatMap_append, List.length_append, h] at hperm
  have hrest : (l.filter fun x => !q x).flatMap f = [] := List.length_eq_zero_iff.mp (by omega)
  exact List.flatMap_eq_nil_iff.mp hrest a (List.mem_filter.mpr ⟨ha, by rw [hq]; rfl⟩)

theorem flatMap_filter_eq {β γ : Type} {l : List β} {q : β → Bool} {f : β → List γ}
    (h : ∀ a ∈ l, q a = false → f a = []) : (l.filter q).flatMap f = l.flatMap f := by
  induction l with
  | nil => rfl
  | cons a l ih =>
    obtain ⟨ha, hl⟩ := List.forall_mem_cons.mp h
    cases hq : q a with
    | true => rw [List.filter_cons_of_pos hq, List.flatMap_cons, List.flatMap_cons, ih hl]
    | false =>
      rw [List.filter_cons_of_neg (by simp [hq]), List.flatMap_cons, ha hq, List.nil_append, ih hl]

/-- The instances that did not fail are those of all spliced ones. -/
theorem mem_filter_isHealthy_iff (htop : (svc.after n (.boot config s p)).AtTop) :
    i ∈ (svc.elaborated (.boot config s p) n).filter
        (svc.after n (.boot config s p)).engine.isHealthy ↔
      ∃ x, (svc.after n (.boot config s p)).engine.inst? i = some x ∧ x.state ≠ .errored := by
  rw [List.mem_filter]
  constructor
  · rintro ⟨hi, hsound⟩
    obtain ⟨x, hx, -⟩ := mem_elaborated_iff.mp hi
    refine ⟨x, hx, ?_⟩
    simpa [Engine.isHealthy, hx] using hsound
  · rintro ⟨x, hx, hs⟩
    refine ⟨mem_elaborated_of_atTop htop hx hs, ?_⟩
    simpa [Engine.isHealthy, hx] using hs

/-- The members of those that failed make the difference. -/
theorem splicesHealthy_iff (htop : (svc.after n (.boot config s p)).AtTop) :
    svc.SplicesHealthy (.boot config s p) n ↔
      ∀ i x, (svc.after n (.boot config s p)).engine.inst? i = some x → x.state = .errored →
        (svc.after n (.boot config s p)).engine.additions i = [] := by
  have hall : (svc.elaborated (.boot config s p) n).Nodup := nodup_elaborated n
  have hnodup := hall.filter (svc.after n (.boot config s p)).engine.isHealthy
  constructor
  · rintro ⟨order, horder, hmem, hinjected⟩ i x hx hs
    by_cases hi : i ∈ svc.elaborated (.boot config s p) n
    · have hperm := (List.perm_ext_iff_of_nodup horder hnodup).mpr fun i =>
        (hmem i).trans (mem_filter_isHealthy_iff htop).symm
      have hlength := (hperm.flatMap_right (svc.after n (.boot config s p)).engine.additions).length_eq
      rw [← hinjected, injected_eq] at hlength
      exact eq_nil_of_flatMap_filter hlength.symm hi (by simp [Engine.isHealthy, hx, hs])
    · have hnone : x.members = none := by
        by_contra hne
        exact hi (mem_elaborated_iff.mpr ⟨x, hx, Option.isSome_iff_ne_none.mpr hne⟩)
      rw [Engine.additions, hx]
      dsimp only
      rw [hnone]
      rfl
  · intro h
    refine ⟨_, hnodup, fun i => mem_filter_isHealthy_iff htop, ?_⟩
    rw [injected_eq, flatMap_filter_eq]
    intro i hi hq
    obtain ⟨x, hx, -⟩ := mem_elaborated_iff.mp hi
    exact h i x hx (by simpa [Engine.isHealthy, hx] using hq)

/-- **The members of a mixin are spliced once, when its elaboration succeeds.** -/
theorem splices (n : Nat) : svc.Splices (.boot config s p) n := by
  constructor
  case step =>
    intro k
    rw [after_succ]
    exact step_eq_muted svc _
  case injected => exact injected_eq n
  case once => exact nodup_elaborated n
  case mem_iff => exact mem_elaborated_iff
  case failed => exact notMem_elaborated_of_failsToElaborate
  case healthy => exact mem_elaborated_of_atTop
  case late => exact exists_failsToResume
  case healthy_iff => exact splicesHealthy_iff

end

end Service

/-- A front end that keeps a list of what was added to aggregates. An instance of the first template
mixes one of the second into an aggregate. The latter has a member and refers back to the former, and
the front end cannot go on with it. -/
def grafting : Service (List (SymbolId × Member)) where
  evaluate _ _ := pure (.error ⟨"", {}⟩)
  openScope s := pure s
  declareSymbol _ _ _ := pure ()
  symbolName _ _ := ""
  elaborate c i :=
    if i.index = 0 then .request c { decl := ⟨1⟩, mixin := some ⟨⟨7⟩, ⟨8⟩⟩ } fun _ => .done (.ok [])
    else .request c { decl := ⟨0⟩, need := .reference } fun _ => .done (.ok [⟨"x", ⟨5⟩, none⟩])
  resume _ := .done (.error ⟨"", {}⟩)
  inject aggregate m := modify (· ++ [(aggregate, m)])

/-- Two templates and a request for an instance of the first. -/
def graftingClient : Program (List (SymbolId × Member)) (Except TemplateError InstanceId) :=
  .command (.declare { name := "A" }) fun _ => .command (.declare { name := "B" }) fun _ =>
    .request [] { decl := ⟨0⟩ } .done

/-- The machine of the request at its beginning. -/
def graftingBoot : Machine (List (SymbolId × Member)) (Except TemplateError InstanceId) :=
  .boot { digest := fun _ _ => default } [] graftingClient

theorem grafting_atTop : (grafting.after 22 graftingBoot).AtTop := ⟨rfl, _, rfl⟩

/-- The member of the second instance is in the aggregate, although this instance has failed. -/
theorem not_splicesHealthy_grafting : (grafting.after 22 graftingBoot).AtTop ∧
    (grafting.after 22 graftingBoot).run.service = [(⟨7⟩, ⟨"x", ⟨5⟩, none⟩)] ∧
    (grafting.after 22 graftingBoot).engine.isHealthy ⟨1⟩ = false ∧
    ¬grafting.SplicesHealthy graftingBoot 22 := by
  refine ⟨grafting_atTop, rfl, rfl, fun h => ?_⟩
  have hnone : (grafting.after 22 graftingBoot).engine.additions ⟨1⟩ = [] :=
    (Service.splicesHealthy_iff grafting_atTop).mp h ⟨1⟩ _ rfl rfl
  cases hnone

/-- The elaboration of both instances succeeded, and later the front end could not go on with the
second. -/
theorem splices_grafting : grafting.Splices graftingBoot 22 ∧
    grafting.elaborated graftingBoot 22 = [⟨1⟩, ⟨0⟩] ∧
    grafting.injected graftingBoot 22 = [(⟨7⟩, ⟨"x", ⟨5⟩, none⟩)] ∧
    ∃ k < 22, (grafting.after k graftingBoot).FailsToResume ⟨1⟩ := by
  have H : grafting.Splices graftingBoot 22 := Service.splices 22
  have hall : grafting.elaborated graftingBoot 22 = [⟨1⟩, ⟨0⟩] := rfl
  refine ⟨H, hall, rfl, H.late rfl rfl ?_⟩
  rw [hall]
  exact List.mem_cons_self

end Templates
