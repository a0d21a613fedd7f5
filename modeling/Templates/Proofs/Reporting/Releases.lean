import Templates.Proofs.Gagging

/-!
# Releases inside calls

An instance that is made while a call goes on waits only inside this call: when the instance of the
call has ended, those that are released for it were made by it or later (`Machine.Inward`). For this
the front end need not be given good chains by the client, as long as it hands on no chain but its
own or the empty one.
-/

namespace Templates

variable {σ α : Type}

/-! ## Releases -/

/-- An outcome, and the instances that are in hand for it: one that goes on, and those that still have
to be released. -/
structure Release where
  outcome : Outcome
  hand : List InstanceId

def Role.release? : Role → Option Release
  | .client | .elaborate .. => none
  | .resume _ o w rest => some ⟨o, w :: rest⟩

/-- The instance that the call of the program made. -/
def Role.maker? (role : Role) : Option InstanceId := role.made?.map Prod.snd

def Stage.release? : Stage → Option Release
  | .release _ o pending => some ⟨o, pending⟩
  | .resume _ o w rest => some ⟨o, w :: rest⟩
  | .resolve _ | .plan .. | .openScope .. | .elaborate .. => none

namespace Machine

/-- The releases in progress, innermost first. -/
def releases (m : Machine σ α) : List Release :=
  match m.control with
  | .stage s => s.release?.toList ++ m.roles.filterMap Role.release?
  | .program .. | .unasked => m.roles.filterMap Role.release?

/-- The instances whose calls go on, innermost first. -/
def makers (m : Machine σ α) : List InstanceId :=
  match m.control with
  | .stage s => s.made?.toList ++ m.roles.filterMap Role.maker?
  | .program .. | .unasked => m.roles.filterMap Role.maker?

/-- Errors were counted if an instance that is not speculative has failed and others are still to be
released for it. -/
def Blamed (m : Machine σ α) : Prop :=
  ∀ x ∈ m.releases, ∀ err, x.outcome.answer = .error err →
    m.engine.gagged? x.outcome.inst = some false → 0 < m.engine.queue.errorCount

end Machine

namespace Service

variable {svc : Service σ} {r : Run σ} {ws : List (Waiting σ α)} {call : Call} {e : Engine}
  {c : Control σ α} {m : Machine σ α} {s : σ} {i : InstanceId}

theorem mem_releases_stage {st : Stage} {x : Release} :
    x ∈ (⟨r, .stage st, ws⟩ : Machine σ α).releases ↔
      st.release? = some x ∨ x ∈ (ws.map (·.role)).filterMap Role.release? := by
  unfold Machine.releases Machine.roles
  rw [List.mem_append, Option.mem_toList]

theorem mem_releases_program {role : Role} {p : Program σ (role.Result α)} {x : Release} :
    x ∈ (⟨r, .program role p, ws⟩ : Machine σ α).releases ↔
      role.release? = some x ∨ x ∈ (ws.map (·.role)).filterMap Role.release? := by
  simp only [Machine.releases, Machine.roles, List.mem_filterMap, List.mem_cons, exists_eq_or_imp]

theorem releases_giveAnswer {a : Except TemplateError InstanceId} :
    (giveAnswer ⟨e, s⟩ call a ws).releases = (ws.map (·.role)).filterMap Role.release? := by
  cases ws <;> rfl

/-- The call that a release belongs to goes on. -/
theorem maker_of_mem_releases {x : Release} (hx : x ∈ m.releases) : x.outcome.inst ∈ m.makers := by
  have hrole {role : Role} (h : role.release? = some x) : role.maker? = some x.outcome.inst := by
    cases role <;> cases h
    rfl
  have houter {roles : List Role} (h : x ∈ roles.filterMap Role.release?) :
      x.outcome.inst ∈ roles.filterMap Role.maker? := by
    obtain ⟨role, hmem, h⟩ := List.mem_filterMap.mp h
    exact List.mem_filterMap.mpr ⟨role, hmem, hrole h⟩
  obtain ⟨r, c, ws⟩ := m
  cases c with
  | program | unasked => exact houter hx
  | stage st =>
    obtain h | h := List.mem_append.mp hx
    · refine List.mem_append_left _ (Option.mem_toList.mpr ?_)
      replace h : st.release? = some x := Option.mem_toList.mp h
      cases st <;> cases h <;> rfl
    · exact List.mem_append_right _ (houter h)

/-- A release in progress after a step. -/
inductive Released (svc : Service σ) (r : Run σ) (ws : List (Waiting σ α)) (c : Control σ α)
    (x : Release) : Prop
  /-- It was in progress. Some of those that waited for one in hand may be in hand now. -/
  | before {y : Release} : y ∈ (⟨r, c, ws⟩ : Machine σ α).releases → x.outcome = y.outcome →
    (∀ v ∈ x.hand, v ∈ y.hand ∨ ∃ t ∈ y.hand, v ∈ r.engine.arena.deferred t) →
    Released svc r ws c x
  /-- An instance has its members or has failed. -/
  | ended : x.outcome.inst ∈ (⟨r, c, ws⟩ : Machine σ α).makers →
    (∀ v ∈ x.hand, v ∈ r.engine.arena.deferred x.outcome.inst) →
    (∀ err, x.outcome.answer = .error err →
      ∃ d, svc.Fails (⟨r, c, ws⟩ : Machine σ α) x.outcome.inst x.outcome.inst d) →
    Released svc r ws c x

theorem Steps.released (h : svc.Steps r ws c m) {x : Release} (hx : x ∈ m.releases) :
    svc.Released r ws c x := by
  have hold (hx : x ∈ (⟨r, c, ws⟩ : Machine σ α).releases) : svc.Released r ws c x :=
    .before hx rfl fun v hv => .inl hv
  have houter {st : Stage} (hc : c = .stage st)
      (hx : x ∈ (ws.map (·.role)).filterMap Role.release?) : svc.Released r ws c x :=
    hold (hc ▸ mem_releases_stage.mpr (.inr hx))
  cases h with
  | unresolved | refuse | answer | finish => exact houter rfl (releases_giveAnswer ▸ hx)
  | undeclared => cases ws <;> exact hold hx
  | request =>
    refine hold ?_
    rwa [openCall_eq] at hx
  | resolve | create | openScope =>
    exact houter rfl ((mem_releases_stage.mp hx).resolve_left nofun)
  | elaborate => exact houter rfl hx
  | @release call o w rest =>
    obtain h | hx := mem_releases_stage.mp hx
    · cases h
      exact .before (mem_releases_stage.mpr (.inl rfl)) rfl
        fun v hv => .inl (List.mem_cons_of_mem w hv)
    · exact houter rfl hx
  | wake => exact hold hx
  | resume => exact hold hx
  | suspend =>
    obtain h | hx := mem_releases_stage.mp hx
    · cases h
      exact .ended List.mem_cons_self nofun nofun
    · exact hold hx
  | @complete _ _ i members =>
    obtain h | hx := mem_releases_stage.mp hx
    · cases h
      refine .ended List.mem_cons_self (fun v hv => ?_) nofun
      refine Engine.mem_deferred_of_taken Engine.arena_complete ?_ (List.mem_reverse.mp hv)
      exact fun _ => rfl
    · exact hold hx
  | fail hf =>
    obtain rfl := congrArg Prod.snd hf
    obtain h | hx := mem_releases_stage.mp hx
    · cases h
      refine .ended List.mem_cons_self (fun v hv => ?_) fun _ _ => ⟨_, .elaborate rfl⟩
      refine Engine.mem_deferred_of_taken Engine.arena_fail ?_ (List.mem_reverse.mp hv)
      exact fun _ => rfl
    · exact hold hx
  | @settle call o w rest result names e hs =>
    obtain h | hx := mem_releases_stage.mp hx
    · cases h
      refine .before List.mem_cons_self rfl fun v hv => ?_
      obtain hv | hv := List.mem_append.mp hv
      · refine .inr ⟨w, List.mem_cons_self, ?_⟩
        subst hs
        refine Engine.mem_deferred_of_taken Engine.arena_settle ?_ (List.mem_reverse.mp hv)
        exact fun _ => rfl
      · exact .inl (List.mem_cons_of_mem w hv)
    · exact hold (List.mem_cons_of_mem _ hx)
  | done | halt | read | service | dangling | command | unasked => exact hold hx

end Service

/-! ## Waiting -/

/-- Who waits for an instance that was made since `o` was itself made since `o`. -/
def Engine.Confined (e : Engine) (o : InstanceId) : Prop :=
  ∀ ⦃t v : InstanceId⦄, o.index ≤ t.index → v ∈ e.arena.deferred t → o.index ≤ v.index

namespace Machine

/-- The calls lie inside each other in the order in which their instances were made, and what is
released in a call was made in it. -/
structure Inward (m : Machine σ α) : Prop where
  sorted : m.makers.Pairwise fun i o => o.index ≤ i.index
  made : ∀ o ∈ m.makers, o.index < m.engine.insts.size
  confined : ∀ o ∈ m.makers, m.engine.Confined o
  hand : ∀ x ∈ m.releases, ∀ v ∈ x.hand, x.outcome.inst.index ≤ v.index

/-- Inside a call of the client no chain is in use that leads elsewhere than to the innermost
instance. -/
structure Leads (m : Machine σ α) : Prop where
  stage {s : Stage} {v : InstanceId} : m.control = .stage s → s.made? = none →
    s.call.chain.innermost? = some v → ∀ o ∈ m.makers, o.index ≤ v.index
  program {role : Role} {p : Program σ (role.Result α)} :
    m.control = .program role p → role.maker?.isSome → p.Hands role.chain
  waiting : ∀ w ∈ m.waiting, w.role.maker?.isSome → ∀ a, (w.next a).Hands w.role.chain

end Machine

namespace Service

variable {svc : Service σ} {r : Run σ} {ws : List (Waiting σ α)} {call : Call} {e : Engine}
  {c : Control σ α} {m : Machine σ α} {s : σ} {i : InstanceId}

theorem arena_giveAnswer {a : Except TemplateError InstanceId} :
    (giveAnswer ⟨e, s⟩ call a ws).engine.arena = e.arena := by
  cases ws with
  | nil => rfl
  | cons w ws => exact (closeGag_quiet e call.mark).arena

/-- Only the head of a chain begins to wait. -/
theorem Steps.deferred (h : svc.Steps r ws c m) (hl : r.engine.Linked) {t v : InstanceId}
    (hv : v ∈ m.engine.arena.deferred t) : v ∈ r.engine.arena.deferred t ∨
      ∃ call resolved, c = .stage (.plan call resolved) ∧ call.chain.innermost? = some v := by
  have hquiet {e : Engine} (h : r.engine.Quiet e) (hv : v ∈ e.arena.deferred t) :
      v ∈ r.engine.arena.deferred t := by
    rwa [h.arena] at hv
  have halter {e : Engine} {i : InstanceId} {f : Instance → Instance}
      (h : e.arena = r.engine.arena.alter i f) (hf : ∀ x, (f x).deferred = x.deferred)
      (hv : v ∈ e.arena.deferred t) : v ∈ r.engine.arena.deferred t := by
    rwa [h, Arena.deferred_alter hf] at hv
  cases h with
  | unresolved | refuse =>
    rw [arena_giveAnswer] at hv
    exact .inl (hquiet (Engine.reject_quiet ..) hv)
  | answer _ ha =>
    rw [arena_giveAnswer] at hv
    obtain h | ⟨f, -, i, hi, -, rfl⟩ := Engine.answer?_cases ha
    · exact .inl (hquiet h hv)
    · refine (Engine.mem_deferred_defer hv).imp_right ?_
      rintro ⟨rfl, -⟩
      exact ⟨_, _, rfl, hi⟩
  | finish =>
    rw [arena_giveAnswer] at hv
    exact .inl hv
  | undeclared => cases ws <;> exact .inl hv
  | create =>
    rw [Engine.arena_create, Arena.deferred_put] at hv
    split at hv
    · cases hv
    · exact .inl hv
  | openScope =>
    refine .inl (hquiet (.modifyInst ?_) hv)
    exact fun _ => rfl
  | release | wake => exact .inl (Engine.deferred_release .. ▸ hv)
  | suspend =>
    refine .inl (halter Engine.arena_complete ?_ hv)
    exact fun _ => rfl
  | complete =>
    refine .inl (halter Engine.arena_complete ?_ (Engine.mem_deferred_takeDeferred hv))
    exact fun _ => rfl
  | fail hf =>
    obtain rfl := congrArg Prod.snd hf
    refine .inl (halter Engine.arena_fail ?_ (Engine.mem_deferred_takeDeferred hv))
    exact fun _ => rfl
  | settle hs =>
    subst hs
    refine .inl (halter Engine.arena_settle ?_ (Engine.mem_deferred_takeDeferred hv))
    exact fun _ => rfl
  | command hc => exact .inl (hquiet (Command.run_quiet hl _ hc) hv)
  | request => exact .inl (hquiet openCall_quiet hv)
  | resolve | elaborate | resume | done | halt | read | service | dangling | unasked => exact .inl hv

theorem makers_giveAnswer {a : Except TemplateError InstanceId} :
    (giveAnswer ⟨e, s⟩ call a ws).makers = (ws.map (·.role)).filterMap Role.maker? := by
  cases ws <;> rfl

theorem makers_openCall {chain : Chain} {q : Request} :
    (openCall r chain q ws).makers = (ws.map (·.role)).filterMap Role.maker? := by
  rw [openCall_eq]
  rfl

/-- A new instance is the innermost one. Else no call begins that makes one. -/
theorem Steps.makers (h : svc.Steps r ws c m) :
    m.makers.Sublist (⟨r, c, ws⟩ : Machine σ α).makers ∨
      m.makers = ⟨r.engine.insts.size⟩ :: (⟨r, c, ws⟩ : Machine σ α).makers ∧
        ∃ q chain p, m.engine = (r.engine.create q chain p).2 := by
  have hsame {l l' : List InstanceId} (h : l = l') : l.Sublist l' := h ▸ List.Sublist.refl l
  cases h with
  | unresolved | refuse | answer | finish =>
    rw [makers_giveAnswer]
    exact .inl (List.sublist_append_right ..)
  | undeclared => cases ws <;> exact .inl (hsame rfl)
  | create => exact .inr ⟨rfl, _, _, _, rfl⟩
  | request =>
    rw [makers_openCall]
    exact .inl (hsame rfl)
  | done | resolve | openScope | elaborate | release | wake | resume | suspend | complete | fail
  | settle | halt | read | service | dangling | command | unasked => exact .inl (hsame rfl)

theorem Steps.insts_size_le (h : svc.Steps r ws c m) (hl : r.engine.Linked)
    (hp : (⟨r, c, ws⟩ : Machine σ α).Planned) :
    r.engine.insts.size ≤ m.engine.insts.size := by
  have hb := h.becomes hl hp
  generalize m.engine = e at hb ⊢
  cases hb with
  | create => simp
  | keep h =>
    by_contra hn
    have hnone : e.origins ⟨e.insts.size⟩ = none := Engine.origins_eq_none_iff.mpr (Nat.le_refl _)
    rw [h.origins, Engine.origins_eq_none_iff] at hnone
    exact hn hnone

theorem Steps.inward (h : svc.Steps r ws c m) (hl : r.engine.Linked)
    (hp : (⟨r, c, ws⟩ : Machine σ α).Planned) (hleads : (⟨r, c, ws⟩ : Machine σ α).Leads)
    (H : (⟨r, c, ws⟩ : Machine σ α).Inward) : m.Inward := by
  have hconfined {o : InstanceId} (ho : o ∈ (⟨r, c, ws⟩ : Machine σ α).makers) :
      m.engine.Confined o := by
    intro t v ht hv
    obtain hv | ⟨call, resolved, rfl, hv⟩ := h.deferred hl hv
    · exact H.confined o ho ht hv
    · exact hleads.stage rfl rfl hv o ho
  have hmade {o : InstanceId} (ho : o ∈ (⟨r, c, ws⟩ : Machine σ α).makers) :
      o.index < m.engine.insts.size := (H.made o ho).trans_le (h.insts_size_le hl hp)
  have hhand : ∀ x ∈ m.releases, ∀ v ∈ x.hand, x.outcome.inst.index ≤ v.index := by
    intro x hx v hv
    cases h.released hx with
    | before hy ho hh =>
      rw [ho]
      obtain hv | ⟨t, ht, hv⟩ := hh v hv
      · exact H.hand _ hy v hv
      · exact H.confined _ (maker_of_mem_releases hy) (H.hand _ hy t ht) hv
    | ended ho hh => exact H.confined _ ho (Nat.le_refl _) (hh v hv)
  obtain hsub | ⟨hmakers, q, chain, p, he⟩ := h.makers
  · exact ⟨H.sorted.sublist hsub, fun o ho => hmade (hsub.mem ho),
      fun o ho => hconfined (hsub.mem ho), hhand⟩
  · refine ⟨?_, fun o ho => ?_, fun o ho => ?_, hhand⟩
    · rw [hmakers]
      exact List.pairwise_cons.mpr ⟨fun o ho => (H.made o ho).le, H.sorted⟩
    · rw [hmakers] at ho
      obtain rfl | ho := List.mem_cons.mp ho
      · rw [he, Engine.insts_create]
        exact Nat.lt_succ_self _
      · exact hmade ho
    · rw [hmakers] at ho
      obtain rfl | ho := List.mem_cons.mp ho
      · -- Nobody waits for the new instance, and none was made since.
        intro t v ht hv
        rw [he, Engine.arena_create, Arena.deferred_put] at hv
        split at hv
        · cases hv
        · obtain ⟨x, hx, -⟩ := Arena.mem_deferred_iff.mp hv
          rw [Engine.arena_eq_none_iff.mpr ht] at hx
          cases hx
      · exact hconfined ho

section

variable (hw : ∀ w ∈ ws, w.role.maker?.isSome → ∀ a, (w.next a).Hands w.role.chain)

include hw

theorem stage_leads {st : Stage} (hst : st.made? ≠ none) :
    (⟨r, .stage st, ws⟩ : Machine σ α).Leads := by
  refine ⟨fun hc hs => ?_, (nomatch ·), hw⟩
  cases hc
  exact absurd hs hst

theorem program_leads {role : Role} {p : Program σ (role.Result α)}
    (hp : role.maker?.isSome → p.Hands role.chain) :
    (⟨r, .program role p, ws⟩ : Machine σ α).Leads := by
  refine ⟨(nomatch ·), fun hc hrole => ?_, hw⟩
  cases hc
  exact hp hrole

theorem giveAnswer_leads {a : Except TemplateError InstanceId} :
    (giveAnswer ⟨e, s⟩ call a ws).Leads := by
  cases ws with
  | nil => exact ⟨(nomatch ·), (nomatch ·), hw⟩
  | cons w ws =>
    exact program_leads (fun w' h => hw w' (List.mem_cons_of_mem w h))
      fun hrole => hw w List.mem_cons_self hrole a

theorem haltAsker_leads {h : Halt} : (haltAsker r h ws).Leads := by
  cases ws with
  | nil => exact ⟨(nomatch ·), (nomatch ·), hw⟩
  | cons w ws => exact program_leads (fun w' h => hw w' (List.mem_cons_of_mem w h)) fun _ => trivial

end

/-- A chain that a program hands on leads nowhere, or to the instance that it elaborates. -/
theorem index_le_of_handed {role : Role} {c : Chain} {v : InstanceId} (hc : c = role.chain ∨ c = [])
    (hv : c.innermost? = some v) {outer : List InstanceId}
    (H : (role.maker?.toList ++ outer).Pairwise fun i o => o.index ≤ i.index) :
    ∀ o ∈ role.maker?.toList ++ outer, o.index ≤ v.index := by
  obtain rfl | rfl := hc
  · cases role with
    | client | resume => cases hv
    | elaborate call p i =>
      obtain rfl : i = v := Option.some.inj hv
      intro o ho
      obtain rfl | ho := List.mem_cons.mp ho
      · exact Nat.le_refl _
      · exact List.rel_of_pairwise_cons H ho
  · cases hv

theorem Steps.leads (h : svc.Steps r ws c m) (hsvc : svc.HandsOn)
    (htop : ∀ p, c = .program .client p → ws = []) (H : (⟨r, c, ws⟩ : Machine σ α).Inward)
    (hleads : (⟨r, c, ws⟩ : Machine σ α).Leads) : m.Leads := by
  have hw := hleads.waiting
  cases h with
  | unresolved | refuse | answer | finish => exact giveAnswer_leads hw
  | undeclared => exact haltAsker_leads hw
  | resolve =>
    refine ⟨fun hc hs hv => ?_, (nomatch ·), hw⟩
    cases hc
    exact hleads.stage rfl rfl hv
  | create | openScope | release | wake | suspend | complete | fail | settle =>
    exact stage_leads hw nofun
  | elaborate => exact program_leads hw fun _ => hsvc.elaborate _ _
  | resume => exact program_leads hw fun _ => hsvc.resume _
  | done | dangling | halt => exact program_leads hw fun _ => trivial
  | read => exact program_leads hw fun hrole => hleads.program rfl hrole _ _
  | service | command => exact program_leads hw fun hrole => hleads.program rfl hrole _
  | unasked => exact hleads
  | @request role c q k =>
    have hw' : ∀ w ∈ (⟨role, k⟩ : Waiting σ α) :: ws,
        w.role.maker?.isSome → ∀ a, (w.next a).Hands w.role.chain := by
      intro w h hrole
      obtain rfl | h := List.mem_cons.mp h
      · exact (hleads.program rfl hrole).2
      · exact hw w h hrole
    rw [openCall_eq]
    refine ⟨fun hc _ hv => ?_, (nomatch ·), hw'⟩
    cases hc
    have hmakers : (⟨r, .program role (.request c q k), ws⟩ : Machine σ α).makers =
        role.maker?.toList ++ (ws.map (·.role)).filterMap Role.maker? := by
      cases role <;> rfl
    cases hrole : role.maker? with
    | some i =>
      have hc := (hleads.program rfl (by rw [hrole]; rfl)).1
      change ∀ o ∈ (⟨r, .program role (.request c q k), ws⟩ : Machine σ α).makers, _
      rw [hmakers]
      exact index_le_of_handed hc hv (hmakers ▸ H.sorted)
    | none =>
      -- At the top no call goes on.
      cases role with
      | client =>
        cases htop _ rfl
        exact nofun
      | elaborate | resume => cases hrole

end Service

end Templates
