import Templates.Proofs.Failing
import Templates.Proofs.Repeating.AtRest

/-!
# What a request at the top leaves

An instance that a call is answered with has not failed: it is complete and out of hand while those that
waited for it are released, or it waits itself and nothing is released (`Machine.Delivers`). So a
request at the top that is answered with an instance leaves it in its cache, with the key of the plan
(`Service.leaves_of_answered`).
-/

namespace Templates

variable {σ α : Type}

namespace Machine

/-- The instance is complete, cached and out of hand. -/
structure Done (m : Machine σ α) (i : InstanceId) : Prop where
  complete : ∃ t, m.engine.progress? i = some (.complete, t)
  cached : m.engine.Caches i
  idle : i ∉ m.work.resuming

/-- An instance that a call is to be answered with is done, or it is suspended and there is nothing to
release for it. -/
def Delivers (m : Machine σ α) : Prop :=
  ∀ x ∈ m.releases, ∀ i, x.outcome.answer = .ok i →
    m.Done i ∨ x.hand = [] ∧ ∃ t, m.engine.progress? i = some (.suspended, t)

variable {m m' : Machine σ α} {i : InstanceId}

/-- Only what is suspended is taken in hand again. -/
theorem Evolves.not_resuming (h : m.Evolves m') (hi : i ∉ m.work.resuming)
    (hs : ∀ t, m.engine.progress? i ≠ some (.suspended, t)) : i ∉ m'.work.resuming := by
  cases h with
  | same _ _ hr | make _ _ _ hr | succeed _ _ _ _ hr | fail _ _ hr => exact hr ▸ hi
  | wake hsus _ _ _ _ hr =>
    rw [hr, List.mem_cons]
    rintro (rfl | h)
    · exact hs _ hsus
    · exact hi h
  | settle _ _ _ _ _ hr => exact fun h => hi (hr ▸ List.mem_cons_of_mem _ h)

end Machine

/-- Nothing but the client goes on, and it makes the request with the empty chain. -/
def Machine.AsksAtTop (m : Machine σ α) (q : Request) : Prop :=
  m.waiting = [] ∧ ∃ next, m.control = .program .client (.request [] q next)

namespace Engine

variable {e e' : Engine} {i : InstanceId} {x : Instance} {p : Plan} {q : Request} {c : Chain}
  {names : SymbolId → String}

/-- A request whose key is not on the chain is answered with what is stored with the key. -/
theorem CachesOnce.stores_of_answer? (H : e.CachesOnce)
    (hc : c.findAttempt? p.decl p.deduction.args p.enclosing = none)
    (h : e.answer? names q c p = some (.ok i, e')) : e.Stores p.key i := by
  cases finds_of_answer? h with
  | reference hf | defer hf => cases hc.symm.trans hf
  | cached _ hl hfailed =>
    obtain ⟨hcached, x, hx, hkey⟩ := H.key_of_lookup hl
    refine ⟨hcached, ?_, fun hs => hfailed ?_⟩
    · rw [origins_eq_some hx]
      exact congrArg some hkey
    · rwa [state?_arena] at hs

/-- A request at the top for a key is answered with what is stored with it, unless that is being
elaborated. -/
theorem CachesOnce.answer?_of_stores (H : e.CachesOnce) (hi : e.Stores p.key i)
    (hs : e.arena.state? i ≠ some .elaborating) : ∃ a e',
      e.answer? names q [] p = some (a, e') ∧ a = .ok i ∧ e'.insts.size = e.insts.size := by
  obtain ⟨x, hx, -⟩ := hi.cached
  have hkey : x.key = p.key := by
    have h := hi.keyed
    rw [origins_eq_some hx] at h
    exact Option.some.inj h
  have hfailed := hi.unfailed
  rw [state?_arena] at hs hfailed
  have hl := H.lookup_eq_some_of_key hx hkey hi.cached
  exact ⟨_, _, (Finds.cached rfl hl hfailed fun _ => hs).answer?_eq, rfl, (touch_quiet ..).insts⟩

end Engine

namespace Service

variable {svc : Service σ} {r : Run σ} {ws : List (Waiting σ α)} {c : Control σ α}
  {m m₀ : Machine σ α} {i : InstanceId}

/-- What goes on has something in hand. -/
theorem hand_ne_nil {roles : List Role} {x : Release} (hx : x ∈ roles.filterMap Role.release?) :
    x.hand ≠ [] := by
  obtain ⟨role, -, h⟩ := List.mem_filterMap.mp hx
  cases role <;> cases h
  exact List.cons_ne_nil _ _

theorem Steps.delivers (hheld : (⟨r, c, ws⟩ : Machine σ α).Held)
    (H : (⟨r, c, ws⟩ : Machine σ α).Delivers)
    (hdone : ∀ i, (⟨r, c, ws⟩ : Machine σ α).Done i → m.Done i)
    (hnew : ∀ i t, i ∈ (⟨r, c, ws⟩ : Machine σ α).work.elaborating →
      m.engine.progress? i = some (.complete, t) → m.Done i) (h : svc.Steps r ws c m) :
    m.Delivers := by
  intro x hx i hi
  have hold {y : Release} (hy : y ∈ (⟨r, c, ws⟩ : Machine σ α).releases) (hne : y.hand ≠ [])
      (ho : y.outcome = x.outcome) : m.Done i ∨
        x.hand = [] ∧ ∃ t, m.engine.progress? i = some (.suspended, t) :=
    .inl (hdone i ((H y hy i (ho ▸ hi)).resolve_right fun h => hne h.1))
  have hsame (hx : x ∈ (⟨r, c, ws⟩ : Machine σ α).releases) (hne : x.hand ≠ []) :
      m.Done i ∨ x.hand = [] ∧ ∃ t, m.engine.progress? i = some (.suspended, t) :=
    hold hx hne rfl
  have houter (hx : x ∈ (ws.map (·.role)).filterMap Role.release?) :
      m.Done i ∨ x.hand = [] ∧ ∃ t, m.engine.progress? i = some (.suspended, t) := by
    refine hsame ?_ (hand_ne_nil hx)
    cases c with
    | stage => exact mem_releases_stage.mpr (.inr hx)
    | program => exact mem_releases_program.mpr (.inr hx)
    | unasked => exact hx
  cases h with
  | unresolved | refuse | answer | finish => exact houter (releases_giveAnswer ▸ hx)
  | undeclared =>
    refine houter ?_
    cases ws <;> exact hx
  | resolve | create | openScope => exact houter ((mem_releases_stage.mp hx).resolve_left nofun)
  | elaborate => exact houter hx
  | release | wake =>
    obtain h | hx := mem_releases_stage.mp hx
    · cases h
      exact hold (mem_releases_stage.mpr (.inl rfl)) (List.cons_ne_nil _ _) rfl
    · exact houter hx
  | @suspend _ _ j members _ hno =>
    obtain h | hx := mem_releases_stage.mp hx
    · cases h
      cases hi
      obtain ⟨st, hst, he⟩ := Engine.progress?_complete members
        (hheld.elaborating List.mem_cons_self)
      have hj := congrFun he i
      rw [Function.update_self] at hj
      refine .inr ⟨rfl, some members, ?_⟩
      obtain rfl | rfl := hst
      · exact hj
      · rw [← Bool.not_eq_true, Engine.isComplete_iff, Engine.state?_eq_progress?, hj] at hno
        exact absurd rfl hno
    · exact houter hx
  | @complete _ _ j members _ hyes =>
    obtain h | hx := mem_releases_stage.mp hx
    · cases h
      cases hi
      left
      rw [Engine.isComplete_iff, Engine.state?_eq_progress?] at hyes
      obtain ⟨⟨_, t⟩, ht, rfl⟩ := Option.map_eq_some_iff.mp hyes
      exact hnew i t List.mem_cons_self ((congrFun Engine.progress?_takeDeferred i).trans ht)
    · exact houter hx
  | fail =>
    obtain h | hx := mem_releases_stage.mp hx
    · cases h
      cases hi
    · exact houter hx
  | settle =>
    obtain h | hx := mem_releases_stage.mp hx
    · cases h
      exact hold List.mem_cons_self (List.cons_ne_nil _ _) rfl
    · exact houter hx
  | @request role chain q k =>
    rw [openCall_eq] at hx
    exact hsame hx (hand_ne_nil hx)
  | resume | done | halt | read | service | dangling | command | unasked =>
    exact hsame hx (hand_ne_nil hx)

/-! ## Requests at the top -/

section

variable {q : Request} {resolved : List Arg} {s : σ} {k n : Nat}

section

variable {role : Role} {next : Except TemplateError InstanceId → Program σ (role.Result α)}

/-- A call begins. -/
theorem opened_of_request (hc : m.control = .program role (.request [] q next)) :
    svc.after 1 m = ⟨⟨m.engine.opened q, m.run.service⟩,
      .stage (.resolve (.opened m.engine [] q)), ⟨role, next⟩ :: m.waiting⟩ := by
  obtain ⟨r, _, ws⟩ := m
  cases hc
  exact openCall_eq ..

/-- Once its arguments are resolved the request is planned. -/
theorem planned_of_resolves (hc : m.control = .program role (.request [] q next))
    (hres : svc.resolveRequest q m.run.service = (.ok resolved, s))
    (hd : q.decl.index < m.engine.decls.size) :
    svc.after 2 m = ⟨⟨m.engine.opened q, s⟩, .stage (.plan (.opened m.engine [] q) resolved),
      ⟨role, next⟩ :: m.waiting⟩ := by
  rw [← Engine.decls_opened _ q] at hd
  rw [after_succ, opened_of_request hc, step_resolve]
  dsimp only [Call.opened]
  rw [hres]
  exact if_neg (Nat.not_le.mpr hd)

end

/-- The arguments of a request that is answered with an instance resolve. -/
theorem resolves_of_answered (hk : (svc.after k m₀).AsksAtTop q)
    (ha : svc.Answered m₀ k n q (.ok i)) : k + 2 ≤ n ∧ ∃ resolved s,
      svc.resolveRequest q (svc.after k m₀).run.service = (.ok resolved, s) ∧
        q.decl.index < (svc.after k m₀).engine.decls.size := by
  obtain ⟨hempty, next, hcontrol⟩ := hk
  obtain ⟨role, c, next', hc, hkn, hin, -, hans⟩ := ha
  cases hcontrol.symm.trans hc
  have hm : svc.after k m₀ = ⟨(svc.after k m₀).run, .program .client (.request [] q next), []⟩ := by
    rw [← hcontrol, ← hempty]
  rw [hempty] at hin
  obtain ⟨hle, e, s, resolved, hplan, -⟩ := planned_of_request hm hkn hin hans
  have hfirst : svc.after 1 (svc.after k m₀) = _ := opened_of_request hcontrol
  rw [after_after, Nat.add_comm] at hfirst
  rw [after_succ, hfirst, step_resolve] at hplan
  refine ⟨hle, ?_⟩
  dsimp only [Call.opened] at hplan
  rcases hres : svc.resolveRequest q (svc.after k m₀).run.service with ⟨err | resolved', s'⟩
  · rw [hres] at hplan
    cases congrArg Machine.control hplan
  · rw [hres] at hplan
    refine ⟨resolved', s', rfl, Nat.lt_of_not_le fun hd => ?_⟩
    rw [← Engine.decls_opened _ q] at hd
    cases congrArg Machine.control ((if_pos hd).symm.trans hplan)

end

/-! ## Runs -/

section

variable {config : EngineConfig} {s : σ} {prog : Program σ α} {k n : Nat}

/-- What is being elaborated or waits has never failed, so it is cached. -/
theorem caches_of_progress {st : InstanceState} {t : Option MemberTable}
    (hi : (svc.after n (.boot config s prog)).engine.progress? i = some (st, t))
    (hst : st = .elaborating ∨ st = .suspended) :
    (svc.after n (.boot config s prog)).engine.Caches i := by
  obtain ⟨x, hx, -⟩ := Engine.progress?_eq_some_iff.mp hi
  obtain hb | ⟨k, hk, herr⟩ := filed_or_errored svc (Engine.origins_eq_some hx)
  · exact (Engine.caches_iff (cachesOnce_after svc n)).mpr ⟨_, _, hb⟩
  · rw [Engine.state?_eq_progress?] at herr
    obtain ⟨⟨_, u⟩, hu, rfl⟩ := Option.map_eq_some_iff.mp herr
    obtain ⟨st', _, hi', hprec, -⟩ := progress_after svc hk hu
    cases hi.symm.trans hi'
    obtain rfl | rfl := hst <;> obtain h | h := hprec <;> cases h

/-- What has just been completed is done. -/
theorem done_of_elaborating {t : Option MemberTable}
    (hi : i ∈ (svc.after n (.boot config s prog)).work.elaborating)
    (ht : (svc.after (n + 1) (.boot config s prog)).engine.progress? i = some (.complete, t)) :
    (svc.after (n + 1) (.boot config s prog)).Done i := by
  have H : (svc.after n (.boot config s prog)).Held := held_after svc n
  have hi := H.elaborating hi
  refine ⟨⟨t, ht⟩, caches_succ (caches_of_progress hi (.inl rfl)) ?_,
    (evolves_after svc n).not_resuming (fun hr => ?_) fun t hs => ?_⟩
  · rw [Engine.state?_eq_progress?, ht]
    nofun
  · obtain ⟨_, _, hs, hne⟩ := H.resuming hr
    cases hs.symm.trans hi
    exact hne rfl
  · cases hs.symm.trans hi

theorem done_succ (H : (svc.after n (.boot config s prog)).Done i) :
    (svc.after (n + 1) (.boot config s prog)).Done i := by
  obtain ⟨⟨t, ht⟩, hcached, hidle⟩ := H
  have hevolves : (svc.after n (.boot config s prog)).Evolves _ := evolves_after svc n
  have hne : InstanceState.complete ≠ .elaborating := nofun
  have ht' := hevolves.out_of_hand (held_after svc n) hne ht hidle
  refine ⟨⟨t, ht'⟩, caches_succ hcached ?_, hevolves.not_resuming hidle fun u hs => ?_⟩
  · rw [Engine.state?_eq_progress?, ht']
    nofun
  · cases hs.symm.trans ht

variable (svc) in
theorem delivers_after (n : Nat) : (svc.after n (.boot config s prog)).Delivers := by
  induction n with
  | zero => exact fun x hx => nomatch hx
  | succ n ih =>
    have hdone (i : InstanceId) (H : (svc.after n (.boot config s prog)).Done i) := done_succ H
    have hnew (i : InstanceId) (t : Option MemberTable)
        (hi : i ∈ (svc.after n (.boot config s prog)).work.elaborating) :=
      done_of_elaborating (t := t) hi
    rw [after_succ] at hdone hnew ⊢
    exact (step_steps _).delivers (held_after svc n) ih hdone hnew

/-- Nothing becomes of the instances in the step in which a call is answered. -/
theorem progress?_of_answers {a : Except TemplateError InstanceId} (ha : svc.answers m = some a) :
    (svc.step m).engine.progress? = m.engine.progress? := by
  obtain ⟨st, e, s, -, hstep, he⟩ := step_of_answers ha
  have hprogress : e.progress? = m.engine.progress? := by
    obtain ⟨_, _, _, -, rfl⟩ | ⟨_, _, _, _, he⟩ | ⟨_, -, -, rfl⟩ := he
    · exact (Engine.reject_quiet ..).progress?
    · exact Engine.progress?_answer? he
    · rfl
  rw [hstep]
  cases m.waiting with
  | nil => exact hprogress
  | cons w ws => exact (closeGag_quiet e st.call.mark).progress?.trans hprogress

/-- The client goes on with the answer, and nothing has become of the instances. -/
theorem atTop_of_answers {next : Except TemplateError InstanceId → Program σ α}
    {a : Except TemplateError InstanceId} (hw : m.waiting = [⟨.client, next⟩])
    (ha : svc.answers m = some a) :
    (svc.step m).AtTop ∧ (svc.step m).engine.progress? = m.engine.progress? := by
  refine ⟨?_, progress?_of_answers ha⟩
  obtain ⟨st, e, s, -, hstep, -⟩ := step_of_answers ha
  rw [hstep, hw]
  exact ⟨rfl, _, rfl⟩

/-- An instance that the answered call made is done, or it waits. -/
theorem delivered_of_within {w : Waiting σ α} {j : InstanceId}
    (H : (svc.after n (.boot config s prog)).Within j (w :: ws))
    (hw : (svc.after n (.boot config s prog)).waiting = w :: ws)
    (ha : svc.answers (svc.after n (.boot config s prog)) = some (.ok i)) : i = j ∧
      ((svc.after n (.boot config s prog)).Done i ∨
        ∃ t, (svc.after n (.boot config s prog)).engine.progress? i = some (.suspended, t)) := by
  obtain ⟨call, o, hc, ho, hj, ha⟩ := release_of_answers H hw ha
  have hmem : ⟨o, []⟩ ∈ (svc.after n (.boot config s prog)).releases := by
    unfold Machine.releases
    rw [hc]
    exact List.mem_cons_self
  exact ⟨(ho ha).trans hj, (delivers_after svc n _ hmem i ha).imp_right And.right⟩

/-- An instance that the answered call made has not failed. -/
theorem kept_of_within {w : Waiting σ α} {j : InstanceId}
    (H : (svc.after n (.boot config s prog)).Within j (w :: ws))
    (hw : (svc.after n (.boot config s prog)).waiting = w :: ws)
    (ha : svc.answers (svc.after n (.boot config s prog)) = some (.ok i)) : i = j ∧
      (svc.after n (.boot config s prog)).engine.Caches i ∧
        (svc.after n (.boot config s prog)).engine.arena.state? i ≠ some .errored := by
  obtain ⟨hij, hdelivered⟩ := delivered_of_within H hw ha
  refine ⟨hij, ?_⟩
  rw [Engine.state?_eq_progress?]
  obtain ⟨⟨t, ht⟩, hcached, -⟩ | ⟨t, ht⟩ := hdelivered
  · rw [ht]
    exact ⟨hcached, nofun⟩
  · rw [ht]
    exact ⟨caches_of_progress ht (.inr rfl), nofun⟩

/-- An instance that a request at the top is answered with is stored with the key of its plan. -/
theorem stores_of_answers {call : Call} {resolved : List Arg} {r : Run σ} {w : Waiting σ α}
    (hplan : svc.after k (.boot config s prog) = ⟨r, .stage (.plan call resolved), w :: ws⟩)
    (hchain : call.chain = []) (hkn : k ≤ n)
    (hin : ∀ j, k < j → j ≤ n →
      ∃ inner, (svc.after j (.boot config s prog)).waiting = inner ++ w :: ws)
    (hw : (svc.after n (.boot config s prog)).waiting = w :: ws)
    (ha : svc.answers (svc.after n (.boot config s prog)) = some (.ok i)) : ∃ p s',
      r.engine.plan svc.toSemantics call.request resolved r.service = (.ok p, s') ∧
        (svc.after n (.boot config s prog)).engine.Stores p.key i := by
  obtain ⟨p, s', hp, ⟨rfl, e, he⟩ | ⟨hlt, -, hi, hwithin, he⟩⟩ :=
    exists_plan_of_answers hplan hkn hin hw ha
  · have H : (svc.after n (.boot config s prog)).engine.CachesOnce := cachesOnce_after svc n
    rw [hplan] at H
    rw [hchain] at he
    refine ⟨p, s', hp, ?_⟩
    rw [hplan]
    exact H.stores_of_answer? rfl he
  · obtain ⟨-, hcached, hs⟩ := kept_of_within hwithin hw ha
    refine ⟨p, s', hp, hcached, ?_, hs⟩
    rw [origins_after svc hlt (x := r.engine.made call.request call.chain p)]
    · rfl
    · rw [Nat.succ_eq_add_one, he, Engine.origins_create, hi, Arena.put_self]

/-- **A request at the top that is answered with an instance leaves it in its cache**, with the key of
the plan. -/
theorem leaves_of_answered {q : Request} (hk : (svc.after k (.boot config s prog)).AsksAtTop q)
    (ha : svc.Answered (.boot config s prog) k n q (.ok i)) : ∃ resolved s₁ p s₂,
      svc.resolveRequest q (svc.after k (.boot config s prog)).run.service = (.ok resolved, s₁) ∧
      q.decl.index < (svc.after k (.boot config s prog)).engine.decls.size ∧
      ((svc.after k (.boot config s prog)).engine.opened q).plan svc.toSemantics q resolved s₁ =
        (.ok p, s₂) ∧
      (svc.after (n + 1) (.boot config s prog)).AtTop ∧
      (svc.after (n + 1) (.boot config s prog)).engine.Stores p.key i := by
  obtain ⟨hle, resolved, s₁, hres, hd⟩ := resolves_of_answered hk ha
  obtain ⟨hempty, next, hcontrol⟩ := hk
  have hplan := planned_of_resolves hcontrol hres hd
  rw [after_after, Nat.add_comm, hempty] at hplan
  obtain ⟨role, c, next', hc, hkn, hin, hw, hans⟩ := ha
  cases hcontrol.symm.trans hc
  rw [hempty] at hin hw
  obtain ⟨p, s₂, hp, hi⟩ :=
    stores_of_answers hplan rfl hle (fun j hj => hin j (by omega)) hw hans
  obtain ⟨htop, hprogress⟩ := atTop_of_answers hw hans
  rw [← after_succ] at htop hprogress
  refine ⟨resolved, s₁, p, s₂, hres, hd, hp, htop, stores_succ hi ?_⟩
  rw [Engine.state?_eq_progress?, hprogress, ← Engine.state?_eq_progress?]
  exact hi.unfailed

end

end Service

end Templates
