import Templates.Proofs.Enclosing
import Templates.Proofs.Failing.Discards

/-!
# What is remembered of failures

A failed instance is remembered in the cache of its declaration if a request outside every gag has
asked for it, and forgotten otherwise. `Service.memoizesFailures` says so for every run, with what a
later request for the same key gets: a new instance, or the failure without another elaboration. That
a forgotten instance stays failed needs chains that were handed on, and that a remembered one was
reported needs a front end that closes the gags it opens.
-/

namespace Templates

variable {σ α : Type}

/-- The declaration, the arguments and the scope of the instance that is asked for. -/
def Plan.key (p : Plan) : DeclId × List Arg × Option ScopeId := (p.decl, p.deduction.args, p.enclosing)

namespace Engine

variable {e : Engine} {i : InstanceId} {x : Instance} {p : Plan}

/-- The instance that the cache has for the key of a plan. -/
theorem CachesOnce.lookup_eq_some_of_key (H : e.CachesOnce) (hx : e.inst? i = some x)
    (hkey : x.key = p.key) (hi : e.Caches i) :
    e.lookup p.decl p.deduction.args p.enclosing = some i := by
  obtain ⟨y, hy, hmem⟩ := hi
  obtain rfl := Option.some.inj (hx.symm.trans hy)
  obtain ⟨hd, hargs, hen⟩ : x.decl = p.decl ∧ x.deduced = p.deduction.args ∧
      x.enclosing = p.enclosing := by simpa [Instance.key, Plan.key] using hkey
  rw [← hargs, ← hen]
  exact H.lookup_eq_some (hd ▸ hmem) hx

/-- What is looked up for a plan is cached and has its key. -/
theorem CachesOnce.key_of_lookup (H : e.CachesOnce)
    (hl : e.lookup p.decl p.deduction.args p.enclosing = some i) :
    e.Caches i ∧ ∃ x, e.inst? i = some x ∧ x.key = p.key := by
  rw [lookup_eq] at hl
  have hmem : i ∈ (e.cache p.decl).bucket _ := List.mem_of_find?_eq_some hl
  have hkey := List.find?_some hl
  obtain ⟨y, hy, hd, -⟩ := H.owned hmem
  obtain ⟨x, hx, rfl⟩ := Option.map_eq_some_iff.mp hy
  rw [hy] at hkey
  simp only [Instance.hasKey, Option.map_some, Option.getD_some, Bool.and_eq_true,
    decide_eq_true_eq] at hkey
  exact ⟨(caches_iff H).mpr ⟨_, _, hmem⟩, x, hx, Prod.ext hd (Prod.ext hkey.2 hkey.1)⟩

/-- No instance with the key of a plan is cached. -/
theorem CachesOnce.lookup_eq_none_of_key (H : e.CachesOnce)
    (h : ∀ i x, e.inst? i = some x → x.key = p.key → ¬e.Caches i) :
    e.lookup p.decl p.deduction.args p.enclosing = none := by
  refine Option.eq_none_iff_forall_ne_some.mpr fun i hl => ?_
  obtain ⟨hi, x, hx, hkey⟩ := H.key_of_lookup hl
  exact h i x hx hkey hi

/-- A request for the key of a cached instance that has failed is answered with the failure. -/
theorem CachesOnce.answer?_of_errored {q : Request} {c : Chain} {names : SymbolId → String}
    (H : e.CachesOnce) (hc : c.findAttempt? p.decl p.deduction.args p.enclosing = none)
    (hx : e.inst? i = some x) (hkey : x.key = p.key) (hi : e.Caches i) (hs : x.state = .errored) :
    ∃ a e', e.answer? names q c p = some (a, e') ∧ e'.insts = e.insts ∧
      ∃ name, a = .error (.memberElaborationFailed i name none q.span) := by
  have hstate : (e.inst? i).map Instance.state = some .errored := by rw [hx, Option.map_some, hs]
  have hl := H.lookup_eq_some_of_key hx hkey hi
  exact ⟨_, _, (Finds.failed hc hl hstate).answer?_eq, rfl, _, rfl⟩

end Engine

namespace Service

/-- In the step the failure of the instance is sent to the queue, outside every gag. -/
def Announces (svc : Service σ) (m : Machine σ α) (i : InstanceId) : Prop :=
  ∃ o d, svc.Fails m i o d ∧ m.engine.isGagged = false ∧
    (svc.step m).engine.queue = (m.engine.queue.add d).2

variable {svc : Service σ} {m : Machine σ α} {call : Call} {p : Plan} {i : InstanceId}
  {x : Instance}

/-! ## Requests for a key -/

/-- A request for a key that no cached instance has needs a new instance. -/
theorem Planning.again (h : svc.Planning m call p) (H : m.engine.CachesOnce)
    (hchain : call.chain.findAttempt? p.decl p.deduction.args p.enclosing = none)
    (hkey : ∀ i x, m.engine.inst? i = some x → x.key = p.key → ¬m.engine.Caches i)
    (hdepth : call.chain.depth < m.engine.config.recursionLimit) :
    (svc.after 3 m).control = .program (.elaborate call p ⟨m.engine.insts.size⟩)
      (svc.elaborate (Engine.frameOf call.request p ⟨m.engine.insts.size⟩ :: call.chain)
        ⟨m.engine.insts.size⟩) := by
  have hl := H.lookup_eq_none_of_key hkey
  exact h.elaborates fun names => Engine.answer?_eq_none_iff.mpr ⟨hchain, hl, hdepth⟩

/-- A request for the key of a cached instance that has failed is answered with the failure. -/
theorem Planning.remembered (h : svc.Planning m call p) (H : m.engine.CachesOnce)
    (hchain : call.chain.findAttempt? p.decl p.deduction.args p.enclosing = none)
    (hx : m.engine.inst? i = some x) (hkey : x.key = p.key) (hi : m.engine.Caches i)
    (hs : x.state = .errored) : (svc.step m).engine.insts = m.engine.insts ∧ ∃ name,
      svc.answers m = some (.error (.memberElaborationFailed i name none call.request.span)) := by
  obtain ⟨a, e, s, ⟨he, name, rfl⟩, hans, hstep⟩ :=
    h.answered fun names => H.answer?_of_errored hchain hx hkey hi hs
  refine ⟨?_, name, hans⟩
  rw [hstep]
  exact giveAnswer_insts.1.trans he

/-! ## Runs -/

section

variable {config : EngineConfig} {s : σ} {prog : Program σ α} {n : Nat}

/-- On a chain that was handed on every frame has the key of a cached instance that is being
elaborated. -/
theorem findAttempt?_eq_none (hsvc : svc.HandsOn) (hp : prog.Hands [])
    (h : svc.Planning (svc.after n (.boot config s prog)) call p)
    (hkey : ∀ i x, (svc.after n (.boot config s prog)).engine.inst? i = some x → x.key = p.key →
      (svc.after n (.boot config s prog)).engine.Caches i → x.state = .errored) :
    call.chain.findAttempt? p.decl p.deduction.args p.enclosing = none := by
  obtain ⟨resolved, _, hc, -⟩ := h
  have H : (svc.after n (.boot config s prog)).Handed := handed_after hsvc hp n
  have Hcaches : (svc.after n (.boot config s prog)).engine.CachesOnce := cachesOnce_after svc n
  have hchain := H.call hc
  by_contra hn
  obtain ⟨⟨f, c⟩, hf⟩ := Option.ne_none_iff_exists'.mp hn
  have hmem := Chain.mem_of_findAttempt? hf
  obtain ⟨hd, hen, hargs⟩ := Chain.key_of_findAttempt? hf
  obtain ⟨outer, y, hy, hyd, hyargs, hyen, -⟩ :=
    ((mirrored_after hsvc hp n).handed hchain).describes hmem
  obtain ⟨x, hx, rfl⟩ := Option.map_eq_some_iff.mp hy
  have hworks : f.inst ∈ (svc.after n (.boot config s prog)).work.elaborating := by
    have hwork : (svc.after n (.boot config s prog)).work.elaborating =
        (Role.workOf (svc.after n (.boot config s prog)).roles).elaborating := by
      rw [Machine.work, hc]
      rfl
    rw [hwork]
    exact (H.nested.chain_prefix hchain).subset (List.mem_map_of_mem hmem)
  obtain ⟨z, hz, hzs, -⟩ :=
    Engine.progress?_eq_some_iff.mp ((held_after svc n).elaborating hworks)
  obtain rfl := Option.some.inj (hx.symm.trans hz)
  have hcached : f.inst ∈ ((svc.after n (.boot config s prog)).engine.cache x.decl).ids := by
    by_contra hn
    rw [Hcaches.errored_of_notMem_ids (retains_after hsvc hp n) hx hn] at hzs
    cases hzs
  have hxkey : x.key = p.key :=
    Prod.ext (hyd.trans hd) (Prod.ext (hyargs.trans hargs) (hyen.trans hen))
  rw [hkey _ x hx hxkey ⟨x, hx, hcached⟩] at hzs
  cases hzs

/-- An instance is errored when it leaves its cache. -/
theorem errored_of_discards (h : svc.Discards (svc.after n (.boot config s prog)) i) :
    (svc.after (n + 1) (.boot config s prog)).engine.arena.state? i = some .errored := by
  have H : (svc.after n (.boot config s prog)).engine.CachesOnce := cachesOnce_after svc n
  have hcached := h.2.2
  obtain ⟨d, k, hb⟩ := (Engine.caches_iff H).mp hcached
  obtain ⟨x, hx, -⟩ := hcached
  obtain hb | hs := evicts_after svc n hb
  · have hi := (Engine.caches_iff (cachesOnce_after svc (n + 1))).mpr ⟨d, k, hb⟩
    exact absurd h ((caches_succ_iff svc (Engine.inst?_eq_some_iff.mp ⟨x, hx⟩)).mp hi).2
  · exact hs

/-- An instance that left its cache has failed, and settled if no request makes it wait again. -/
theorem errored_of_not_caches
    (hx : (svc.after n (.boot config s prog)).engine.inst? i = some x)
    (hi : ¬(svc.after n (.boot config s prog)).engine.Caches i)
    (hn : ∀ l < n, ¬(svc.after l (.boot config s prog)).Intrudes i) : x.state = .errored := by
  have H : (svc.after n (.boot config s prog)).engine.CachesOnce := cachesOnce_after svc n
  obtain h | ⟨k, hk, hs⟩ := filed_or_errored svc (Engine.origins_eq_some hx)
  · exact absurd ((Engine.caches_iff H).mpr ⟨_, _, h⟩) hi
  · rw [Engine.state?_arena] at hs
    obtain ⟨y, hy, hys⟩ := Option.map_eq_some_iff.mp hs
    obtain ⟨z, hz, hzs⟩ := settled_of_not_intrudes hn hk hy (.inr hys)
    obtain rfl := Option.some.inj (hx.symm.trans hz)
    exact hzs.trans hys

/-- A failed instance that is cached was not speculative when it failed. -/
theorem fails_of_caches (hx : (svc.after n (.boot config s prog)).engine.inst? i = some x)
    (hi : (svc.after n (.boot config s prog)).engine.Caches i) (hs : x.state = .errored) :
    ∃ k < n, (∃ o d, svc.Fails (svc.after k (.boot config s prog)) i o d) ∧
      (svc.after k (.boot config s prog)).engine.gagged? i = some false :=
  memoized_after svc hi ((Engine.state?_arena ..).trans (by rw [hx, Option.map_some, hs]))

/-- No mark comes back. -/
theorem gagged_eq_false_of_gagged? {k : Nat} (hk : k ≤ n)
    (hg : (svc.after k (.boot config s prog)).engine.gagged? i = some false)
    (hx : (svc.after n (.boot config s prog)).engine.inst? i = some x) : x.gagged = false := by
  obtain ⟨y, hy, hyg⟩ := Option.map_eq_some_iff.mp hg
  obtain ⟨z, hz, hlater⟩ := later_of_inst? hk hy
  obtain rfl := Option.some.inj (hx.symm.trans hz)
  rw [← Bool.not_eq_true]
  intro hgx
  rw [hlater.gagged hgx] at hyg
  cases hyg

end

open Classical in
/-- What is remembered of failures when the run from `m₀` has made `n` steps. -/
structure MemoizesFailures (svc : Service σ) (m₀ : Machine σ α) (n : Nat) : Prop where
  /-- An instance is missing from the cache of its declaration exactly if it failed, cached, when only
  speculative requests had asked for it. -/
  missing_iff {i : InstanceId} : i.index < (svc.after n m₀).engine.insts.size →
    (¬(svc.after n m₀).engine.Caches i ↔ ∃ k < n, svc.Discards (svc.after k m₀) i)
  /-- It is errored when it leaves. -/
  failed {i : InstanceId} : svc.Discards (svc.after n m₀) i →
    (svc.after (n + 1) m₀).engine.arena.state? i = some .errored
  /-- It keeps the mark of speculation. -/
  gagged {i : InstanceId} {x : Instance} : (svc.after n m₀).engine.inst? i = some x →
    ¬(svc.after n m₀).engine.Caches i → x.gagged = true
  /-- It stays failed, if no request is made with a chain that begins with it before it is there or
  while the front end goes on with it. -/
  errored {i : InstanceId} {x : Instance} : (svc.after n m₀).engine.inst? i = some x →
    ¬(svc.after n m₀).engine.Caches i → (∀ l < n, ¬(svc.after l m₀).Intrudes i) →
    x.state = .errored
  /-- There is no such request if only chains that were handed on are in use. -/
  handedOn {i : InstanceId} : svc.HandsOn → m₀.Handed → ∀ l, ¬(svc.after l m₀).Intrudes i
  /-- A failed instance that is cached is not marked, and was not when it failed. -/
  memoized {i : InstanceId} {x : Instance} : (svc.after n m₀).engine.inst? i = some x →
    (svc.after n m₀).engine.Caches i → x.state = .errored → x.gagged = false ∧
      ∃ k < n, (∃ o d, svc.Fails (svc.after k m₀) i o d) ∧
        (svc.after k m₀).engine.gagged? i = some false
  /-- Its failure was reported outside every gag, if the front end closes the gags that it opens and
  makes up no chains. -/
  reported {i : InstanceId} {x : Instance} : svc.HandsOn → svc.Brackets →
    (svc.after n m₀).engine.inst? i = some x → (svc.after n m₀).engine.Caches i →
    x.state = .errored → ∃ k < n, svc.Announces (svc.after k m₀) i
  /-- Every instance was counted when it was made, and again if it was discarded. -/
  created : (svc.after n m₀).engine.stats.created = (svc.after n m₀).engine.insts.size
  evicted : (svc.after n m₀).engine.stats.evicted =
    Nat.count (fun k => ∃ i, svc.Discards (svc.after k m₀) i) n
  /-- The cached instances of all declarations are those that were made and not discarded. -/
  filed : (svc.after n m₀).engine.filed + (svc.after n m₀).engine.stats.evicted =
    (svc.after n m₀).engine.stats.created
  sized (d : DeclId) : ((svc.after n m₀).engine.cache d).size =
    ((svc.after n m₀).engine.cache d).ids.length
  /-- A request whose key no cached instance has, as when the one that had it was discarded, has a new
  instance elaborated, unless its chain has the key or is too long. -/
  again {call : Call} {p : Plan} : svc.Planning (svc.after n m₀) call p →
    call.chain.findAttempt? p.decl p.deduction.args p.enclosing = none →
    (∀ i x, (svc.after n m₀).engine.inst? i = some x → x.key = p.key →
      ¬(svc.after n m₀).engine.Caches i) →
    call.chain.depth < (svc.after n m₀).engine.config.recursionLimit →
    (svc.after (n + 3) m₀).control =
      .program (.elaborate call p ⟨(svc.after n m₀).engine.insts.size⟩)
        (svc.elaborate (Engine.frameOf call.request p ⟨(svc.after n m₀).engine.insts.size⟩ ::
          call.chain) ⟨(svc.after n m₀).engine.insts.size⟩)
  /-- A request for the key of a cached instance that has failed is answered with the failure in the
  next step, unless its chain has the key. -/
  remembered {call : Call} {p : Plan} {i : InstanceId} {x : Instance} :
    svc.Planning (svc.after n m₀) call p →
    call.chain.findAttempt? p.decl p.deduction.args p.enclosing = none →
    (svc.after n m₀).engine.inst? i = some x → x.key = p.key →
    (svc.after n m₀).engine.Caches i → x.state = .errored →
    (svc.after (n + 1) m₀).engine.insts = (svc.after n m₀).engine.insts ∧ ∃ name,
      svc.answers (svc.after n m₀) =
        some (.error (.memberElaborationFailed i name none call.request.span))
  /-- No chain that was handed on has a key that only failed instances have. -/
  unframed {call : Call} {p : Plan} : svc.HandsOn → m₀.Handed →
    svc.Planning (svc.after n m₀) call p →
    (∀ i x, (svc.after n m₀).engine.inst? i = some x → x.key = p.key →
      (svc.after n m₀).engine.Caches i → x.state = .errored) →
    call.chain.findAttempt? p.decl p.deduction.args p.enclosing = none

/-- **Which failures are remembered.** -/
theorem memoizesFailures {config : EngineConfig} {s : σ} {prog : Program σ α} (n : Nat) :
    svc.MemoizesFailures (.boot config s prog) n := by
  have H : (svc.after n (.boot config s prog)).engine.CachesOnce := cachesOnce_after svc n
  have Ht : (svc.after n (.boot config s prog)).engine.Tallied := tallied_after svc n
  constructor
  case missing_iff =>
    intro i hi
    exact not_caches_after_iff svc hi
  case failed => exact errored_of_discards
  case gagged =>
    intro i x hx hi
    have hg := gagged?_of_not_caches svc (Engine.inst?_eq_some_iff.mp ⟨x, hx⟩) hi
    rw [Engine.gagged?, hx, Option.map_some] at hg
    exact Option.some.inj hg
  case errored => exact errored_of_not_caches
  case handedOn =>
    intro i hsvc hm l
    exact not_intrudes hsvc (hm.program rfl) l i
  case memoized =>
    intro i x hx hi hs
    obtain ⟨k, hk, hfails, hg⟩ := fails_of_caches hx hi hs
    exact ⟨gagged_eq_false_of_gagged? (Nat.le_of_lt hk) hg hx, k, hk, hfails, hg⟩
  case reported =>
    intro i x hsvc hb hx hi hs
    obtain ⟨k, hk, ⟨o, d, hfails⟩, hg⟩ := fails_of_caches hx hi hs
    have hgag := hfails.isGagged (marked_after hb k) (inward_after hsvc hb k).1 hg
    exact ⟨k, hk, o, d, hfails, hgag, hfails.queue⟩
  case created => exact Ht.created
  case evicted => exact evicted_after svc
  case filed => exact Ht.filed
  case sized => exact Ht.sized
  case again =>
    intro call p h hchain hkey hdepth
    rw [Nat.add_comm, ← after_after]
    exact h.again H hchain hkey hdepth
  case remembered =>
    intro call p i x h hchain hx hkey hi hs
    rw [after_succ]
    exact h.remembered H hchain hx hkey hi hs
  case unframed =>
    intro call p hsvc hm h hkey
    exact findAttempt?_eq_none hsvc (hm.program rfl) h hkey

end Service

/-- A front end whose elaborations fail. -/
def sulking : Service Unit where
  evaluate _ _ := pure (.error ⟨"", {}⟩)
  openScope s := pure s
  declareSymbol _ _ _ := pure ()
  symbolName _ _ := ""
  elaborate _ _ := .done (.error ⟨"", {}⟩)

theorem sulking_handsOn : sulking.HandsOn := ⟨fun _ _ => trivial, fun _ => trivial⟩

theorem sulking_brackets : sulking.Brackets := ⟨fun _ _ => rfl, fun _ => rfl⟩

/-- Asks for an instance speculatively, and then twice outside every gag. -/
def askThrice : Program Unit (Except TemplateError InstanceId) :=
  .command (.declare { name := "A" }) fun _ => .request [] { decl := ⟨0⟩, gagged := true } fun _ =>
    .request [] { decl := ⟨0⟩ } fun _ => .request [] { decl := ⟨0⟩ } .done

theorem askThrice_hands : askThrice.Hands [] :=
  fun _ => ⟨.inl rfl, fun _ => ⟨.inl rfl, fun _ => ⟨.inl rfl, fun _ => trivial⟩⟩⟩

/-- The machine of the three requests at its beginning. -/
def askThriceBoot : Machine Unit (Except TemplateError InstanceId) :=
  .boot { digest := fun _ _ => default } () askThrice

theorem sulking_discards : sulking.Discards (sulking.after 6 askThriceBoot) ⟨0⟩ :=
  ⟨⟨_, _, .elaborate rfl⟩, rfl, _, rfl, List.mem_singleton.mpr rfl⟩

/-- The first instance is discarded, so that the second request has another one elaborated. That one
is cached, and the third request is answered with its failure, which was reported. -/
theorem memoizesFailures_sulking : sulking.HandsOn ∧ sulking.Brackets ∧ askThriceBoot.Handed ∧
    sulking.Discards (sulking.after 6 askThriceBoot) ⟨0⟩ ∧
    ¬(sulking.after 10 askThriceBoot).engine.Caches ⟨0⟩ ∧
    (sulking.after 13 askThriceBoot).control =
      .program (.elaborate ⟨[], { decl := ⟨0⟩ }, none⟩ ⟨[], ⟨0⟩, ⟨.exact, []⟩, none⟩ ⟨1⟩)
        (.done (.error ⟨"", {}⟩)) ∧
    (∃ k < 17, sulking.Announces (sulking.after k askThriceBoot) ⟨1⟩) ∧
    (∃ name, sulking.answers (sulking.after 17 askThriceBoot) =
      some (.error (.memberElaborationFailed ⟨1⟩ name none {}))) ∧
    sulking.MemoizesFailures askThriceBoot 10 ∧ sulking.MemoizesFailures askThriceBoot 17 := by
  have H : sulking.MemoizesFailures askThriceBoot 10 := Service.memoizesFailures 10
  have H' : sulking.MemoizesFailures askThriceBoot 17 := Service.memoizesFailures 17
  have hm : askThriceBoot.Handed := Service.boot_handed askThrice_hands
  have hgone : ¬(sulking.after 10 askThriceBoot).engine.Caches ⟨0⟩ :=
    (H.missing_iff (by decide)).mpr ⟨6, by decide, sulking_discards⟩
  have hcached : (sulking.after 17 askThriceBoot).engine.Caches ⟨1⟩ :=
    ⟨_, rfl, List.mem_singleton.mpr rfl⟩
  have hagain := H.again (p := ⟨[], ⟨0⟩, ⟨.exact, []⟩, none⟩) ⟨_, _, rfl, rfl⟩ rfl
    (fun i x hx _ => by
      obtain ⟨_ | i⟩ := i
      · exact hgone
      · cases hx) (by decide)
  have hremembered := H'.remembered (p := ⟨[], ⟨0⟩, ⟨.exact, []⟩, none⟩) ⟨_, _, rfl, rfl⟩ rfl
    rfl rfl hcached rfl
  exact ⟨sulking_handsOn, sulking_brackets, hm, sulking_discards, hgone, hagain,
    H'.reported sulking_handsOn sulking_brackets rfl hcached rfl, hremembered.2, H, H'⟩

/-- Asks for an instance, and then once more with a chain that has a made-up frame for it. -/
def askFramed : Program Unit (Except TemplateError InstanceId) :=
  .command (.declare { name := "A" }) fun _ => .request [] { decl := ⟨0⟩ } fun _ =>
    .request [⟨⟨0⟩, ⟨0⟩, [], none, {}⟩] { decl := ⟨0⟩ } .done

/-- The machine of the two requests at its beginning. -/
def askFramedBoot : Machine Unit (Except TemplateError InstanceId) :=
  .boot { digest := fun _ _ => default } () askFramed

/-- A front end that makes up a frame for the second instance when the third refers to itself, as the
front end goes on with the second. It goes on with the second once more then and fails, and after that
completes it. -/
def reviving : Service Bool where
  evaluate _ _ := pure (.error ⟨"", {}⟩)
  openScope s := pure s
  declareSymbol _ _ _ := pure ()
  symbolName _ _ := ""
  elaborate c i :=
    .request (if i.index = 2 then ⟨⟨1⟩, ⟨1⟩, [], none, {}⟩ :: c else c)
      (if i.index = 0 then { decl := ⟨1⟩, gagged := true }
      else { decl := if i.index = 2 then ⟨2⟩ else ⟨0⟩, need := .reference })
      fun _ => .done (.ok [])
  resume _ := .service (fun b => (b, true)) fun
    | true => .done (.error ⟨"", {}⟩)
    | false => .request [] { decl := ⟨2⟩ } fun _ => .done (.ok ())

/-- With a gag that was left open the failure of a cached instance is never reported outside every gag,
with made-up frames a discarded instance can be complete in the end, and a request with a made-up
frame for a failed instance is turned down for another reason. -/
theorem not_memoizesFailures :
    ((muffling.after 8 askFramedBoot).engine.Caches ⟨0⟩ ∧
      (muffling.after 8 askFramedBoot).engine.arena.state? ⟨0⟩ = some .errored ∧
      ∀ k < 8, ¬muffling.Announces (muffling.after k askFramedBoot) ⟨0⟩) ∧
    (reviving.Discards (reviving.after 34 (askBothBoot false)) ⟨1⟩ ∧
      ¬(reviving.after 38 (askBothBoot false)).engine.Caches ⟨1⟩ ∧
      (reviving.after 38 (askBothBoot false)).engine.arena.state? ⟨1⟩ = some .complete) ∧
    ((muffling.after 11 askFramedBoot).engine.Caches ⟨0⟩ ∧
      (muffling.after 11 askFramedBoot).engine.arena.state? ⟨0⟩ = some .errored ∧
      (∃ call p, muffling.Planning (muffling.after 11 askFramedBoot) call p ∧
        p.key = (⟨0⟩, [], none)) ∧
      muffling.answers (muffling.after 11 askFramedBoot) =
        some (.error (.recursiveExpansion "A!()" {}))) := by
  refine ⟨⟨⟨_, rfl, ?_⟩, rfl, ?_⟩, ⟨⟨⟨_, _, .resume rfl⟩, rfl, ⟨_, rfl, ?_⟩⟩, ?_, rfl⟩,
    ⟨_, rfl, ?_⟩, rfl, ⟨_, _, ⟨_, _, rfl, rfl⟩, rfl⟩, rfl⟩
  · exact List.mem_singleton.mpr rfl
  · rintro k hk ⟨o, d, h | h, hg, -⟩
    · interval_cases k <;> cases h
      cases hg
    · interval_cases k <;> cases h
  · exact List.mem_singleton.mpr rfl
  · rintro ⟨x, hx, hi⟩
    cases hx
    cases hi
  · exact List.mem_singleton.mpr rfl

end Templates
