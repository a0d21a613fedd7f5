import Templates.Proofs.Engine.Plans
import Templates.Proofs.Parking
import Templates.Proofs.Caching.Invariant

/-!
# At most one instance for a key

Every step preserves `Engine.CachesOnce` and every move `Engine.Retains`, and the front end elaborates
an instance right after it was made and never again. `Service.instantiatesOnce` puts these together:
nothing is instantiated twice unless it has failed. Which digest the engine uses does not matter for
this. With `Digest.ofKey` no search meets an instance of another key (`Service.mem_bucket_ofKey`).
-/

namespace Templates

variable {σ α : Type}

/-! ## Moves -/

namespace Activity

variable {sem : Semantics σ} {a b : Activity} {i : InstanceId}

theorem Moves.retains (Hs : a.Sound) (hl : a.engine.Linked) (Hc : a.engine.CachesOnce)
    (H : a.engine.Retains) (h : Moves sem a b) : b.engine.Retains := by
  cases h with
  | quiet h | openScope h => exact H.quiet h
  | elaborate | resume => exact H
  | create hp hn => exact H.create (hp.decl_lt hl)
  | defer _ _ _ _ h => exact (H.defer _ _).quiet h
  | suspend hi =>
    obtain ⟨x, hx, hs, -⟩ := Hs.head hi
    exact H.complete hx (by simp [hs]) _
  | complete hi =>
    obtain ⟨x, hx, hs, -⟩ := Hs.head hi
    exact (H.complete hx (by simp [hs]) _).takeDeferred _
  | fail hi =>
    obtain ⟨x, hx, -⟩ := Hs.head hi
    exact (H.fail Hc.keyed hx).takeDeferred _
  | release | wake => exact H.release _
  | @settle _ _ _ _ _ _ hi =>
    obtain ⟨hs, -⟩ := Hs.resuming.mp (hi ▸ List.mem_cons_self)
    obtain ⟨x, hx, hs⟩ := Option.map_eq_some_iff.mp hs
    exact (H.settle Hc.keyed hx (by simp [hs])).takeDeferred _

/-! ## Elaboration -/

/-- The instance has not been made. -/
def Unmade (i : InstanceId) (a : Activity) : Prop :=
  a.engine.insts.size ≤ i.index ∧ a.asks ≠ some (.openScope i) ∧ a.asks ≠ some (.elaborate i)

/-- The instance has just been made, and its elaboration has not begun. -/
def Fresh (i : InstanceId) (a : Activity) : Prop :=
  i.index < a.engine.insts.size ∧
    (a.asks = some (.openScope i) ∨ a.asks = some (.elaborate i))

/-- The elaboration of the instance has begun. -/
def Begun (i : InstanceId) (a : Activity) : Prop :=
  i.index < a.engine.insts.size ∧ a.asks ≠ some (.openScope i) ∧ a.asks ≠ some (.elaborate i)

/-- What a move means for the elaborations. -/
inductive Elaboration (a b : Activity) : Prop
  | make (asks : a.asks = none) (insts : b.engine.insts.size = a.engine.insts.size + 1)
    (asks' : b.asks = some (.openScope ⟨a.engine.insts.size⟩))
  | open (i : InstanceId) (insts : b.engine.insts.size = a.engine.insts.size)
    (asks : a.asks = some (.openScope i)) (asks' : b.asks = some (.elaborate i))
  | other (insts : b.engine.insts.size = a.engine.insts.size)
    (asks : ∀ i, a.asks ≠ some (.openScope i))
    (asks' : ∀ i, b.asks ≠ some (.openScope i) ∧ b.asks ≠ some (.elaborate i))

theorem Moves.elaboration (h : Moves sem a b) : Elaboration a b := by
  have hnone (i : InstanceId) : (none : Option Ask) ≠ some (.openScope i) ∧
      (none : Option Ask) ≠ some (.elaborate i) := ⟨nofun, nofun⟩
  cases h with
  | quiet h => exact .other h.insts nofun hnone
  | create => exact .make rfl Engine.insts_create rfl
  | @openScope w e e' i h => exact .open i h.insts rfl rfl
  | elaborate | resume => exact .other rfl nofun hnone
  | defer _ _ _ _ h => exact .other (h.insts.trans (Engine.insts_defer ..)) nofun hnone
  | suspend => exact .other (Engine.insts_modifyInst_size _) nofun hnone
  | complete =>
    exact .other (Engine.insts_takeDeferred.trans (Engine.insts_modifyInst_size _)) nofun hnone
  | fail =>
    refine .other (Engine.insts_takeDeferred.trans ?_) nofun hnone
    rw [Engine.insts_fail, Engine.insts_errored_size]
  | release => exact .other Engine.insts_release nofun hnone
  | wake => exact .other Engine.insts_release nofun fun _ => ⟨nofun, nofun⟩
  | settle => exact .other (Engine.insts_takeDeferred.trans Engine.insts_settle) nofun hnone

theorem Elaboration.unmade (h : Elaboration a b) (hi : Unmade i a) : Unmade i b ∨ Fresh i b := by
  obtain ⟨hs, hopen, helab⟩ := hi
  cases h with
  | make asks insts asks' =>
    by_cases h : i = ⟨a.engine.insts.size⟩
    · subst h
      exact .inr ⟨by simp [insts], .inl asks'⟩
    · refine .inl ⟨?_, ?_, ?_⟩
      · have : i.index ≠ a.engine.insts.size := fun he => h (congrArg InstanceId.mk he)
        omega
      · rw [asks']
        rintro ⟨⟩
        exact h rfl
      · rw [asks']
        nofun
  | «open» j insts asks asks' =>
    refine .inl ⟨insts ▸ hs, ?_, ?_⟩
    · rw [asks']
      nofun
    · rw [asks']
      rintro ⟨⟩
      exact hopen asks
  | other insts _ asks' => exact .inl ⟨insts ▸ hs, asks' i⟩

theorem Elaboration.fresh (h : Elaboration a b) (hi : Fresh i a) :
    a.asks = some (.elaborate i) ∧ Begun i b ∨ a.asks ≠ some (.elaborate i) ∧ Fresh i b := by
  obtain ⟨hs, hasks⟩ := hi
  cases h with
  | make asks => simp [asks] at hasks
  | «open» j insts asks asks' =>
    obtain rfl : j = i := by
      rw [asks] at hasks
      obtain h | h := hasks <;> cases h
      rfl
    exact .inr ⟨by simp [asks], insts ▸ hs, .inr asks'⟩
  | other insts asks asks' =>
    exact .inl ⟨hasks.resolve_left (asks i), insts ▸ hs, asks' i⟩

theorem Elaboration.begun (h : Elaboration a b) (hi : Begun i a) : Begun i b := by
  obtain ⟨hs, hopen, -⟩ := hi
  cases h with
  | make asks insts asks' =>
    refine ⟨by omega, ?_, ?_⟩
    · rw [asks']
      rintro ⟨⟩
      exact Nat.lt_irrefl _ hs
    · rw [asks']
      nofun
  | «open» j insts asks asks' =>
    refine ⟨insts ▸ hs, ?_, ?_⟩
    · rw [asks']
      nofun
    · rw [asks']
      rintro ⟨⟩
      exact hopen asks
  | other insts _ asks' => exact ⟨insts ▸ hs, asks' i⟩

end Activity

namespace Service

variable {svc : Service σ} {config : EngineConfig} {s : σ} {p : Program σ α}

variable (svc) in
/-- Of the chains that requests are made with nothing is asked. -/
theorem cachesOnce_after (n : Nat) : (svc.after n (.boot config s p)).engine.CachesOnce := by
  refine engine_always svc (.init config) (fun e e' hl H h => ?_) n
  cases h with
  | keep h => exact H.keeps h
  | create hp hn => exact H.create (hp.decl_lt hl) hn

variable (svc) in
/-- **Keys do not collide** under the digest that writes them down: what stands in the bucket of a key
is what a search for the key finds. -/
theorem mem_bucket_ofKey (hdigest : config.digest = Digest.ofKey) (n : Nat) {d : DeclId}
    {args : List Arg} {enclosing : Option ScopeId} {i : InstanceId} :
    i ∈ ((svc.after n (.boot config s p)).engine.cache d).bucket (.ofKey args enclosing) ↔
      (svc.after n (.boot config s p)).engine.lookup d args enclosing = some i := by
  refine (cachesOnce_after svc n).mem_bucket_ofKey ?_
  rw [config_after, hdigest]

section

variable (hsvc : svc.HandsOn) (hp : p.Hands [])

include hsvc hp

theorem retains_after (n : Nat) : (svc.after n (.boot config s p)).engine.Retains := by
  induction n with
  | zero => exact .init config
  | succ n ih =>
    exact (after_moves hsvc hp n).retains (sound_after hsvc hp n) (linked_after svc n)
      (cachesOnce_after svc n) ih

variable (config s) in
/-- An instance is not there yet, or the front end is about to elaborate it, or has begun to. -/
theorem elaborate_phase (i : InstanceId) (n : Nat) :
    let m : Machine σ α := .boot config s p
    let calls := svc.timesAsked m (.elaborate i) n
    calls = 0 ∧ Activity.Unmade i (svc.after n m).activity ∨
      calls = 0 ∧ Activity.Fresh i (svc.after n m).activity ∨
        calls = 1 ∧ Activity.Begun i (svc.after n m).activity := by
  intro m
  induction n with
  | zero => exact .inl ⟨rfl, Nat.zero_le _, nofun, nofun⟩
  | succ n ih =>
    have h : Activity.Elaboration (svc.after n m).activity (svc.after (n + 1) m).activity :=
      (after_moves hsvc hp n).elaboration
    dsimp only at ih ⊢
    obtain ⟨hc, hi⟩ | ⟨hc, hi⟩ | ⟨hc, hi⟩ := ih
    · rw [timesAsked_succ_of_ne hi.2.2, hc]
      obtain h | h := h.unmade hi
      · exact .inl ⟨rfl, h⟩
      · exact .inr (.inl ⟨rfl, h⟩)
    · obtain ⟨hasks, h⟩ | ⟨hasks, h⟩ := h.fresh hi
      · rw [timesAsked_succ_of_eq hasks, hc]
        exact .inr (.inr ⟨rfl, h⟩)
      · rw [timesAsked_succ_of_ne hasks, hc]
        exact .inr (.inl ⟨rfl, h⟩)
    · rw [timesAsked_succ_of_ne hi.2.2, hc]
      exact .inr (.inr ⟨rfl, h.begun hi⟩)

end

/-- What has been instantiated when the run from `m₀` has made `n` steps. -/
structure InstantiatesOnce (svc : Service σ) (m₀ : Machine σ α) (n : Nat) : Prop where
  /-- Two instances in the cache of a declaration differ in their arguments or their scopes. -/
  distinct {d : DeclId} {i j : InstanceId} {x y : Instance} :
    i ∈ ((svc.after n m₀).engine.cache d).ids → j ∈ ((svc.after n m₀).engine.cache d).ids →
    (svc.after n m₀).engine.inst? i = some x → (svc.after n m₀).engine.inst? j = some y →
    i ≠ j → (x.deduced, x.enclosing) ≠ (y.deduced, y.enclosing)
  /-- The cache of a declaration holds instances of it, each in the bucket of its key. -/
  filed {d : DeclId} {i : InstanceId} : i ∈ ((svc.after n m₀).engine.cache d).ids →
    ∃ x, (svc.after n m₀).engine.inst? i = some x ∧ x.decl = d ∧
      i ∈ ((svc.after n m₀).engine.cache d).bucket
        ((svc.after n m₀).engine.config.digest x.deduced x.enclosing)
  /-- An instance that is not in the cache of its declaration has failed. -/
  retained {i : InstanceId} {x : Instance} : (svc.after n m₀).engine.inst? i = some x →
    i ∉ ((svc.after n m₀).engine.cache x.decl).ids → x.state = .errored
  /-- The front end elaborates an instance at most once. -/
  atMostOnce (i : InstanceId) : svc.timesAsked m₀ (.elaborate i) n ≤ 1
  /-- Whenever a program runs, the one that has just been answered included, the front end has been
  asked for the members of every instance. -/
  exactlyOnce {role : Role} {p : Program σ (role.Result α)} {i : InstanceId} {x : Instance} :
    (svc.after n m₀).control = .program role p → (svc.after n m₀).engine.inst? i = some x →
    svc.timesAsked m₀ (.elaborate i) n = 1
  /-- Of two instances of a declaration with one key at least one has failed. -/
  unique {i j : InstanceId} {x y : Instance} : (svc.after n m₀).engine.inst? i = some x →
    (svc.after n m₀).engine.inst? j = some y → i ≠ j → x.decl = y.decl →
    x.deduced = y.deduced → x.enclosing = y.enclosing → x.state = .errored ∨ y.state = .errored

/-- **At most one instance for a key.** -/
theorem instantiatesOnce (hsvc : svc.HandsOn) (hp : p.Hands []) (n : Nat) :
    svc.InstantiatesOnce (.boot config s p) n := by
  have H : (svc.after n (.boot config s p)).engine.CachesOnce := cachesOnce_after svc n
  have Hr : (svc.after n (.boot config s p)).engine.Retains := retains_after hsvc hp n
  have hphase := fun i => elaborate_phase config s hsvc hp i n
  constructor
  case distinct =>
    intro d i j x y hi hj hx hy hne hkey
    exact hne (H.eq_of_mem_ids hi hj hx hy hkey)
  case filed =>
    intro d i hi
    exact H.filed hi
  case retained =>
    intro i x hx hi
    exact H.errored_of_notMem_ids Hr hx hi
  case atMostOnce =>
    intro i
    obtain ⟨hc, -⟩ | ⟨hc, -⟩ | ⟨hc, -⟩ := hphase i <;> omega
  case exactlyOnce =>
    intro role p' i x hc hx
    have hasks : (svc.after n (.boot config s p)).asks = none := by
      rw [Machine.asks, hc]
    obtain ⟨-, hs, -⟩ | ⟨-, -, h⟩ | ⟨hc, -⟩ := hphase i
    · exact absurd (Engine.inst?_eq_some_iff.mp ⟨x, hx⟩) (Nat.not_lt.mpr hs)
    · change _ = _ ∨ _ = _ at h
      simp [Machine.activity, hasks] at h
    · exact hc
  case unique =>
    intro i j x y hx hy hne hd hded hen
    by_contra hs
    rw [not_or] at hs
    have hi := mt (H.errored_of_notMem_ids Hr hx) hs.1
    have hj := mt (H.errored_of_notMem_ids Hr hy) hs.2
    rw [not_not] at hi hj
    exact hne (H.eq_of_mem_ids hi (hd ▸ hj) hx hy (by rw [hded, hen]))

end Service

/-- Asks twice for an instance of the first template. -/
def askTwice : Program Unit (Except TemplateError InstanceId) :=
  .command (.declare { name := "A" }) fun _ => .command (.declare { name := "B" }) fun _ =>
    .request [] { decl := ⟨0⟩ } fun _ => .request [] { decl := ⟨0⟩ } .done

theorem askTwice_hands : askTwice.Hands [] :=
  fun _ _ => ⟨.inl rfl, fun _ => ⟨.inl rfl, fun _ => trivial⟩⟩

/-- The machine of the two requests at its beginning. -/
def askTwiceBoot : Machine Unit (Except TemplateError InstanceId) :=
  .boot { digest := fun _ _ => default } () askTwice

/-- The second request is answered with the instance that the first one made. -/
theorem instantiatesOnce_askTwice : twoWay.HandsOn ∧ askTwice.Hands [] ∧
    (twoWay.after 26 askTwiceBoot).AtTop ∧ (twoWay.after 26 askTwiceBoot).engine.insts.size = 2 ∧
    (twoWay.after 26 askTwiceBoot).engine.stats.cacheHits = 1 ∧
    twoWay.InstantiatesOnce askTwiceBoot 26 :=
  ⟨twoWay_handsOn, askTwice_hands, ⟨rfl, _, rfl⟩, rfl, rfl,
    Service.instantiatesOnce twoWay_handsOn askTwice_hands 26⟩

end Templates
