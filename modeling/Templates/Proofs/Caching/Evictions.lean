import Templates.Proofs.Caching
import Templates.Proofs.Lifetimes

/-!
# What leaves the caches

Only an instance that fails leaves its cache, in the step in which it fails (`Engine.Evicts`). So an
instance that has never failed is in the cache of its declaration (`Service.filed_or_errored`), whatever
chains requests are made with. If instances stay as they ended, two of them with one key cannot both be
complete (`Service.eq_of_settled`).
-/

namespace Templates

variable {σ α : Type}

/-- The declaration, the arguments and the scope. -/
def Instance.key (x : Instance) : DeclId × List Arg × Option ScopeId :=
  (x.decl, x.deduced, x.enclosing)

namespace Engine

/-- What leaves the caches has failed. -/
def Evicts (e e' : Engine) : Prop :=
  ∀ ⦃d h i⦄, i ∈ (e.cache d).bucket h →
    i ∈ (e'.cache d).bucket h ∨ e'.arena.state? i = some .errored

/-- The instances are there and agree in all that a cache looks at. -/
def SameKey (e : Engine) (i j : InstanceId) : Prop :=
  ∃ key, (e.inst? i).map Instance.key = some key ∧ (e.inst? j).map Instance.key = some key

variable {e e' e'' : Engine} {i : InstanceId} {x : Instance} {names : SymbolId → String}

namespace Evicts

theorem of_cache (h : e'.cache = e.cache) : e.Evicts e' := fun d k i hi => .inl (by rwa [h])

/-- Nothing that has failed recovers. -/
theorem trans (h : e.Evicts e') (h' : e'.Evicts e'')
    (hs : ∀ i, e'.arena.state? i = some .errored → e''.arena.state? i = some .errored) :
    e.Evicts e'' := by
  intro d k i hi
  obtain hi | hi := h hi
  · exact h' hi
  · exact .inr (hs i hi)

theorem create {q : Request} {c : Chain} {p : Plan} (hd : p.decl.index < e.decls.size) :
    e.Evicts (e.create q c p).2 := by
  intro d k i hi
  left
  rw [cache_create hd]
  by_cases hdp : d = p.decl
  · subst hdp
    rw [Function.update_self, InstanceCache.mem_bucket_insert]
    exact .inl hi
  · rwa [Function.update_of_ne hdp]

theorem fail (hk : ∀ d, (e.cache d).Keyed) (hx : e.inst? i = some x) {reason : String}
    {span : Span} {c : Chain} : e.Evicts (e.fail names i reason span c).2 := by
  intro d k j hj
  by_cases hji : j = i
  · subst hji
    right
    rw [arena_fail, Arena.alter_eq_put (arena_eq_some hx)]
    exact Arena.state?_eq Arena.put_self
  · left
    rw [cache_fail hx]
    split
    · by_cases hd : d = x.decl
      · subst hd
        rw [Function.update_self, InstanceCache.bucket_erase (hk _)]
        split
        · exact (List.mem_erase_of_ne hji).mpr hj
        · exact hj
      · rwa [Function.update_of_ne hd]
    · exact hj

theorem settle (hk : ∀ d, (e.cache d).Keyed) (hx : e.inst? i = some x)
    {result : Except Failure Unit} : e.Evicts (e.settle names i result) := by
  cases result with
  | ok => exact of_cache rfl
  | error f => exact fail hk hx

theorem takeDeferred (h : e.Evicts e') (i : InstanceId) : e.Evicts (e'.takeDeferred i).2 := by
  refine h.trans (of_cache rfl) fun j hj => ?_
  rw [arena_takeDeferred, Arena.state?_alter]
  · exact hj
  · exact fun _ => rfl

end Evicts

/-- A new instance is put in the cache of its declaration. -/
theorem Becomes.filed {sem : Semantics σ} (h : e.Becomes sem e') (hl : e.Linked)
    (hold : e.origins i = none) (hx : e'.origins i = some x) :
    i ∈ (e'.cache x.decl).bucket x.digest := by
  cases h with
  | keep h =>
    rw [h.origins, hold] at hx
    cases hx
  | @create q c p hp =>
    rw [origins_create] at hx
    by_cases hi : i = ⟨e.insts.size⟩
    · subst hi
      rw [Arena.put_self] at hx
      obtain rfl := Option.some.inj hx
      change _ ∈ ((e.create q c p).2.cache p.decl).bucket _
      rw [cache_create (hp.decl_lt hl), Function.update_self, InstanceCache.mem_bucket_insert]
      exact .inr ⟨rfl, rfl⟩
    · rw [Arena.put_of_ne hi, hold] at hx
      cases hx

theorem cache_answer? {names : SymbolId → String} {q : Request} {c : Chain} {p : Plan}
    {a : Except TemplateError InstanceId} (h : e.answer? names q c p = some (a, e')) :
    e'.cache = e.cache := by
  obtain h | ⟨f, -, i, -, -, rfl⟩ := answer?_cases h
  · exact h.cache
  · obtain ⟨_, h⟩ := e.defer_frame i f.inst
    rw [h]
    rfl

end Engine

namespace Service

variable {svc : Service σ} {r : Run σ} {ws : List (Waiting σ α)} {c : Control σ α}
  {m : Machine σ α}

/-! ## Steps -/

theorem cache_giveAnswer {e : Engine} {s : σ} {call : Call} {a : Except TemplateError InstanceId} :
    (giveAnswer ⟨e, s⟩ call a ws).engine.cache = e.cache := by
  cases ws with
  | nil => rfl
  | cons w ws => exact (closeGag_quiet e call.mark).cache

theorem Steps.evicts (hl : r.engine.Linked) (hk : ∀ d, (r.engine.cache d).Keyed)
    (hp : (⟨r, c, ws⟩ : Machine σ α).Planned) (hheld : (⟨r, c, ws⟩ : Machine σ α).Held)
    (h : svc.Steps r ws c m) : r.engine.Evicts m.engine := by
  cases h with
  | unresolved | refuse =>
    exact .of_cache (cache_giveAnswer.trans (Engine.reject_quiet ..).cache)
  | undeclared => cases ws <;> exact .of_cache rfl
  | answer _ ha =>
    exact .of_cache (cache_giveAnswer.trans (Engine.cache_answer? ha))
  | create h ha =>
    have hplans : r.engine.Plans svc.toSemantics _ _ := ⟨hp rfl, _, _, congrArg Prod.fst h⟩
    exact .create (hplans.decl_lt hl)
  | finish => exact .of_cache cache_giveAnswer
  | openScope | release | wake | suspend | complete => exact .of_cache rfl
  | fail hf =>
    obtain rfl := congrArg Prod.snd hf
    obtain ⟨x, hx, -⟩ := Engine.progress?_eq_some_iff.mp (hheld.elaborating List.mem_cons_self)
    exact (Engine.Evicts.fail hk hx).takeDeferred _
  | settle hs =>
    subst hs
    obtain ⟨_, _, hprogress, -⟩ := hheld.resuming List.mem_cons_self
    obtain ⟨x, hx, -⟩ := Engine.progress?_eq_some_iff.mp hprogress
    exact (Engine.Evicts.settle hk hx).takeDeferred _
  | command hc => exact .of_cache (Command.run_quiet hl _ hc).cache
  | request => exact .of_cache openCall_quiet.cache
  | resolve | elaborate | resume | done | halt | read | service | dangling | unasked =>
    exact .of_cache rfl

/-! ## Runs -/

section

variable (svc) {config : EngineConfig} {s : σ} {p : Program σ α} {i j : InstanceId} {n : Nat}

theorem evicts_after (n : Nat) : (svc.after n (.boot config s p)).engine.Evicts
    (svc.after (n + 1) (.boot config s p)).engine := by
  rw [after_succ]
  exact (step_steps _).evicts (linked_after svc n) (cachesOnce_after svc n).keyed
    (planned_after svc n) (held_after svc n)

/-- An instance is in the cache of its declaration, or it has failed at some moment. -/
theorem filed_or_errored {x : Instance}
    (hx : (svc.after n (.boot config s p)).engine.origins i = some x) :
    i ∈ ((svc.after n (.boot config s p)).engine.cache x.decl).bucket x.digest ∨
      ∃ k ≤ n, (svc.after k (.boot config s p)).engine.arena.state? i = some .errored := by
  induction n with
  | zero => cases (Engine.origins_eq_none_iff.mpr (Nat.zero_le _)).symm.trans hx
  | succ n ih =>
    have hevicts : (svc.after n (.boot config s p)).engine.Evicts
        (svc.after (n + 1) (.boot config s p)).engine := evicts_after svc n
    cases hold : (svc.after n (.boot config s p)).engine.origins i with
    | some y =>
      have hy := origins_after svc (Nat.le_succ n) hold
      rw [hx] at hy
      obtain rfl := Option.some.inj hy
      obtain hi | ⟨k, hk, hs⟩ := ih hold
      · obtain hi | hs := hevicts hi
        · exact .inl hi
        · exact .inr ⟨n + 1, Nat.le_refl _, hs⟩
      · exact .inr ⟨k, Nat.le_succ_of_le hk, hs⟩
    | none =>
      left
      rw [after_succ] at hx ⊢
      exact ((step_steps _).becomes (linked_after svc n) (planned_after svc n)).filed
        (linked_after svc n) hold hx

variable {svc}

/-- Of the instances that stay as they ended, at most one with a given key is complete. -/
theorem eq_of_settled (hi : svc.Settled (.boot config s p) i n)
    (hj : svc.Settled (.boot config s p) j n)
    (hci : (svc.after n (.boot config s p)).engine.isComplete i = true)
    (hcj : (svc.after n (.boot config s p)).engine.isComplete j = true)
    (hkey : (svc.after n (.boot config s p)).engine.SameKey i j) : i = j := by
  have H : (svc.after n (.boot config s p)).engine.CachesOnce := cachesOnce_after svc n
  have hfiled {t : InstanceId} {x : Instance} (ht : svc.Settled (.boot config s p) t n)
      (hc : (svc.after n (.boot config s p)).engine.isComplete t = true)
      (hx : (svc.after n (.boot config s p)).engine.inst? t = some x) :
      t ∈ ((svc.after n (.boot config s p)).engine.cache x.decl).ids := by
    refine (InstanceCache.mem_ids_iff (H.keyed _)).mpr ⟨x.digest, ?_⟩
    obtain h | ⟨k, hk, hs⟩ := filed_or_errored svc (Engine.origins_eq_some hx)
    · exact h
    · rw [Engine.state?_arena] at hs
      obtain ⟨z, hz, hzs⟩ := Option.map_eq_some_iff.mp hs
      obtain ⟨y, hy, hys⟩ := ht hk hz (.inr hzs)
      rw [Engine.isComplete, hy, Option.map_some, Option.getD_some, hys, hzs] at hc
      cases hc
  obtain ⟨key, hi', hj'⟩ := hkey
  obtain ⟨x, hx, rfl⟩ := Option.map_eq_some_iff.mp hi'
  obtain ⟨y, hy, hkey⟩ := Option.map_eq_some_iff.mp hj'
  obtain ⟨hd, hargs⟩ := Prod.mk.inj hkey
  exact H.eq_of_mem_ids (hfiled hi hci hx) (hd ▸ hfiled hj hcj hy) hx hy hargs.symm

end

end Service

end Templates
