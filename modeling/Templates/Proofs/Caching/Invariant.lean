import Templates.Proofs.Engine.Keeps

/-!
# Caches and keys

The cache of a declaration holds at most one instance with given arguments and scope, filed under the
digest of its key (`Engine.CachesOnce`): a new instance is made only if the cache has none with its
key. As long as only instances that fail leave the caches, an instance that is not in one has failed
(`Engine.Retains`).
-/

namespace Templates

namespace Engine

/-- What the caches have to do with the instances. -/
structure CachesOnce (e : Engine) : Prop where
  keyed (d : DeclId) : (e.cache d).Keyed
  owned {d : DeclId} {h : Digest} {i : InstanceId} :
    i ∈ (e.cache d).bucket h → ∃ x, e.origins i = some x ∧ x.decl = d ∧ x.digest = h
  digest {i : InstanceId} {x : Instance} :
    e.origins i = some x → x.digest = e.config.digest x.deduced x.enclosing
  unique {d : DeclId} {h : Digest} {i j : InstanceId} {x y : Instance} :
    i ∈ (e.cache d).bucket h → j ∈ (e.cache d).bucket h → e.origins i = some x →
    e.origins j = some y → x.deduced = y.deduced → x.enclosing = y.enclosing → i = j

/-- An instance that has not failed is in the cache of its declaration. -/
def Retains (e : Engine) : Prop :=
  ∀ ⦃i x⦄, e.arena i = some x → x.state ≠ .errored → i ∈ (e.cache x.decl).bucket x.digest

variable {e e' : Engine} {i : InstanceId} {x : Instance}

theorem lookup_eq (e : Engine) (d : DeclId) (args : List Arg) (enclosing : Option ScopeId) :
    e.lookup d args enclosing = (e.cache d).find? (e.config.digest args enclosing) fun i =>
      ((e.origins i).map (·.hasKey args enclosing)).getD false := by
  unfold lookup cache
  cases e.decl? d with
  | none => rfl
  | some entry =>
    have h : (fun i => ((e.inst? i).map (·.hasKey args enclosing)).getD false) =
        fun i => ((e.origins i).map (·.hasKey args enclosing)).getD false :=
      funext fun i => by rw [origins, Option.map_map]; rfl
    rw [Option.bind_some, h]
    rfl

/-- If a search fails, no cached instance has the key. -/
theorem not_hasKey_of_lookup {d : DeclId} {args : List Arg} {enclosing : Option ScopeId}
    (hl : e.lookup d args enclosing = none)
    (hi : i ∈ (e.cache d).bucket (e.config.digest args enclosing)) (hx : e.origins i = some x) :
    ¬(x.deduced = args ∧ x.enclosing = enclosing) := by
  rw [lookup_eq] at hl
  have h := List.find?_eq_none.mp hl i hi
  rw [hx] at h
  simpa [Instance.hasKey, and_comm] using h

/-! ## One instance for a key -/

namespace CachesOnce

theorem init (config : EngineConfig) : CachesOnce { config } := by
  have horigins (i : InstanceId) : Engine.origins { config } i = none :=
    origins_eq_none_iff.mpr (Nat.zero_le _)
  have hcache (d : DeclId) : Engine.cache { config } d = {} := by simp [cache, decl?]
  constructor
  case keyed =>
    intro d
    rw [hcache]
    exact InstanceCache.keyed_empty
  case owned | unique =>
    intros
    simp_all
  case digest =>
    intro i x hx
    rw [horigins] at hx
    cases hx

theorem keeps (H : e.CachesOnce) (h : e.Keeps e') : e'.CachesOnce := by
  have hsub {d : DeclId} {k : Digest} {i : InstanceId} (hi : i ∈ (e'.cache d).bucket k) :
      i ∈ (e.cache d).bucket k := (h.bucket k (H.keyed d)).subset hi
  constructor
  case keyed =>
    intro d
    exact h.keyed (H.keyed d)
  case owned =>
    intro d k i hi
    rw [h.origins]
    exact H.owned (hsub hi)
  case digest =>
    intro i x hx
    rw [h.origins] at hx
    rw [h.config]
    exact H.digest hx
  case unique =>
    intro d k i j x y hi hj hx hy
    rw [h.origins] at hx hy
    exact H.unique (hsub hi) (hsub hj) hx hy

/-- A new instance whose key no cached one has. -/
theorem create (H : e.CachesOnce) {q : Request} {c : Chain} {p : Plan}
    (hd : p.decl.index < e.decls.size)
    (hl : e.lookup p.decl p.deduction.args p.enclosing = none) :
    (e.create q c p).2.CachesOnce := by
  have hnew : e.origins ⟨e.insts.size⟩ = none := origins_eq_none_iff.mpr (Nat.le_refl _)
  have hbucket {d h j} (hj : j ∈ ((e.create q c p).2.cache d).bucket h) :
      j ∈ (e.cache d).bucket h ∨ d = p.decl ∧
        h = e.config.digest p.deduction.args p.enclosing ∧ j = ⟨e.insts.size⟩ := by
    rw [cache_create hd] at hj
    by_cases hd' : d = p.decl
    · subst hd'
      rw [Function.update_self, InstanceCache.mem_bucket_insert] at hj
      exact hj.imp_right fun h => ⟨rfl, h⟩
    · rw [Function.update_of_ne hd'] at hj
      exact .inl hj
  have hold {j x} (hj : e.origins j = some x) : (e.create q c p).2.origins j = some x := by
    rw [origins_create, Arena.put_of_ne, hj]
    rintro rfl
    rw [hnew] at hj
    cases hj
  constructor
  case keyed =>
    intro d
    rw [cache_create hd]
    by_cases hd' : d = p.decl
    · subst hd'
      rw [Function.update_self]
      exact (H.keyed _).insert _ _
    · rw [Function.update_of_ne hd']
      exact H.keyed d
  case owned =>
    intro d h j hj
    obtain hj | ⟨rfl, rfl, rfl⟩ := hbucket hj
    · obtain ⟨x, hx, hk⟩ := H.owned hj
      exact ⟨x, hold hx, hk⟩
    · exact ⟨_, by rw [origins_create, Arena.put_self], rfl, rfl⟩
  case digest =>
    intro j x hx
    rw [origins_create] at hx
    by_cases hj : j = ⟨e.insts.size⟩
    · subst hj
      rw [Arena.put_self] at hx
      cases hx
      rfl
    · rw [Arena.put_of_ne hj] at hx
      exact H.digest hx
  case unique =>
    intro d h i j x y hi hj hx hy hded hen
    have hthere {k z} (hk : k ∈ (e.cache d).bucket h)
        (hz : (e.create q c p).2.origins k = some z) : e.origins k = some z := by
      obtain ⟨z', hz', -⟩ := H.owned hk
      rwa [← hz, hold hz']
    obtain hi | ⟨rfl, rfl, rfl⟩ := hbucket hi
    · obtain hj | ⟨rfl, rfl, rfl⟩ := hbucket hj
      · exact H.unique hi hj (hthere hi hx) (hthere hj hy) hded hen
      · rw [origins_create, Arena.put_self] at hy
        cases hy
        exact absurd ⟨hded, hen⟩ (not_hasKey_of_lookup hl hi (hthere hi hx))
    · rw [origins_create, Arena.put_self] at hx
      cases hx
      obtain hj | ⟨-, -, rfl⟩ := hbucket hj
      · exact absurd ⟨hded.symm, hen.symm⟩ (not_hasKey_of_lookup hl hj (hthere hj hy))
      · rfl

section

variable {d : DeclId} {j : InstanceId} {y : Instance}

theorem filed (H : e.CachesOnce) (hi : i ∈ (e.cache d).ids) :
    ∃ x, e.inst? i = some x ∧ x.decl = d ∧
      i ∈ (e.cache d).bucket (e.config.digest x.deduced x.enclosing) := by
  obtain ⟨h, hi⟩ := (InstanceCache.mem_ids_iff (H.keyed d)).mp hi
  obtain ⟨_, hx, rfl, rfl⟩ := H.owned hi
  have hd := H.digest hx
  obtain ⟨y, hy, rfl⟩ := Option.map_eq_some_iff.mp hx
  exact ⟨y, hy, rfl, hd ▸ hi⟩

theorem eq_of_mem_ids (H : e.CachesOnce) (hi : i ∈ (e.cache d).ids)
    (hj : j ∈ (e.cache d).ids) (hx : e.inst? i = some x) (hy : e.inst? j = some y)
    (hkey : (x.deduced, x.enclosing) = (y.deduced, y.enclosing)) : i = j := by
  obtain ⟨hded, hen⟩ := Prod.mk.inj hkey
  obtain ⟨x', hx', -, hbi⟩ := H.filed hi
  obtain ⟨y', hy', -, hbj⟩ := H.filed hj
  obtain rfl := Option.some.inj (hx.symm.trans hx')
  obtain rfl := Option.some.inj (hy.symm.trans hy')
  rw [← hded, ← hen] at hbj
  exact H.unique hbi hbj (origins_eq_some hx) (origins_eq_some hy) hded hen

/-- A cached instance is found under its key. -/
theorem lookup_eq_some (H : e.CachesOnce) (hi : i ∈ (e.cache d).ids) (hx : e.inst? i = some x) :
    e.lookup d x.deduced x.enclosing = some i := by
  obtain ⟨y, hy, -, hb⟩ := H.filed hi
  obtain rfl := Option.some.inj (hx.symm.trans hy)
  cases hl : e.lookup d x.deduced x.enclosing with
  | none => exact absurd ⟨rfl, rfl⟩ (not_hasKey_of_lookup hl hb (origins_eq_some hx))
  | some j =>
    rw [lookup_eq] at hl
    have hmem : j ∈ (e.cache d).bucket _ := List.mem_of_find?_eq_some hl
    have hj := List.find?_some hl
    obtain ⟨z, hz, -⟩ := H.owned hmem
    rw [hz] at hj
    simp only [Instance.hasKey, Option.map_some, Option.getD_some, Bool.and_eq_true,
      decide_eq_true_eq] at hj
    exact congrArg some (H.unique hmem hb hz (origins_eq_some hx) hj.2 hj.1)

/-- Where different keys have different digests, the bucket of a key holds what a search for the key
finds and nothing else. -/
theorem mem_bucket_ofKey (H : e.CachesOnce) (hdigest : e.config.digest = Digest.ofKey)
    {args : List Arg} {enclosing : Option ScopeId} :
    i ∈ (e.cache d).bucket (.ofKey args enclosing) ↔ e.lookup d args enclosing = some i := by
  constructor
  · intro hi
    obtain ⟨_, ho, -, hkey⟩ := H.owned hi
    rw [H.digest ho, hdigest] at hkey
    obtain ⟨x, hx, rfl⟩ := Option.map_eq_some_iff.mp ho
    have hfound : e.lookup d x.deduced x.enclosing = some i :=
      H.lookup_eq_some ((InstanceCache.mem_ids_iff (H.keyed d)).mpr ⟨_, hi⟩) hx
    obtain ⟨rfl, rfl⟩ := Digest.ofKey_inj.mp hkey
    exact hfound
  · intro hl
    rw [lookup_eq, hdigest] at hl
    exact List.mem_of_find?_eq_some hl

theorem errored_of_notMem_ids (H : e.CachesOnce) (hr : e.Retains) (hx : e.inst? i = some x)
    (hi : i ∉ (e.cache x.decl).ids) : x.state = .errored := by
  by_contra hs
  have := hr (arena_eq_some hx) hs
  exact hi ((InstanceCache.mem_ids_iff (H.keyed _)).mpr ⟨_, this⟩)

end

end CachesOnce

/-! ## What is kept in the caches -/

namespace Retains

theorem init (config : EngineConfig) : Retains { config } := by
  intro i x hx
  rw [arena_eq_none_iff.mpr (Nat.zero_le _)] at hx
  cases hx

theorem quiet (H : e.Retains) (h : e.Quiet e') : e'.Retains := by
  intro i x hx hs
  rw [h.arena] at hx
  rw [h.cache]
  exact H hx hs

/-- An instance is altered and does not recover. -/
theorem alter {f : Instance → Instance} (H : e.Retains) (ha : e'.arena = e.arena.alter i f)
    (hc : e'.cache = e.cache) (hf : ∀ x, (f x).decl = x.decl ∧ (f x).digest = x.digest)
    (hs : ∀ x, e.arena i = some x → x.state = .errored → (f x).state = .errored) :
    e'.Retains := by
  intro j y hy hsy
  rw [ha] at hy
  rw [hc]
  obtain ⟨x, hx, ⟨-, rfl⟩ | ⟨rfl, rfl⟩⟩ := Arena.alter_eq_some hy
  · exact H hx hsy
  · rw [(hf x).1, (hf x).2]
    exact H hx (mt (hs x hx) hsy)

theorem defer (H : e.Retains) (i t : InstanceId) : (e.defer i t).Retains := by
  obtain h | h := e.defer_cases i t <;> rw [h]
  · exact H
  · have H₁ : (e.modifyInst t fun x => { x with deferred := x.deferred ++ [i] }).Retains :=
      H.alter (arena_modifyInst fun _ => rfl) rfl (fun _ => ⟨rfl, rfl⟩) fun _ _ h => h
    exact H₁.alter (arena_modifyInst fun _ => rfl) rfl (fun _ => ⟨rfl, rfl⟩) fun _ _ h => h

theorem release (H : e.Retains) (i : InstanceId) : (e.release i).2.Retains :=
  H.alter arena_release rfl (fun _ => ⟨rfl, rfl⟩) fun _ _ h => h

theorem takeDeferred (H : e.Retains) (i : InstanceId) : (e.takeDeferred i).2.Retains :=
  H.alter arena_takeDeferred rfl (fun _ => ⟨rfl, rfl⟩) fun _ _ h => h

theorem complete (H : e.Retains) (hx : e.arena i = some x) (hs : x.state ≠ .errored)
    (members : MemberTable) : (e.complete i members).Retains := by
  refine H.alter arena_complete rfl (fun _ => ⟨rfl, rfl⟩) fun y hy h => ?_
  rw [hx] at hy
  cases hy
  exact absurd h hs

/-- A failed instance may leave its cache. -/
theorem fail (H : e.Retains) (hk : ∀ d, (e.cache d).Keyed) (hx : e.arena i = some x)
    {names : SymbolId → String} {reason : String} {span : Span} {c : Chain} :
    (e.fail names i reason span c).2.Retains := by
  obtain ⟨y, hy, rfl⟩ := Option.map_eq_some_iff.mp hx
  intro j z hz hs
  rw [arena_fail] at hz
  obtain ⟨z, hold, ⟨hj, rfl⟩ | ⟨-, rfl⟩⟩ := Arena.alter_eq_some hz
  · have hmem := H hold hs
    rw [cache_fail hy]
    split
    · by_cases hd : z.decl = y.decl
      · rw [hd, Function.update_self, InstanceCache.bucket_erase (hk _)]
        rw [hd] at hmem
        split
        · exact (List.mem_erase_of_ne hj).mpr hmem
        · exact hmem
      · rwa [Function.update_of_ne hd]
    · exact hmem
  · exact absurd rfl hs

theorem settle (H : e.Retains) (hk : ∀ d, (e.cache d).Keyed) (hx : e.arena i = some x)
    (hs : x.state ≠ .errored) {names : SymbolId → String} {result : Except Failure Unit} :
    (e.settle names i result).Retains := by
  cases result with
  | ok =>
    refine H.alter arena_settle rfl (fun _ => ⟨rfl, rfl⟩) fun y hy h => ?_
    rw [hx] at hy
    cases hy
    exact absurd h hs
  | error f => exact H.fail hk hx

theorem create (H : e.Retains) {q : Request} {c : Chain} {p : Plan}
    (hd : p.decl.index < e.decls.size) : (e.create q c p).2.Retains := by
  intro j x hx hs
  rw [arena_create] at hx
  rw [cache_create hd]
  by_cases hj : j = ⟨e.insts.size⟩
  · subst hj
    rw [Arena.put_self] at hx
    cases hx
    rw [show (e.made q c p).decl = p.decl from rfl, Function.update_self,
      InstanceCache.mem_bucket_insert]
    exact .inr ⟨rfl, rfl⟩
  · rw [Arena.put_of_ne hj] at hx
    have hmem := H hx hs
    by_cases hd' : x.decl = p.decl
    · rw [hd', Function.update_self, InstanceCache.mem_bucket_insert]
      exact .inl (hd' ▸ hmem)
    · rwa [Function.update_of_ne hd']

end Retains

end Engine

end Templates
