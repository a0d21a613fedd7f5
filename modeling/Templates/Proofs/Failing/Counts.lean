import Mathlib.Algebra.BigOperators.Group.Finset.Basic
import Templates.Proofs.Reporting

/-!
# Counting cached instances

Every instance is put into a cache when it is made, and taken out at most once. `Engine.Tallied` says
that the counters of the engine keep account of it. Two operations move the counters: `Engine.create`
and `Engine.fail`, the latter only for a cached instance with the mark of speculation.
-/

namespace Templates

/-- The number of instances and the counters that go with it. -/
structure Tally where
  insts : Nat
  created : Nat
  evicted : Nat

namespace Engine

variable {e e' : Engine} {d : DeclId} {i : InstanceId} {x : Instance} {names : SymbolId → String}

/-- The number of cached instances of all declarations. -/
def filed (e : Engine) : Nat := ∑ d ∈ Finset.range e.decls.size, (e.cache ⟨d⟩).ids.length

def tally (e : Engine) : Tally := ⟨e.insts.size, e.stats.created, e.stats.evicted⟩

/-- The counters keep account of the instances and the caches. -/
structure Tallied (e : Engine) : Prop where
  sized (d : DeclId) : (e.cache d).Sized
  created : e.stats.created = e.insts.size
  filed : e.filed + e.stats.evicted = e.stats.created

/-! ## The number of cached instances -/

theorem filed_eq {n : Nat} (hn : e.decls.size ≤ n) :
    e.filed = ∑ d ∈ Finset.range n, (e.cache ⟨d⟩).ids.length := by
  refine Finset.sum_subset (Finset.range_subset_range.mpr hn) fun d _ hd => ?_
  have hnone : e.decl? ⟨d⟩ = none := by simpa [decl?] using hd
  rw [cache, hnone]
  rfl

theorem filed_congr (h : e'.cache = e.cache) : e'.filed = e.filed := by
  rw [filed_eq (Nat.le_max_left e'.decls.size e.decls.size),
    filed_eq (Nat.le_max_right e'.decls.size e.decls.size), h]

/-- The cache of one declaration is another. -/
theorem filed_update {c : InstanceCache} (hd : d.index < e.decls.size)
    (hs : e'.decls.size = e.decls.size) (hc : e'.cache = Function.update e.cache d c) :
    e'.filed + (e.cache d).ids.length = e.filed + c.ids.length := by
  obtain ⟨k⟩ := d
  have hmem : k ∈ Finset.range e.decls.size := Finset.mem_range.mpr hd
  have hrest : ∑ n ∈ (Finset.range e.decls.size).erase k, (e'.cache ⟨n⟩).ids.length =
      ∑ n ∈ (Finset.range e.decls.size).erase k, (e.cache ⟨n⟩).ids.length := by
    refine Finset.sum_congr rfl fun n hn => ?_
    have hne : (⟨n⟩ : DeclId) ≠ ⟨k⟩ := fun h => Finset.ne_of_mem_erase hn (congrArg DeclId.index h)
    rw [hc, Function.update_of_ne hne]
  have hnew : (e'.cache ⟨k⟩).ids.length = c.ids.length := by
    rw [hc, Function.update_self]
  unfold filed
  rw [hs, ← Finset.add_sum_erase _ _ hmem, hrest, hnew, ← Finset.add_sum_erase _ _ hmem]
  omega

theorem lt_of_mem_bucket {h : Digest} (hi : i ∈ (e.cache d).bucket h) : d.index < e.decls.size := by
  refine decl?_eq_some_iff.mp (Option.ne_none_iff_exists'.mp fun hd => ?_)
  rw [cache, hd] at hi
  cases hi

/-! ## What moves the counters -/

theorem decls_create {q : Request} {c : Chain} {p : Plan} :
    (e.create q c p).2.decls.size = e.decls.size := Array.size_modify ..

theorem evict_of_notMem (h : e.inst? i = some x) (hi : i ∉ (e.cache x.decl).bucket x.digest) :
    e.evict i = e := by
  refine (e.evict_cases i).resolve_right fun ⟨y, entry, cache, hy, hd, hc, _⟩ => hi ?_
  obtain rfl := Option.some.inj (h.symm.trans hy)
  rw [cache_of_decl? hd]
  by_contra hn
  rw [InstanceCache.erase, if_neg hn] at hc
  cases hc

theorem evict_of_mem (h : e.inst? i = some x) (hi : i ∈ (e.cache x.decl).bucket x.digest) :
    (e.evict i).tally = ⟨e.insts.size, e.stats.created, e.stats.evicted + 1⟩ ∧
      (e.evict i).decls.size = e.decls.size := by
  unfold evict
  rw [h]
  dsimp only
  cases hx : e.decl? x.decl with
  | none => simp [cache, hx] at hi
  | some entry =>
    rw [cache_of_decl? hx] at hi
    dsimp only
    rw [InstanceCache.erase, if_pos hi]
    exact ⟨rfl, Array.size_modify ..⟩

section

variable {reason : String} {span : Span} {c : Chain}

/-- An instance fails that is not marked, or is in no cache. -/
theorem fail_spares (hx : e.inst? i = some x)
    (h : x.gagged = true → i ∉ (e.cache x.decl).bucket x.digest) :
    (e.fail names i reason span c).2.cache = e.cache ∧
      (e.fail names i reason span c).2.tally = e.tally := by
  have hfailed : e.failed i = e.errored i := by
    rw [failed_of_inst? hx]
    split
    · next hg => exact evict_of_notMem (inst?_errored hx) (h hg)
    · rfl
  rw [fail_eq, hfailed]
  exact ⟨rfl, congrArg (Tally.mk · _ _) (insts_modifyInst_size _)⟩

/-- A cached instance fails that is marked. -/
theorem fail_discards (hx : e.inst? i = some x) (hg : x.gagged = true)
    (hi : i ∈ (e.cache x.decl).bucket x.digest) : (e.fail names i reason span c).2.tally =
      ⟨e.insts.size, e.stats.created, e.stats.evicted + 1⟩ ∧
      (e.fail names i reason span c).2.decls.size = e.decls.size := by
  obtain ⟨ht, hd⟩ := evict_of_mem (inst?_errored hx) hi
  rw [fail_eq, failed_of_inst? hx, if_pos hg]
  exact ⟨ht.trans (congrArg (Tally.mk · _ _) (insts_modifyInst_size _)), hd⟩

end

/-! ## What leaves the counters alone -/

theorem tally_modifyInst (f : Instance → Instance) : (e.modifyInst i f).tally = e.tally :=
  congrArg (Tally.mk · _ _) (insts_modifyInst_size f)

theorem tally_takeDeferred : (e.takeDeferred i).2.tally = e.tally := tally_modifyInst _

theorem tally_touch {q : Request} : (e.touch i q).tally = e.tally := by
  obtain ⟨-, h⟩ | ⟨-, h⟩ := e.touch_cases i q <;> rw [h]
  exact tally_modifyInst _

theorem tally_defer {t : InstanceId} : (e.defer i t).tally = e.tally := by
  obtain h | h := e.defer_cases i t <;> rw [h]
  exact (tally_modifyInst _).trans (tally_modifyInst _)

theorem tally_answer? {q : Request} {c : Chain} {p : Plan} {a : Except TemplateError InstanceId}
    (h : e.answer? names q c p = some (a, e')) : e'.tally = e.tally := by
  cases finds_of_answer? h with
  | recursive | reference | failed | busy | tooDeep => rfl
  | defer => exact tally_defer
  | cached => exact tally_touch

theorem tally_run (c : Command) : (c.run e).2.tally = e.tally := by
  have hdeclare (d : Decl) : (e.declare d).2.tally = e.tally := by
    obtain ⟨_, _, h⟩ := e.declare_frame d
    rw [h]
    rfl
  cases c with
  | declare d => exact hdeclare d
  | overload d d' =>
    change (e.overloadInsert d d').2.tally = _
    obtain ⟨_, h⟩ := e.overloadInsert_frame d d'
    rw [h]
    exact hdeclare d'
  | addRoot m =>
    change (e.addRoot m).tally = _
    obtain ⟨-, h⟩ | h := e.addRoot_cases m <;> rw [h]
    rfl
  | claim i m =>
    change (e.claimCodegen i m).2.tally = _
    obtain h | h := e.claimCodegen_cases i m <;> rw [h]
    exact tally_modifyInst _
  | recordImport i m => exact tally_modifyInst _
  | addDiagnostic | pushGag | popGag | flush => rfl

namespace Tallied

theorem init (config : EngineConfig) : Tallied { config } := by
  refine ⟨fun d => ?_, rfl, rfl⟩
  have hcache : Engine.cache { config } d = {} := by simp [cache, decl?]
  rw [hcache]
  rfl

theorem of_cache (H : e.Tallied) (hc : e'.cache = e.cache) (ht : e'.tally = e.tally) :
    e'.Tallied := by
  have hinsts : e'.insts.size = e.insts.size := congrArg Tally.insts ht
  have hcreated : e'.stats.created = e.stats.created := congrArg Tally.created ht
  have hevicted : e'.stats.evicted = e.stats.evicted := congrArg Tally.evicted ht
  refine ⟨fun d => hc ▸ H.sized d, ?_, ?_⟩
  · rw [hcreated, hinsts, H.created]
  · rw [filed_congr hc, hevicted, hcreated, H.filed]

/-- One cache changes, and the counters with it. -/
theorem update {c : InstanceCache} (H : e.Tallied) (hd : d.index < e.decls.size)
    (hs : e'.decls.size = e.decls.size) (hc : e'.cache = Function.update e.cache d c)
    (hsized : c.Sized) (hcreated : e'.stats.created = e'.insts.size)
    (hlen : c.ids.length + e'.stats.evicted + e.stats.created =
      (e.cache d).ids.length + e.stats.evicted + e'.stats.created) : e'.Tallied := by
  have hfiled := filed_update hd hs hc
  have hold := H.filed
  refine ⟨fun d' => ?_, hcreated, by omega⟩
  rw [hc]
  by_cases h : d' = d
  · subst h
    rwa [Function.update_self]
  · rw [Function.update_of_ne h]
    exact H.sized d'

theorem create (H : e.Tallied) (hk : ∀ d, (e.cache d).Keyed) {q : Request} {c : Chain} {p : Plan}
    (hd : p.decl.index < e.decls.size) : (e.create q c p).2.Tallied := by
  have hcreated : (e.create q c p).2.stats.created = e.stats.created + 1 := rfl
  have hevicted : (e.create q c p).2.stats.evicted = e.stats.evicted := rfl
  refine H.update hd decls_create (cache_create hd) ((H.sized _).insert (hk _)) ?_ ?_
  · rw [insts_create, hcreated, H.created]
  · rw [InstanceCache.length_ids_insert (hk _), hcreated, hevicted]
    omega

theorem fail (H : e.Tallied) (hx : e.inst? i = some x) (hg : x.gagged = true)
    (hi : i ∈ (e.cache x.decl).bucket x.digest) {reason : String} {span : Span} {c : Chain} :
    (e.fail names i reason span c).2.Tallied := by
  have ht : (e.fail names i reason span c).2.tally = _ := (fail_discards hx hg hi).1
  have hs : (e.fail names i reason span c).2.decls.size = _ := (fail_discards hx hg hi).2
  have hinsts : (e.fail names i reason span c).2.insts.size = e.insts.size :=
    congrArg Tally.insts ht
  have hcreated : (e.fail names i reason span c).2.stats.created = e.stats.created :=
    congrArg Tally.created ht
  have hevicted : (e.fail names i reason span c).2.stats.evicted = e.stats.evicted + 1 :=
    congrArg Tally.evicted ht
  have hcache : (e.fail names i reason span c).2.cache = _ := (cache_fail hx).trans (if_pos hg)
  have hlen := InstanceCache.length_ids_erase hi
  refine H.update (lt_of_mem_bucket hi) hs hcache (H.sized _).erase ?_ ?_
  · rw [hcreated, hinsts, H.created]
  · rw [hcreated, hevicted]
    omega

end Tallied

end Engine

end Templates
