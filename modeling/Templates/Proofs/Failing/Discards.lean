import Mathlib.Data.Nat.Count
import Templates.Proofs.Caching.Evictions
import Templates.Proofs.Failing.Counts

/-!
# Failures that leave the caches

A cached instance with the mark of speculation leaves its cache when it fails (`Service.Discards`), and
nothing else does. `Service.Files` lists what a step can do to the caches and their counters; from it
follows what has become of every instance in a run.
-/

namespace Templates

variable {σ α : Type}

namespace Engine

variable {e e' : Engine} {i j : InstanceId} {x : Instance} {names : SymbolId → String}

/-- The instance is in the cache of its declaration. -/
def Caches (e : Engine) (i : InstanceId) : Prop :=
  ∃ x, e.inst? i = some x ∧ i ∈ (e.cache x.decl).ids

theorem caches_iff (H : e.CachesOnce) : e.Caches i ↔ ∃ d h, i ∈ (e.cache d).bucket h := by
  constructor
  · rintro ⟨x, -, hi⟩
    exact ⟨_, (InstanceCache.mem_ids_iff (H.keyed _)).mp hi⟩
  · rintro ⟨d, h, hi⟩
    have hids := (InstanceCache.mem_ids_iff (H.keyed d)).mpr ⟨h, hi⟩
    obtain ⟨x, hx, rfl, -⟩ := H.filed hids
    exact ⟨x, hx, hids⟩

theorem Caches.mem_bucket (h : e.Caches i) (H : e.CachesOnce) (hx : e.inst? i = some x) :
    i ∈ (e.cache x.decl).bucket x.digest := by
  obtain ⟨d, k, hi⟩ := (caches_iff H).mp h
  obtain ⟨y, hy, rfl, rfl⟩ := H.owned hi
  obtain rfl := Option.some.inj ((origins_eq_some hx).symm.trans hy)
  exact hi

theorem caches_congr (H : e.CachesOnce) (H' : e'.CachesOnce) (h : e'.cache = e.cache) :
    e'.Caches i ↔ e.Caches i := by
  rw [caches_iff H, caches_iff H', h]

theorem caches_create {q : Request} {c : Chain} {p : Plan} (H : e.CachesOnce)
    (H' : (e.create q c p).2.CachesOnce) (hd : p.decl.index < e.decls.size) :
    (e.create q c p).2.Caches j ↔ e.Caches j ∨ j = ⟨e.insts.size⟩ := by
  rw [caches_iff H, caches_iff H', cache_create hd]
  constructor
  · rintro ⟨d, h, hj⟩
    by_cases hdp : d = p.decl
    · subst hdp
      rw [Function.update_self, InstanceCache.mem_bucket_insert] at hj
      exact hj.imp (fun hj => ⟨_, h, hj⟩) And.right
    · rw [Function.update_of_ne hdp] at hj
      exact .inl ⟨d, h, hj⟩
  · rintro (⟨d, h, hj⟩ | rfl)
    · refine ⟨d, h, ?_⟩
      by_cases hdp : d = p.decl
      · subst hdp
        rw [Function.update_self, InstanceCache.mem_bucket_insert]
        exact .inl hj
      · rwa [Function.update_of_ne hdp]
    · refine ⟨p.decl, e.config.digest p.deduction.args p.enclosing, ?_⟩
      rw [Function.update_self, InstanceCache.mem_bucket_insert]
      exact .inr ⟨rfl, rfl⟩

/-- Of the cached instances the one that fails with its mark goes. -/
theorem caches_fail (H : e.CachesOnce) (hf : e.FiledOnce) (hx : e.inst? i = some x)
    (hg : x.gagged = true) {reason : String} {span : Span} {c : Chain} :
    (e.fail names i reason span c).2.Caches j ↔ e.Caches j ∧ j ≠ i := by
  have H' : (e.fail names i reason span c).2.CachesOnce := H.keeps (fail_keeps e i)
  rw [caches_iff H, caches_iff H']
  constructor
  · rintro ⟨d, h, hj⟩
    refine ⟨⟨d, h, ((fail_keeps e i).bucket h (H.keyed d)).subset hj⟩, ?_⟩
    rintro rfl
    exact notMem_bucket_fail hf H hx hg d h hj
  · rintro ⟨⟨d, h, hj⟩, hji⟩
    refine ⟨d, h, ?_⟩
    rw [cache_fail hx, if_pos hg]
    by_cases hd : d = x.decl
    · subst hd
      rw [Function.update_self, InstanceCache.bucket_erase (H.keyed _)]
      split
      · exact (List.mem_erase_of_ne hji).mpr hj
      · exact hj
    · rwa [Function.update_of_ne hd]

/-- A request takes an instance that is new or cached. -/
theorem takes?_eq_some (H : e.CachesOnce) {q : Request} {c : Chain} {p : Plan}
    (h : e.takes? names q c p = some i) : i.index = e.insts.size ∨ e.Caches i := by
  unfold takes? at h
  split at h
  · cases h
  · next hc =>
    split at h
    · cases h
      exact .inl rfl
    · next j e' ha =>
      cases h
      cases finds_of_answer? ha with
      | reference hf | defer hf => cases hc.symm.trans hf
      | cached _ hl =>
        rw [lookup_eq] at hl
        exact .inr ((caches_iff H).mpr ⟨_, _, List.mem_of_find?_eq_some hl⟩)
    · cases h

end Engine

namespace Service

/-- In the step a cached instance fails that only speculative requests have asked for. -/
def Discards (svc : Service σ) (m : Machine σ α) (i : InstanceId) : Prop :=
  (∃ o d, svc.Fails m i o d) ∧ m.engine.gagged? i = some true ∧ m.engine.Caches i

/-- What a step can do to the caches and their counters. -/
inductive Files (svc : Service σ) (m : Machine σ α) (e : Engine) : Prop
  | same : (∀ i, ¬svc.Discards m i) → e.cache = m.engine.cache → e.tally = m.engine.tally →
    Files svc m e
  | create {q : Request} {c : Chain} {p : Plan} : (∀ i, ¬svc.Discards m i) →
    p.decl.index < m.engine.decls.size → e = (m.engine.create q c p).2 → Files svc m e
  | discard {i : InstanceId} {names : SymbolId → String} {reason : String} {span : Span}
    {c : Chain} : svc.Discards m i → e.cache = (m.engine.fail names i reason span c).2.cache →
    e.tally = (m.engine.fail names i reason span c).2.tally → Files svc m e

variable {svc : Service σ} {r : Run σ} {ws : List (Waiting σ α)} {c : Control σ α}
  {m : Machine σ α} {i j : InstanceId}

/-! ## Steps -/

theorem tally_giveAnswer {e : Engine} {s : σ} {call : Call} {a : Except TemplateError InstanceId} :
    (giveAnswer ⟨e, s⟩ call a ws).engine.tally = e.tally := by
  cases ws with
  | nil => rfl
  | cons w ws => cases h : call.mark <;> simp [giveAnswer, h] <;> rfl

theorem Fails.unique {o o' : InstanceId} {d d' : Diagnostic} (h : svc.Fails m i o d)
    (h' : svc.Fails m j o' d') : i = j := by
  obtain ⟨r, c, ws⟩ := m
  cases h with
  | elaborate hc | resume hc =>
    cases hc
    rcases h' with h' | h' <;> cases h'
    rfl

/-- What fails is there. -/
theorem Fails.exists_inst {o : InstanceId} {d : Diagnostic} (h : svc.Fails m i o d)
    (H : m.Held) : ∃ x, m.engine.inst? i = some x := by
  obtain ⟨r, c, ws⟩ := m
  cases h with
  | elaborate hc =>
    cases hc
    obtain ⟨x, hx, -⟩ := Engine.progress?_eq_some_iff.mp (H.elaborating List.mem_cons_self)
    exact ⟨x, hx⟩
  | resume hc =>
    cases hc
    obtain ⟨_, _, hprogress, -⟩ := H.resuming List.mem_cons_self
    obtain ⟨x, hx, -⟩ := Engine.progress?_eq_some_iff.mp hprogress
    exact ⟨x, hx⟩

/-- An instance fails. -/
theorem Files.of_fails {o : InstanceId} {d : Diagnostic} {names : SymbolId → String}
    {reason : String} {span : Span} {c : Chain} {e : Engine}
    (h : svc.Fails m i o d) (hc : m.engine.CachesOnce) (hheld : m.Held)
    (hcache : e.cache = (m.engine.fail names i reason span c).2.cache)
    (htally : e.tally = (m.engine.fail names i reason span c).2.tally) : svc.Files m e := by
  obtain ⟨x, hx⟩ := h.exists_inst hheld
  by_cases hd : svc.Discards m i
  · exact .discard hd hcache htally
  · have hspares : x.gagged = true → i ∉ (m.engine.cache x.decl).bucket x.digest := by
      intro hg hi
      refine hd ⟨⟨o, d, h⟩, ?_, (Engine.caches_iff hc).mpr ⟨_, _, hi⟩⟩
      rw [Engine.gagged?, hx, Option.map_some, hg]
    obtain ⟨hsame, hcounts⟩ : (m.engine.fail names i reason span c).2.cache = _ ∧ _ :=
      Engine.fail_spares hx hspares
    refine .same (fun j hj => ?_) (hcache.trans hsame) (htally.trans hcounts)
    obtain ⟨_, _, hfails⟩ := hj.1
    exact hd (h.unique hfails ▸ hj)

theorem Steps.files (hl : r.engine.Linked) (hc : r.engine.CachesOnce)
    (hp : (⟨r, c, ws⟩ : Machine σ α).Planned) (hheld : (⟨r, c, ws⟩ : Machine σ α).Held)
    (h : svc.Steps r ws c m) : svc.Files ⟨r, c, ws⟩ m.engine := by
  have hstage {st : Stage} (i : InstanceId) : ¬svc.Discards (⟨r, .stage st, ws⟩ : Machine σ α) i := by
    rintro ⟨⟨o, d, h | h⟩, -⟩ <;> cases h
  cases h with
  | unresolved | refuse =>
    exact .same hstage (cache_giveAnswer.trans (Engine.reject_quiet ..).cache) tally_giveAnswer
  | undeclared => cases ws <;> exact .same hstage rfl rfl
  | answer _ ha =>
    exact .same hstage (cache_giveAnswer.trans (Engine.cache_answer? ha))
      (tally_giveAnswer.trans (Engine.tally_answer? ha))
  | create h ha =>
    have hplans : r.engine.Plans svc.toSemantics _ _ := ⟨hp rfl, _, _, congrArg Prod.fst h⟩
    exact .create hstage (hplans.decl_lt hl) rfl
  | finish => exact .same hstage cache_giveAnswer tally_giveAnswer
  | openScope | release | wake => exact .same hstage rfl (Engine.tally_modifyInst _)
  | resolve | elaborate | resume => exact .same hstage rfl rfl
  | suspend =>
    refine .same ?_ rfl (Engine.tally_modifyInst _)
    rintro i ⟨⟨o, d, h | h⟩, -⟩ <;> cases h
  | complete =>
    refine .same ?_ rfl (Engine.tally_takeDeferred.trans (Engine.tally_modifyInst _))
    rintro i ⟨⟨o, d, h | h⟩, -⟩ <;> cases h
  | fail hf =>
    obtain rfl := congrArg Prod.snd hf
    exact .of_fails (.elaborate rfl) hc hheld rfl Engine.tally_takeDeferred
  | @settle _ _ _ _ result _ _ hs =>
    subst hs
    cases result with
    | ok =>
      refine .same ?_ rfl (Engine.tally_takeDeferred.trans (Engine.tally_modifyInst _))
      rintro i ⟨⟨o, d, h | h⟩, -⟩ <;> cases h
    | error =>
      exact .of_fails (.resume rfl) hc hheld rfl Engine.tally_takeDeferred
  | command hcmd =>
    refine .same ?_ (Command.run_quiet hl _ hcmd).cache (Engine.tally_run _)
    rintro i ⟨⟨o, d, h | h⟩, -⟩ <;> cases h
  | @request _ _ q =>
    refine .same ?_ openCall_quiet.cache ?_
    · rintro i ⟨⟨o, d, h | h⟩, -⟩ <;> cases h
    · obtain ⟨_, h⟩ := r.engine.opened_frame q
      rw [openCall_eq, h]
      rfl
  | done | halt | read | service | dangling | unasked =>
    refine .same ?_ rfl rfl
    rintro i ⟨⟨o, d, h | h⟩, -⟩ <;> cases h

theorem eq_plan_of_takes {call : Call} (h : svc.takes m = some (call, i)) : ∃ resolved p s,
    m.control = .stage (.plan call resolved) ∧
      m.engine.takes? (svc.symbolName s) call.request call.chain p = some i := by
  unfold takes at h
  split at h
  · next call' resolved hc =>
    split at h
    · cases h
    · next p s _ =>
      obtain ⟨j, hj, he⟩ := Option.map_eq_some_iff.mp h
      cases he
      exact ⟨resolved, p, s, hc, hj⟩
  · cases h

/-- A request only takes the mark of an instance that is new or cached. -/
theorem Leaves.gagged? {e : Engine} (h : svc.Leaves m e) (hc : m.engine.CachesOnce)
    (hi : ¬m.engine.Caches i ∨ ∃ o d, svc.Fails m i o d) (hg : m.engine.gagged? i = some true) :
    e.gagged? i = some true := by
  have husage {e : Engine} (h : e.usage? i = m.engine.usage? i) : e.gagged? i = some true := by
    have := congrArg (Option.map Usage.gagged) h
    unfold Engine.usage? at this
    rw [Option.map_map, Option.map_map] at this
    exact this.trans hg
  cases h with
  | same _ h => exact husage (h.usage i)
  | claim _ _ h =>
    rw [h]
    exact (Engine.claimCodegen_gagged? ..).trans hg
  | @take call j hj h =>
    refine husage ((h.usage i).trans (if_neg ?_))
    rintro rfl
    obtain ⟨resolved, p, s, hcontrol, htakes⟩ := eq_plan_of_takes hj
    obtain hnew | hcached := Engine.takes?_eq_some hc htakes
    · have hthere : m.engine.gagged? i ≠ none := by
        rw [hg]
        nofun
      exact hthere (Engine.gagged?_eq_none_iff.mpr hnew.ge)
    · obtain hi | ⟨o, d, h | h⟩ := hi
      · exact hi hcached
      all_goals cases hcontrol.symm.trans h

/-! ## Runs -/

section

variable (svc) {config : EngineConfig} {s : σ} {p : Program σ α} {k n : Nat}

theorem files_after (n : Nat) : svc.Files (svc.after n (.boot config s p))
    (svc.after (n + 1) (.boot config s p)).engine := by
  rw [after_succ]
  exact (step_steps _).files (linked_after svc n) (cachesOnce_after svc n) (planned_after svc n)
    (held_after svc n)

theorem tallied_after (n : Nat) : (svc.after n (.boot config s p)).engine.Tallied := by
  induction n with
  | zero => exact .init config
  | succ n ih =>
    have H : (svc.after n (.boot config s p)).engine.CachesOnce := cachesOnce_after svc n
    have hfiles : svc.Files (svc.after n (.boot config s p)) _ := files_after svc n
    cases hfiles with
    | same _ hcache htally => exact ih.of_cache hcache htally
    | create _ hd he =>
      rw [he]
      exact ih.create H.keyed hd
    | discard hi hcache htally =>
      obtain ⟨-, hg, hcached⟩ := hi
      obtain ⟨x, hx, hgx⟩ := Option.map_eq_some_iff.mp hg
      exact (ih.fail hx hgx (hcached.mem_bucket H hx)).of_cache hcache htally

/-- What a step does to the instances that were there. -/
theorem caches_succ_iff (hi : i.index < (svc.after n (.boot config s p)).engine.insts.size) :
    (svc.after (n + 1) (.boot config s p)).engine.Caches i ↔
      (svc.after n (.boot config s p)).engine.Caches i ∧
        ¬svc.Discards (svc.after n (.boot config s p)) i := by
  have H : (svc.after n (.boot config s p)).engine.CachesOnce := cachesOnce_after svc n
  have H' : (svc.after (n + 1) (.boot config s p)).engine.CachesOnce := cachesOnce_after svc (n + 1)
  have hfiles : svc.Files (svc.after n (.boot config s p)) _ := files_after svc n
  cases hfiles with
  | same hno hcache => rw [Engine.caches_congr H H' hcache, and_iff_left (hno i)]
  | create hno hd he =>
    rw [he] at H' ⊢
    rw [Engine.caches_create H H' hd, and_iff_left (hno i), or_iff_left]
    rintro rfl
    exact Nat.lt_irrefl _ hi
  | @discard j names reason span c hj hcache =>
    obtain ⟨⟨o, d, hfails⟩, hg, -⟩ := id hj
    obtain ⟨x, hx, hgx⟩ := Option.map_eq_some_iff.mp hg
    have Hf : ((svc.after n (.boot config s p)).engine.fail names j reason span c).2.CachesOnce :=
      H.keeps (Engine.fail_keeps ..)
    rw [Engine.caches_congr Hf H' hcache, Engine.caches_fail H (filedOnce_after svc n) hx hgx]
    refine and_congr_right fun _ => not_congr ⟨?_, ?_⟩
    · rintro rfl
      exact hj
    · rintro ⟨⟨_, _, h⟩, -⟩
      exact h.unique hfails

/-- A new instance is cached. -/
theorem caches_of_new (hold : (svc.after n (.boot config s p)).engine.insts.size ≤ i.index)
    (hi : i.index < (svc.after (n + 1) (.boot config s p)).engine.insts.size) :
    (svc.after (n + 1) (.boot config s p)).engine.Caches i := by
  have H' : (svc.after (n + 1) (.boot config s p)).engine.CachesOnce := cachesOnce_after svc (n + 1)
  obtain ⟨x, hx⟩ := Engine.inst?_eq_some_iff.mpr hi
  refine (Engine.caches_iff H').mpr ⟨x.origin.decl, x.origin.digest, ?_⟩
  have hx := Engine.origins_eq_some hx
  rw [after_succ] at hx ⊢
  exact ((step_steps _).becomes (linked_after svc n) (planned_after svc n)).filed
    (linked_after svc n) (Engine.origins_eq_none_iff.mpr hold) hx

/-- An instance is missing from the cache of its declaration exactly if it was discarded. -/
theorem not_caches_after_iff (hi : i.index < (svc.after n (.boot config s p)).engine.insts.size) :
    ¬(svc.after n (.boot config s p)).engine.Caches i ↔
      ∃ k < n, svc.Discards (svc.after k (.boot config s p)) i := by
  induction n with
  | zero => exact absurd hi (Nat.not_lt_zero _)
  | succ n ih =>
    by_cases hold : i.index < (svc.after n (.boot config s p)).engine.insts.size
    · rw [caches_succ_iff svc hold, not_and_not_right, imp_iff_not_or, ih hold]
      simp only [Nat.lt_succ_iff_lt_or_eq, or_and_right, exists_or, exists_eq_left]
    · refine iff_of_false (not_not_intro (caches_of_new svc (Nat.not_lt.mp hold) hi)) ?_
      rintro ⟨k, hk, -, -, x, hx, -⟩
      have := Engine.inst?_eq_some_iff.mp ⟨x, hx⟩
      exact hold (this.trans_le (later_after svc (Nat.lt_succ_iff.mp hk)).insts_size_le)

open Classical in
/-- The counter counts the instances that were discarded. -/
theorem evicted_after : (svc.after n (.boot config s p)).engine.stats.evicted =
    Nat.count (fun k => ∃ i, svc.Discards (svc.after k (.boot config s p)) i) n := by
  induction n with
  | zero => rfl
  | succ n ih =>
    have H : (svc.after n (.boot config s p)).engine.CachesOnce := cachesOnce_after svc n
    have hfiles : svc.Files (svc.after n (.boot config s p)) _ := files_after svc n
    rw [Nat.count_succ, ← ih]
    cases hfiles with
    | same hno _ htally =>
      rw [if_neg (fun ⟨i, hi⟩ => hno i hi)]
      exact congrArg Tally.evicted htally
    | create hno _ he =>
      rw [if_neg (fun ⟨i, hi⟩ => hno i hi), he]
      rfl
    | @discard i _ _ _ _ hi _ htally =>
      rw [if_pos ⟨i, hi⟩]
      obtain ⟨-, hg, hcached⟩ := hi
      obtain ⟨x, hx, hgx⟩ := Option.map_eq_some_iff.mp hg
      have hmem := hcached.mem_bucket H hx
      exact congrArg Tally.evicted (htally.trans (Engine.fail_discards hx hgx hmem).1)

/-- Nothing takes the mark of an instance that has left its cache. -/
theorem gagged?_of_not_caches (hi : i.index < (svc.after n (.boot config s p)).engine.insts.size)
    (h : ¬(svc.after n (.boot config s p)).engine.Caches i) :
    (svc.after n (.boot config s p)).engine.gagged? i = some true := by
  induction n with
  | zero => exact absurd hi (Nat.not_lt_zero _)
  | succ n ih =>
    have hleaves : svc.Leaves (svc.after n (.boot config s p))
        (svc.after (n + 1) (.boot config s p)).engine := by
      rw [after_succ]
      exact step_leaves _
    have hold : i.index < (svc.after n (.boot config s p)).engine.insts.size := by
      by_contra hold
      exact h (caches_of_new svc (Nat.not_lt.mp hold) hi)
    rw [caches_succ_iff svc hold, not_and_not_right] at h
    by_cases hcached : (svc.after n (.boot config s p)).engine.Caches i
    · obtain ⟨hfails, hg, -⟩ := h hcached
      exact hleaves.gagged? (cachesOnce_after svc n) (.inr hfails) hg
    · exact hleaves.gagged? (cachesOnce_after svc n) (.inl hcached) (ih hold hcached)

/-- A failed instance that is still cached failed without the mark of speculation. -/
theorem memoized_after (hi : (svc.after n (.boot config s p)).engine.Caches i)
    (hs : (svc.after n (.boot config s p)).engine.arena.state? i = some .errored) :
    ∃ k < n, (∃ o d, svc.Fails (svc.after k (.boot config s p)) i o d) ∧
      (svc.after k (.boot config s p)).engine.gagged? i = some false := by
  induction n with
  | zero =>
    obtain ⟨x, hx, -⟩ := hi
    exact absurd (Engine.inst?_eq_some_iff.mp ⟨x, hx⟩) (Nat.not_lt_zero _)
  | succ n ih =>
    rw [after_succ] at hs
    obtain hs | hfails := (step_steps _).errored (linked_after svc n) hs
    · have hold : i.index < (svc.after n (.boot config s p)).engine.insts.size := by
        by_contra h
        rw [Arena.state?, Engine.arena_eq_none_iff.mpr (Nat.not_lt.mp h)] at hs
        cases hs
      obtain ⟨k, hk, h⟩ := ih ((caches_succ_iff svc hold).mp hi).1 hs
      exact ⟨k, Nat.lt_succ_of_lt hk, h⟩
    · refine ⟨n, Nat.lt_succ_self n, hfails, ?_⟩
      obtain ⟨o, d, hfail⟩ := id hfails
      obtain ⟨x, hx⟩ := hfail.exists_inst (held_after svc n)
      have hold := Engine.inst?_eq_some_iff.mp ⟨x, hx⟩
      obtain ⟨hcached, hkept⟩ := (caches_succ_iff svc hold).mp hi
      cases hg : x.gagged with
      | false => rw [Engine.gagged?, hx, Option.map_some, hg]
      | true =>
        refine absurd ⟨hfails, ?_, hcached⟩ hkept
        rw [Engine.gagged?, hx, Option.map_some, hg]

end

end Service

end Templates
