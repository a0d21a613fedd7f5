import Templates.Proofs.Caching
import Templates.Proofs.Reporting.Errors
import Templates.Proofs.Reporting.Releases

/-!
# Failures that were reported

A failed instance that is found in a cache was reported (`Engine.Reported`). When its elaboration
failed outside every gag, this is so because the report was not gagged. When it failed after it was
released, it is so because an instance is made after those that it waits for: if the call that
released it lies in a gag, then it was made in that call (`Machine.Inward`), and is speculative.
-/

namespace Templates

variable {σ α : Type}

/-! ## Caches -/

namespace Engine

variable {e e' : Engine} {i j : InstanceId} {x : Instance}

theorem state?_takeDeferred (e : Engine) (i j : InstanceId) :
    (e.takeDeferred i).2.arena.state? j = e.arena.state? j := by
  rw [arena_takeDeferred, Arena.state?_alter]
  exact fun _ => rfl

/-- An instance stands in a cache once. -/
def FiledOnce (e : Engine) : Prop := ∀ d h, ((e.cache d).bucket h).Nodup

/-- Errors were counted if a cached instance has failed. -/
def Reported (e : Engine) : Prop :=
  ∀ ⦃d h i⦄, i ∈ (e.cache d).bucket h → e.arena.state? i = some .errored → 0 < e.queue.errorCount

theorem FiledOnce.keeps (H : e.FiledOnce) (hk : ∀ d, (e.cache d).Keyed) (h : e.Keeps e') :
    e'.FiledOnce := fun d k => (H d k).sublist (h.bucket k (hk d))

theorem FiledOnce.create (H : e.FiledOnce) (hc : e.CachesOnce) {q : Request} {c : Chain} {p : Plan}
    (hd : p.decl.index < e.decls.size) : (e.create q c p).2.FiledOnce := by
  intro d h
  rw [cache_create hd]
  by_cases hd' : d = p.decl
  · subst hd'
    rw [Function.update_self]
    by_cases hh : h = e.config.digest p.deduction.args p.enclosing
    · subst hh
      rw [InstanceCache.bucket_insert_self]
      refine (H _ _).append (List.nodup_singleton _) ?_
      rw [List.disjoint_singleton]
      intro hi
      obtain ⟨y, hy, -⟩ := hc.owned hi
      have hnone : e.origins ⟨e.insts.size⟩ = none := origins_eq_none_iff.mpr (Nat.le_refl _)
      cases hnone.symm.trans hy
    · rw [InstanceCache.bucket_insert_of_ne _ _ hh]
      exact H _ _
  · rw [Function.update_of_ne hd']
    exact H _ _

/-- A speculative instance that fails is in no cache any more. -/
theorem notMem_bucket_fail (H : e.FiledOnce) (hc : e.CachesOnce) (hx : e.inst? i = some x)
    (hg : x.gagged = true) {names : SymbolId → String} {reason : String} {span : Span} {c : Chain}
    (d : DeclId) (h : Digest) : i ∉ ((e.fail names i reason span c).2.cache d).bucket h := by
  intro hi
  obtain ⟨y, hy, rfl, rfl⟩ := hc.owned
    (List.Sublist.mem hi ((fail_keeps e i).bucket h (hc.keyed d)))
  obtain rfl := Option.some.inj ((origins_eq_some hx).symm.trans hy)
  change i ∈ ((e.fail names i reason span c).2.cache x.decl).bucket x.digest at hi
  rw [cache_fail hx, if_pos hg, Function.update_self, InstanceCache.bucket_erase (hc.keyed _),
    if_pos rfl] at hi
  exact (H _ _).not_mem_erase hi

namespace Reported

theorem keeps (H : e.Reported) (hk : ∀ d, (e.cache d).Keyed) (h : e.Keeps e')
    (hs : ∀ i, e'.arena.state? i = some .errored → e.arena.state? i = some .errored)
    (hr : e.Remembers e') : e'.Reported := fun d k i hi he =>
  hr.pos (H (List.Sublist.mem hi (h.bucket k (hk d))) (hs i he))

/-- The failure of an instance that is not speculative is reported outside every gag. -/
theorem fail (H : e.Reported) (hf : e.FiledOnce) (hc : e.CachesOnce) (hq : e.queue.Counted)
    (hg : e.gagged? i = some false → e.isGagged = false) {names : SymbolId → String}
    {reason : String} {span : Span} {c : Chain} : (e.fail names i reason span c).2.Reported := by
  intro d k j hj he
  have hremembers : e.Remembers (e.fail names i reason span c).2 := fail_remembers ..
  by_cases hgag : e.gagged? i = some false
  · rw [queue_fail]
    exact hq.pos_of_add rfl (hg hgag)
  · have hne : j ≠ i := by
      rintro rfl
      obtain ⟨x, hx⟩ : ∃ x, e.inst? j = some x := by
        rw [inst?_eq_some_iff, ← insts_errored_size, ← insts_fail, ← inst?_eq_some_iff]
        rw [state?_arena] at he
        exact (Option.map_eq_some_iff.mp he).imp fun _ => And.left
      have hmark : x.gagged = true := by simpa [gagged?, hx] using hgag
      exact notMem_bucket_fail hf hc hx hmark d k hj
    have hold : e.arena.state? j = some .errored := by
      rwa [arena_fail, Arena.state?_alter_of_ne hne] at he
    exact hremembers.pos (H (List.Sublist.mem hj ((fail_keeps e i).bucket k (hc.keyed d))) hold)

end Reported

end Engine

namespace Service

variable {svc : Service σ} {r : Run σ} {ws : List (Waiting σ α)} {c : Control σ α}
  {m : Machine σ α} {i : InstanceId}

/-! ## Marks and failures -/

variable (svc) in
/-- The instances of the calls that go on have their marks from the gags in which they were made. -/
structure Marked (m : Machine σ α) : Prop where
  releases {x : Release} : x ∈ m.releases →
    ∃ d ≤ m.engine.queue.gagDepth, m.engine.MadeAt d x.outcome.inst
  fails {i o : InstanceId} {d : Diagnostic} :
    svc.Fails m i o d → m.engine.MadeAt m.engine.queue.gagDepth o

theorem marked_of_bracketed {call₀ : Call} {d₀ : Nat}
    {next : Except TemplateError InstanceId → Program σ α}
    (H : m.Bracketed call₀ d₀ ⟨.client, next⟩ []) : svc.Marked m where
  fails h := h.madeAt H
  releases {x} hx := by
    have houter {e : Engine} {call : Call} {d : Nat} {ws : List (Waiting σ α)}
        (H : Waiting.Bracketed e call₀ d₀ ⟨.client, next⟩ [] call d ws)
        (hx : x ∈ (ws.map (·.role)).filterMap Role.release?) :
        ∃ d' ≤ d, e.MadeAt d' x.outcome.inst := by
      obtain ⟨role, hrole, hr⟩ := List.mem_filterMap.mp hx
      obtain ⟨w, hw, rfl⟩ := List.mem_map.mp hrole
      have hmade : ∃ call', w.role.made? = some (call', x.outcome.inst) := by
        generalize w.role = role at hr ⊢
        cases role <;> cases hr
        exact ⟨_, rfl⟩
      obtain ⟨call', hmade⟩ := hmade
      obtain h | h := H.madeAt_of_mem hw hmade
      · obtain rfl := List.mem_singleton.mp h
        cases hmade
      · exact h
    cases H with
    | @stage _ s _ d H hi hd =>
      obtain h | h := mem_releases_stage.mp hx
      · refine ⟨_, hd.ge, hi _ ?_⟩
        cases s <;> cases h <;> rfl
      · obtain ⟨d', hd', h⟩ := houter H h
        exact ⟨d', hd'.trans (hd ▸ le_depth _ d), h⟩
    | @program r role _ _ call i d k hrole H hi hp hd =>
      have hle : call.depth d ≤ r.engine.queue.gagDepth := by omega
      obtain h | h := mem_releases_program.mp hx
      · have : role.made? = some (call, x.outcome.inst) := by
          cases role <;> cases h
          cases hrole
          rfl
        rw [hrole] at this
        cases this
        exact ⟨_, hle, hi⟩
      · obtain ⟨d', hd', h⟩ := houter H h
        exact ⟨d', hd'.trans ((le_depth _ d).trans hle), h⟩

theorem marked_of_atTop (H : m.AtTop) : svc.Marked m := by
  obtain ⟨r, c, ws⟩ := m
  obtain ⟨rfl, p, rfl⟩ := H
  constructor
  · rintro x ⟨⟩
  · rintro i o d (h | h) <;> cases h

/-- An instance that fails inside a gag is speculative. -/
theorem Fails.isGagged {o : InstanceId} {d : Diagnostic} (h : svc.Fails m i o d)
    (H : svc.Marked m) (hl : m.Inward) (hg : m.engine.gagged? i = some false) :
    m.engine.isGagged = false := by
  have hle : o.index ≤ i.index := by
    obtain ⟨r, c, ws⟩ := m
    cases h with
    | elaborate => exact Nat.le_refl _
    | resume hc =>
      cases hc
      exact hl.hand _ (mem_releases_program.mpr (.inl rfl)) i List.mem_cons_self
  rw [Engine.isGagged_eq_false_iff]
  by_contra hd
  cases (H.fails h).speculative (Nat.pos_of_ne_zero hd) hle hg

/-! ## Steps -/

/-- As long as a call goes on in a gag, its instance keeps its mark. -/
theorem Steps.unmarked {d : Nat} (h : svc.Steps r ws c m) (hi : r.engine.MadeAt d i)
    (hd : d ≤ r.engine.queue.gagDepth) (hg : m.engine.gagged? i = some false) :
    r.engine.gagged? i = some false := by
  obtain ⟨e, hm, he⟩ := h.marks
  rw [he] at hg
  obtain hk | ⟨hn, -⟩ := hm.kept hi.gagged?
  · rw [hi.gagged?, ← hk, hg]
  · rw [Engine.isGagged_eq_false_iff] at hn
    exact hi.plain (by omega)

theorem step_blamed {m : Machine σ α} (H : svc.Marked m) (hl : m.Inward)
    (hq : m.engine.queue.Counted) (hr : m.engine.Remembers (svc.step m).engine) (hb : m.Blamed) :
    (svc.step m).Blamed := by
  intro x hx err herr hg
  have h : svc.Steps m.run m.waiting m.control (svc.step m) := step_steps m
  cases h.released hx with
  | before hy ho =>
    obtain ⟨d, hd, hm⟩ := H.releases hy
    rw [ho] at herr hg
    exact hr.pos (hb _ hy err herr (h.unmarked hm hd hg))
  | ended _ hh hfail =>
    obtain ⟨d, hfail⟩ := hfail err herr
    have hgag := hfail.isGagged H hl (h.unmarked (H.fails hfail) (Nat.le_refl _) hg)
    rw [hfail.queue]
    exact hq.pos_of_add hfail.code.2 hgag

/-- An instance is not errored until it fails. -/
theorem Steps.errored (h : svc.Steps r ws c m) (hl : r.engine.Linked)
    (hi : m.engine.arena.state? i = some .errored) :
    r.engine.arena.state? i = some .errored ∨ ∃ o d, svc.Fails (⟨r, c, ws⟩ : Machine σ α) i o d := by
  have hquiet {e : Engine} (h : r.engine.Quiet e) (hi : e.arena.state? i = some .errored) :
      r.engine.arena.state? i = some .errored := by
    rwa [h.arena] at hi
  have htaken {e : Engine} {j : InstanceId}
      (hi : (e.takeDeferred j).2.arena.state? i = some .errored) :
      e.arena.state? i = some .errored := by
    rwa [Engine.state?_takeDeferred] at hi
  have hcomplete {j : InstanceId} {members : MemberTable}
      (hi : (r.engine.complete j members).arena.state? i = some .errored) :
      r.engine.arena.state? i = some .errored := by
    rw [Engine.arena_complete] at hi
    refine Arena.state?_of_alter (fun x hs => ?_) hi
    dsimp only at hs
    split at hs <;> cases hs
  cases h with
  | unresolved | refuse =>
    rw [arena_giveAnswer] at hi
    exact .inl (hquiet (Engine.reject_quiet ..) hi)
  | answer _ ha =>
    rw [arena_giveAnswer] at hi
    obtain h | ⟨f, -, j, -, -, rfl⟩ := Engine.answer?_cases ha
    · exact .inl (hquiet h hi)
    · exact .inl (Engine.state?_defer .. ▸ hi)
  | finish =>
    rw [arena_giveAnswer] at hi
    exact .inl hi
  | undeclared => cases ws <;> exact .inl hi
  | create =>
    rw [Engine.arena_create, Arena.state?_put] at hi
    split at hi
    · cases hi
    · exact .inl hi
  | openScope =>
    refine .inl (hquiet (.modifyInst ?_) hi)
    exact fun _ => rfl
  | release | wake => exact .inl (Engine.state?_release .. ▸ hi)
  | suspend => exact .inl (hcomplete hi)
  | complete => exact .inl (hcomplete (htaken hi))
  | @fail _ _ j _ _ _ _ hf =>
    obtain rfl := congrArg Prod.snd hf
    by_cases hj : i = j
    · subst hj
      exact .inr ⟨_, _, .elaborate rfl⟩
    · have := htaken hi
      rw [Engine.arena_fail, Arena.state?_alter_of_ne hj] at this
      exact .inl this
  | @settle _ _ w _ result _ _ hs =>
    subst hs
    have htaken := htaken hi
    rw [Engine.arena_settle] at htaken
    cases result with
    | ok =>
      refine .inl (Arena.state?_of_alter (fun x hs => ?_) htaken)
      cases hs
    | error =>
      by_cases hw : i = w
      · subst hw
        exact .inr ⟨_, _, .resume rfl⟩
      · rw [Arena.state?_alter_of_ne hw] at htaken
        exact .inl htaken
  | command hc => exact .inl (hquiet (Command.run_quiet hl _ hc) hi)
  | request => exact .inl (hquiet openCall_quiet hi)
  | resolve | elaborate | resume | done | halt | read | service | dangling | unasked => exact .inl hi

theorem step_reported {m : Machine σ α} (hl : m.engine.Linked) (hp : m.Planned)
    (hc : m.engine.CachesOnce) (hf : m.engine.FiledOnce) (hq : m.engine.queue.Counted)
    (hr : m.engine.Remembers (svc.step m).engine) (hm : svc.Marked m) (hinward : m.Inward)
    (H : m.engine.Reported) : (svc.step m).engine.Reported := by
  have htaken {e : Engine} (H : e.Reported) (hk : ∀ d, (e.cache d).Keyed) (j : InstanceId) :
      (e.takeDeferred j).2.Reported :=
    H.keeps hk (e.takeDeferred_keeps j) (fun i hi => by rwa [Engine.state?_takeDeferred] at hi)
      (.of_eq rfl rfl)
  by_cases hfail : ∃ i o d, svc.Fails m i o d
  · obtain ⟨i, o, d, hfail⟩ := hfail
    have hgag := hfail.isGagged hm hinward
    obtain ⟨r, c, ws⟩ := m
    have hkeys {names : SymbolId → String} {reason : String} {span : Span} {chain : Chain} :
        ∀ d, ((r.engine.fail names i reason span chain).2.cache d).Keyed :=
      fun d => (Engine.fail_keeps r.engine i).keyed (hc.keyed d)
    cases hfail with
    | elaborate h | resume h =>
      cases h
      exact htaken (H.fail hf hc hq hgag) hkeys i
  · have h : svc.Steps m.run m.waiting m.control (svc.step m) := step_steps m
    have hs {i : InstanceId} (hi : (svc.step m).engine.arena.state? i = some .errored) :
        m.engine.arena.state? i = some .errored :=
      (h.errored hl hi).resolve_right fun ⟨o, d, h⟩ => hfail ⟨i, o, d, h⟩
    have hb := h.becomes hl hp
    generalize (svc.step m).engine = e at hb hr hs ⊢
    cases hb with
    | keep hk => exact H.keeps hc.keyed hk (fun _ => hs) hr
    | @create q c p hplans _ =>
      intro d k i hi he
      rw [Engine.cache_create (hplans.decl_lt hl)] at hi
      have hold : i ∈ (m.engine.cache d).bucket k := by
        by_cases hd : d = p.decl
        · subst hd
          rw [Function.update_self] at hi
          obtain hi | ⟨-, rfl⟩ := InstanceCache.mem_bucket_insert.mp hi
          · exact hi
          · rw [Engine.arena_create, Arena.state?_eq Arena.put_self] at he
            cases he
        · rwa [Function.update_of_ne hd] at hi
      exact hr.pos (H hold (hs he))

end Service

end Templates
