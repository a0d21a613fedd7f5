import Templates.Proofs.Caching.Buckets
import Templates.Proofs.Engine.Effects

/-!
# What the engine keeps

Whatever becomes of an instance, it remains the one that was made (`Instance.origin`), and it is put
in a cache only when it is made. `Engine.Keeps` says so of two engines. Every operation but
`Engine.create` keeps what there is, with whatever chain it is called.
-/

namespace Templates

/-- The instance as it was when it was made. -/
def Instance.origin (x : Instance) : Instance :=
  { x.core with
    state := .elaborating
    members := none
    aliasMember := none
    deferred := []
    waitingOn := 0 }

namespace Engine

/-- The instances as they were when they were made. -/
def origins (e : Engine) : Arena := fun i => (e.inst? i).map Instance.origin

/-- No instance was made, and none was put in a cache. -/
structure Keeps (e e' : Engine) : Prop extends e.Grows e' where
  origins : e'.origins = e.origins
  keyed {d : DeclId} : (e.cache d).Keyed → (e'.cache d).Keyed
  bucket {d : DeclId} (h : Digest) :
    (e.cache d).Keyed → ((e'.cache d).bucket h).Sublist ((e.cache d).bucket h)

variable {e e' e'' : Engine} {i : InstanceId} {x : Instance}

theorem origins_eq_some (h : e.inst? i = some x) : e.origins i = some x.origin := by
  rw [origins, h, Option.map_some]

theorem origins_eq_none_iff : e.origins i = none ↔ e.insts.size ≤ i.index := by
  simp [origins, inst?]

theorem map_origin_arena (e : Engine) (i : InstanceId) :
    (e.arena i).map Instance.origin = e.origins i := Option.map_map ..

theorem origins_create {q : Request} {c : Chain} {p : Plan} : (e.create q c p).2.origins =
    e.origins.put ⟨e.insts.size⟩ (e.made q c p) := by
  funext j
  rw [← map_origin_arena, arena_create]
  by_cases h : j = ⟨e.insts.size⟩
  · rw [h, Arena.put_self, Arena.put_self]
    rfl
  · rw [Arena.put_of_ne h, Arena.put_of_ne h, map_origin_arena]

namespace Keeps

@[refl] theorem refl (e : Engine) : Keeps e e := ⟨.refl e, rfl, id, fun _ _ => .refl _⟩

@[trans] theorem trans (h : Keeps e e') (h' : Keeps e' e'') : Keeps e e'' where
  toGrows := h.toGrows.trans h'.toGrows
  origins := h'.origins.trans h.origins
  keyed H := h'.keyed (h.keyed H)
  bucket k H := (h'.bucket k (h.keyed H)).trans (h.bucket k H)

theorem of_cache (hg : e.Grows e') (ho : e'.origins = e.origins) (hc : e'.cache = e.cache) :
    Keeps e e' where
  toGrows := hg
  origins := ho
  keyed H := by rwa [hc]
  bucket k _ := by rw [hc]

theorem modifyInst {f : Instance → Instance} (hf : ∀ x, (f x).origin = x.origin) :
    Keeps e (e.modifyInst i f) := by
  refine .of_cache (.of_eq rfl rfl) (funext fun j => ?_) rfl
  unfold Engine.origins
  rw [inst?_modifyInst]
  split
  · simp [Function.comp_def, hf]
  · rfl

end Keeps

theorem Quiet.keeps (h : e.Quiet e') : e.Keeps e' := by
  refine .of_cache h.toGrows (funext fun i => ?_) h.cache
  rw [← map_origin_arena, ← map_origin_arena, h.arena]

/-! ## What keeps -/

theorem defer_keeps (e : Engine) (i t : InstanceId) : e.Keeps (e.defer i t) := by
  obtain h | h := e.defer_cases i t <;> rw [h]
  refine .trans (.modifyInst ?_) (.modifyInst ?_) <;> exact fun _ => rfl

theorem takeDeferred_keeps (e : Engine) (i : InstanceId) : e.Keeps (e.takeDeferred i).2 :=
  .modifyInst fun _ => rfl

theorem release_keeps (e : Engine) (i : InstanceId) : e.Keeps (e.release i).2 :=
  .modifyInst fun _ => rfl

theorem complete_keeps (e : Engine) (i : InstanceId) (members : MemberTable) :
    e.Keeps (e.complete i members) := .modifyInst fun _ => rfl

theorem evict_keeps (e : Engine) (i : InstanceId) : e.Keeps (e.evict i) := by
  cases hx : e.inst? i with
  | none =>
    have h : e.evict i = e := by rw [evict, hx]
    rw [h]
  | some x =>
    have ho : (e.evict i).origins = e.origins := by
      unfold origins inst?
      rw [insts_evict]
    refine ⟨evict_grows e i, ho, fun {d} H => ?_, fun {d} k H => ?_⟩
    · rw [cache_evict hx]
      by_cases hd : d = x.decl
      · subst hd
        rw [Function.update_self]
        exact H.erase _ _
      · rwa [Function.update_of_ne hd]
    · rw [cache_evict hx]
      by_cases hd : d = x.decl
      · subst hd
        rw [Function.update_self, InstanceCache.bucket_erase H]
        split
        · exact List.erase_sublist
        · exact .refl _
      · rw [Function.update_of_ne hd]

theorem fail_keeps {names : SymbolId → String} {reason : String} {span : Span} {c : Chain}
    (e : Engine) (i : InstanceId) : e.Keeps (e.fail names i reason span c).2 := by
  rw [fail_eq]
  refine Keeps.trans ?_ (reject_quiet _ names _ c).keeps
  have herr : e.Keeps (e.errored i) := .modifyInst fun _ => rfl
  obtain hf | hf := e.failed_cases i <;> rw [hf]
  · exact herr
  · exact herr.trans (evict_keeps _ i)

theorem settle_keeps {names : SymbolId → String} {result : Except Failure Unit} (e : Engine)
    (i : InstanceId) : e.Keeps (e.settle names i result) := by
  cases result with
  | ok => exact .modifyInst fun _ => rfl
  | error f => exact fail_keeps e i

theorem answer?_keeps {names : SymbolId → String} {q : Request} {c : Chain} {p : Plan}
    {a : Except TemplateError InstanceId} (h : e.answer? names q c p = some (a, e')) :
    e.Keeps e' := by
  obtain h | ⟨f, -, i, -, -, rfl⟩ := answer?_cases h
  · exact h.keeps
  · exact defer_keeps ..

end Engine

end Templates
