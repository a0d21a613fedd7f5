import Mathlib.Logic.Function.Basic
import Templates.Proofs.Engine.Quiet

/-!
# What happens to an instance

The operations of the engine that are not quiet, each with what it does to the instances, to the
caches and to the declarations. An instance that is there is altered in place (`Arena.alter`); only
`Engine.create` adds one.
-/

namespace Templates

namespace Arena

variable {a : Arena} {i j : InstanceId} {x : Instance} {f g : Instance → Instance}

/-- The arena with `x` for the instance `i`. -/
def put (a : Arena) (i : InstanceId) (x : Instance) : Arena := Function.update a i (some x)

def alter (a : Arena) (i : InstanceId) (f : Instance → Instance) : Arena :=
  Function.update a i ((a i).map f)

def state? (a : Arena) (i : InstanceId) : Option InstanceState := (a i).map (·.state)

def waitingOn (a : Arena) (i : InstanceId) : Nat := ((a i).map (·.waitingOn)).getD 0

/-- The instances that wait for `i`. -/
def deferred (a : Arena) (i : InstanceId) : List InstanceId := ((a i).map (·.deferred)).getD []

def members? (a : Arena) (i : InstanceId) : Option MemberTable := (a i).bind (·.members)

theorem state?_eq (h : a i = some x) : a.state? i = some x.state := by
  rw [state?, h, Option.map_some]

theorem waitingOn_eq (h : a i = some x) : a.waitingOn i = x.waitingOn := by
  rw [waitingOn, h, Option.map_some, Option.getD_some]

theorem deferred_eq (h : a i = some x) : a.deferred i = x.deferred := by
  rw [deferred, h, Option.map_some, Option.getD_some]

theorem members?_eq (h : a i = some x) : a.members? i = x.members := by
  rw [members?, h, Option.bind_some]

theorem mem_deferred_iff : j ∈ a.deferred i ↔ ∃ x, a i = some x ∧ j ∈ x.deferred := by
  unfold deferred
  cases a i <;> simp

@[simp] theorem put_self : a.put i x i = some x := Function.update_self ..

@[simp] theorem put_of_ne (h : j ≠ i) : a.put i x j = a j := Function.update_of_ne h ..

theorem alter_eq_put (h : a i = some x) : a.alter i f = a.put i (f x) := by
  rw [alter, put, h, Option.map_some]

theorem alter_eq_some (h : a.alter i f j = some x) :
    ∃ y, a j = some y ∧ (j ≠ i ∧ y = x ∨ j = i ∧ x = f y) := by
  unfold alter at h
  by_cases hj : j = i
  · subst hj
    rw [Function.update_self] at h
    obtain ⟨y, hy, rfl⟩ := Option.map_eq_some_iff.mp h
    exact ⟨y, hy, .inr ⟨rfl, rfl⟩⟩
  · rw [Function.update_of_ne hj] at h
    exact ⟨x, h, .inl ⟨hj, rfl⟩⟩

theorem map_alter {β : Type} {k : Instance → β} (h : ∀ x, k (f x) = k x) (j : InstanceId) :
    (a.alter i f j).map k = (a j).map k := by
  unfold alter
  by_cases hj : j = i
  · subst hj
    rw [Function.update_self, Option.map_map]
    exact congrArg (Option.map · (a j)) (funext h)
  · rw [Function.update_of_ne hj]

theorem state?_alter (h : ∀ x, (f x).state = x.state) (j : InstanceId) :
    (a.alter i f).state? j = a.state? j := map_alter h j

theorem state?_alter_of_ne (h : j ≠ i) : (a.alter i f).state? j = a.state? j := by
  rw [state?, alter, Function.update_of_ne h, state?]

/-- An instance that was not altered into a state was in it before. -/
theorem state?_of_alter {s : InstanceState} (hf : ∀ x, (f x).state = s → x.state = s)
    (h : (a.alter i f).state? j = some s) : a.state? j = some s := by
  obtain ⟨x, hx, hs⟩ := Option.map_eq_some_iff.mp h
  obtain ⟨y, hy, ⟨-, rfl⟩ | ⟨-, rfl⟩⟩ := alter_eq_some hx
  · rw [state?_eq hy, hs]
  · rw [state?_eq hy, hf y hs]

theorem deferred_alter (h : ∀ x, (f x).deferred = x.deferred) (j : InstanceId) :
    (a.alter i f).deferred j = a.deferred j := congrArg (Option.getD · []) (map_alter h j)

theorem deferred_subset_alter (h : ∀ x, x.deferred ⊆ (f x).deferred) (j : InstanceId) :
    a.deferred j ⊆ (a.alter i f).deferred j := by
  unfold deferred alter
  by_cases hj : j = i
  · subst hj
    rw [Function.update_self]
    cases a j with
    | none => exact List.Subset.refl _
    | some x => exact h x
  · rw [Function.update_of_ne hj]
    exact List.Subset.refl _

theorem waitingOn_alter (h : ∀ x, (f x).waitingOn = x.waitingOn) :
    (a.alter i f).waitingOn = a.waitingOn :=
  funext fun j => congrArg (Option.getD · 0) (map_alter h j)

theorem getD_alter {β : Type} (k : Instance → β) (d : β) (j : InstanceId) :
    ((a.alter i f j).map k).getD d = Function.update (fun j => ((a j).map k).getD d) i
      (((a i).map fun x => k (f x)).getD d) j := by
  unfold alter
  by_cases hj : j = i
  · subst hj
    rw [Function.update_self, Function.update_self, Option.map_map]
    rfl
  · rw [Function.update_of_ne hj, Function.update_of_ne hj]

theorem deferred_alter_eq : (a.alter i f).deferred =
    Function.update a.deferred i (((a i).map fun x => (f x).deferred).getD []) :=
  funext (getD_alter (·.deferred) [])

theorem waitingOn_alter_eq : (a.alter i f).waitingOn =
    Function.update a.waitingOn i (((a i).map fun x => (f x).waitingOn).getD 0) :=
  funext (getD_alter (·.waitingOn) 0)

theorem alter_alter : (a.alter i f).alter i g = a.alter i (g ∘ f) := by
  unfold alter
  rw [Function.update_self, Function.update_idem, Option.map_map]

section

variable (a i x j)

theorem state?_put : (a.put i x).state? j = if j = i then some x.state else a.state? j := by
  unfold state?
  split
  · next h => rw [h, ← state?, state?_eq put_self]
  · next h => rw [put_of_ne h]

theorem waitingOn_put : (a.put i x).waitingOn j = if j = i then x.waitingOn else a.waitingOn j := by
  unfold waitingOn
  split
  · next h => rw [h, put_self, Option.map_some, Option.getD_some]
  · next h => rw [put_of_ne h]

theorem deferred_put : (a.put i x).deferred j = if j = i then x.deferred else a.deferred j := by
  unfold deferred
  split
  · next h => rw [h, put_self, Option.map_some, Option.getD_some]
  · next h => rw [put_of_ne h]

theorem members?_put : (a.put i x).members? j = if j = i then x.members else a.members? j := by
  unfold members?
  split
  · next h => rw [h, put_self, Option.bind_some]
  · next h => rw [put_of_ne h]

end

end Arena

namespace Engine

variable {e e' : Engine} {d : DeclId} {i : InstanceId} {x : Instance} {names : SymbolId → String}
  {r : Request} {c : Chain} {p : Plan}

theorem arena_eq_some (h : e.inst? i = some x) : e.arena i = some x.core := by
  rw [arena, h, Option.map_some]

theorem state?_arena (e : Engine) (i : InstanceId) :
    e.arena.state? i = (e.inst? i).map (·.state) := Option.map_map ..

theorem arena_eq_none_iff : e.arena i = none ↔ e.insts.size ≤ i.index := by
  simp [arena, inst?]

theorem arena_modifyInst {f : Instance → Instance} (hf : ∀ x, (f x).core = f x.core) :
    (e.modifyInst i f).arena = e.arena.alter i f := by
  funext j
  unfold arena
  rw [inst?_modifyInst]
  split
  · next h =>
    subst h
    simp [Arena.alter, Function.comp_def, hf]
  · next h => rw [Arena.alter, Function.update_of_ne (Ne.symm h)]

theorem Grows.modifyCache (e : Engine) (d : DeclId) (f : InstanceCache → InstanceCache) :
    e.Grows (e.modifyDecl d fun x => { x with cache := f x.cache }) :=
  .modifyDecl (fun _ => rfl) fun H => H.modifyDecl (fun _ _ h => .inl h) fun _ _ h => .inl h

theorem cache_modifyCache (f : InstanceCache → InstanceCache) (hd : d.index < e.decls.size) :
    (e.modifyDecl d fun x => { x with cache := f x.cache }).cache =
      Function.update e.cache d (f (e.cache d)) := by
  funext d'
  obtain ⟨x, hx⟩ := decl?_eq_some_iff.mpr hd
  unfold cache
  rw [decl?_modifyDecl]
  split
  · next h =>
    subst h
    rw [Function.update_self, hx]
    rfl
  · next h => rw [Function.update_of_ne (Ne.symm h)]

/-! ## A new instance -/

/-- The new instance without its use. -/
def made (e : Engine) (r : Request) (c : Chain) (p : Plan) : Instance where
  decl := p.decl
  name := (e.decl p.decl).name
  span := r.span
  supplied := r.args
  resolved := p.resolved
  deduced := p.deduction.args
  level := p.deduction.level
  enclosing := p.enclosing
  digest := e.config.digest p.deduction.args p.enclosing
  gagged := false
  mixinTarget := r.mixin.map (·.aggregate)
  moduleOf := r.module
  firstModule := none
  enclosingInstance := c.innermost?

theorem create_grows (e : Engine) (r : Request) (c : Chain) (p : Plan) :
    e.Grows (e.create r c p).2 :=
  (Grows.modifyCache e p.decl (·.insert _ _)).trans (.of_eq rfl rfl)

@[simp] theorem insts_create : (e.create r c p).2.insts.size = e.insts.size + 1 :=
  Array.size_push ..

theorem arena_create :
    (e.create r c p).2.arena = e.arena.put ⟨e.insts.size⟩ (e.made r c p) := by
  funext j
  unfold arena create inst?
  dsimp only [modifyDecl]
  rw [Array.getElem?_push]
  split
  · next h =>
    obtain rfl : j = ⟨e.insts.size⟩ := congrArg InstanceId.mk h
    rw [Arena.put_self]
    rfl
  · next h =>
    have hj : j ≠ ⟨e.insts.size⟩ := fun he => h (congrArg InstanceId.index he)
    rw [Arena.put_of_ne hj]

/-- A new instance waits for nothing, and nothing for it. -/
theorem waiting_create : (e.create r c p).2.arena.deferred = e.arena.deferred ∧
    (e.create r c p).2.arena.waitingOn = e.arena.waitingOn := by
  have hnew : e.arena ⟨e.insts.size⟩ = none := arena_eq_none_iff.mpr (Nat.le_refl _)
  constructor
  · funext j
    rw [arena_create, Arena.deferred_put]
    split
    · next h => rw [h, Arena.deferred, hnew]; rfl
    · rfl
  · funext j
    rw [arena_create, Arena.waitingOn_put]
    split
    · next h => rw [h, Arena.waitingOn, hnew]; rfl
    · rfl

theorem cache_create (hd : p.decl.index < e.decls.size) :
    (e.create r c p).2.cache = Function.update e.cache p.decl ((e.cache p.decl).insert
      (e.config.digest p.deduction.args p.enclosing) ⟨e.insts.size⟩) :=
  cache_modifyCache (·.insert _ _) hd

/-! ## Waiting -/

theorem insts_defer (e : Engine) (i t : InstanceId) :
    (e.defer i t).insts.size = e.insts.size := by
  obtain h | h := e.defer_cases i t <;> rw [h]
  rw [insts_modifyInst_size, insts_modifyInst_size]

/-- An instance waits for another once. -/
theorem arena_defer {t : InstanceId} (ht : t.index < e.insts.size) :
    (e.defer i t).arena =
      if i ∈ e.arena.deferred t then e.arena
      else (e.arena.alter t fun x => { x with deferred := x.deferred ++ [i] }).alter i fun x =>
        { x with waitingOn := x.waitingOn + 1 } := by
  obtain ⟨x, hx⟩ := inst?_eq_some_iff.mpr ht
  have hd : e.arena.deferred t = x.deferred := (Arena.deferred_eq (arena_eq_some hx)).trans rfl
  rw [hd]
  unfold defer
  rw [hx]
  dsimp only
  split
  · next h => rw [if_pos (by simpa using h)]
  · next h =>
    rw [if_neg (by simpa using h)]
    rw [arena_modifyInst, arena_modifyInst]
    · intro
      rfl
    · intro
      rfl

theorem defer_of_none {t : InstanceId} (ht : ¬t.index < e.insts.size) : e.defer i t = e := by
  have h : e.inst? t = none := by simpa [inst?] using ht
  rw [defer, h]

theorem deferred_defer {t : InstanceId} (ht : t.index < e.insts.size)
    (hi : i ∉ e.arena.deferred t) : (e.defer i t).arena.deferred =
      Function.update e.arena.deferred t (e.arena.deferred t ++ [i]) := by
  obtain ⟨x, hx⟩ := inst?_eq_some_iff.mpr ht
  have hx := arena_eq_some hx
  rw [arena_defer ht, if_neg hi]
  funext j
  rw [Arena.deferred_alter, Arena.deferred_alter_eq, hx, Arena.deferred_eq hx]
  · rfl
  · exact fun _ => rfl

theorem waitingOn_defer {t : InstanceId} (ht : t.index < e.insts.size)
    (hi : i ∉ e.arena.deferred t) : (e.defer i t).arena.waitingOn =
      Function.update e.arena.waitingOn i
        (((e.arena i).map fun x => x.waitingOn + 1).getD 0) := by
  rw [arena_defer ht, if_neg hi, Arena.waitingOn_alter_eq, Arena.waitingOn_alter, Arena.map_alter]
  · exact fun _ => rfl
  · exact fun _ => rfl

theorem state?_defer (e : Engine) (i t j : InstanceId) :
    (e.defer i t).arena.state? j = e.arena.state? j := by
  by_cases ht : t.index < e.insts.size
  · rw [arena_defer ht]
    split
    · rfl
    · rw [Arena.state?_alter, Arena.state?_alter] <;> exact fun _ => rfl
  · rw [defer_of_none ht]

theorem deferred_subset_defer (e : Engine) (i t j : InstanceId) :
    e.arena.deferred j ⊆ (e.defer i t).arena.deferred j := by
  by_cases ht : t.index < e.insts.size
  · rw [arena_defer ht]
    split
    · exact List.Subset.refl _
    · rw [Arena.deferred_alter]
      · exact Arena.deferred_subset_alter (fun x => List.subset_append_left ..) j
      · exact fun _ => rfl
  · rw [defer_of_none ht]
    exact List.Subset.refl _

/-- Nobody else begins to wait. -/
theorem mem_deferred_defer {t j v : InstanceId} (h : v ∈ (e.defer i t).arena.deferred j) :
    v ∈ e.arena.deferred j ∨ v = i ∧ j = t := by
  by_cases ht : t.index < e.insts.size
  · rw [arena_defer ht] at h
    split at h
    · exact .inl h
    · rw [Arena.deferred_alter, Arena.mem_deferred_iff] at h
      · obtain ⟨x, hx, hv⟩ := h
        obtain ⟨y, hy, ⟨-, rfl⟩ | ⟨rfl, rfl⟩⟩ := Arena.alter_eq_some hx
        · exact .inl (Arena.mem_deferred_iff.mpr ⟨_, hy, hv⟩)
        · refine (List.mem_append.mp hv).imp (fun hv => ?_) fun hv => ?_
          · exact Arena.mem_deferred_iff.mpr ⟨_, hy, hv⟩
          · exact ⟨List.mem_singleton.mp hv, rfl⟩
      · exact fun _ => rfl
  · rw [defer_of_none ht] at h
    exact .inl h

theorem arena_takeDeferred : (e.takeDeferred i).2.arena =
    e.arena.alter i fun x => { x with deferred := [] } := arena_modifyInst fun _ => rfl

theorem deferred_takeDeferred : (e.takeDeferred i).2.arena.deferred =
    Function.update e.arena.deferred i [] := by
  rw [arena_takeDeferred, Arena.deferred_alter_eq]
  cases e.arena i <;> rfl

theorem waitingOn_takeDeferred :
    (e.takeDeferred i).2.arena.waitingOn = e.arena.waitingOn := by
  rw [arena_takeDeferred]
  exact Arena.waitingOn_alter fun _ => rfl

theorem mem_deferred_takeDeferred {t v : InstanceId}
    (h : v ∈ (e.takeDeferred i).2.arena.deferred t) : v ∈ e.arena.deferred t := by
  rw [arena_takeDeferred, Arena.mem_deferred_iff] at h
  obtain ⟨x, hx, hv⟩ := h
  obtain ⟨y, hy, ⟨-, rfl⟩ | ⟨-, rfl⟩⟩ := Arena.alter_eq_some hx
  · exact Arena.mem_deferred_iff.mpr ⟨_, hy, hv⟩
  · cases hv

theorem takeDeferred_fst : (e.takeDeferred i).1 = e.arena.deferred i := by
  unfold takeDeferred Arena.deferred arena
  rw [Option.map_map]
  rfl

/-- Who is taken has waited before the instance was altered too. -/
theorem mem_deferred_of_taken {f : Instance → Instance} {v : InstanceId}
    (h : e'.arena = e.arena.alter i f) (hf : ∀ x, (f x).deferred = x.deferred)
    (hv : v ∈ (e'.takeDeferred j).1) : v ∈ e.arena.deferred j := by
  rwa [takeDeferred_fst, h, Arena.deferred_alter hf] at hv

@[simp] theorem insts_takeDeferred : (e.takeDeferred i).2.insts.size = e.insts.size :=
  insts_modifyInst_size _

/-- An instance is altered, and then those that wait for it are taken. -/
theorem takeDeferred_alter {f : Instance → Instance} (h : e'.arena = e.arena.alter i f)
    (hx : e.arena i = some x) (hf : (f x).deferred = x.deferred) :
    (e'.takeDeferred i).1 = e.arena.deferred i ∧
      (e'.takeDeferred i).2.arena = e.arena.put i { f x with deferred := [] } := by
  rw [takeDeferred_fst, arena_takeDeferred, h, Arena.alter_alter, Arena.alter_eq_put hx,
    Arena.alter_eq_put hx, Arena.deferred_eq Arena.put_self, hf, Arena.deferred_eq hx]
  exact ⟨rfl, rfl⟩

@[simp] theorem insts_release : (e.release i).2.insts.size = e.insts.size :=
  insts_modifyInst_size _

theorem arena_release : (e.release i).2.arena =
    e.arena.alter i fun x => { x with waitingOn := x.waitingOn - 1 } :=
  arena_modifyInst fun _ => rfl

theorem state?_release (e : Engine) (i j : InstanceId) :
    (e.release i).2.arena.state? j = e.arena.state? j := by
  rw [arena_release, Arena.state?_alter]
  exact fun _ => rfl

theorem deferred_release (e : Engine) (i j : InstanceId) :
    (e.release i).2.arena.deferred j = e.arena.deferred j := by
  rw [arena_release, Arena.deferred_alter]
  exact fun _ => rfl

theorem waitingOn_release : (e.release i).2.arena.waitingOn =
    Function.update e.arena.waitingOn i (e.arena.waitingOn i - 1) := by
  rw [arena_release, Arena.waitingOn_alter_eq]
  unfold Arena.waitingOn
  cases e.arena i <;> rfl

theorem release_eq_true (h : (e.release i).1 = true) :
    ∃ x, e.inst? i = some x ∧ x.state = .suspended ∧ x.waitingOn - 1 = 0 := by
  unfold release at h
  dsimp only at h
  rw [inst?_modifyInst, if_pos rfl] at h
  cases hx : e.inst? i with
  | none => simp [hx] at h
  | some x => exact ⟨x, rfl, by simp_all⟩

/-- Who goes on after a release. -/
theorem release_fst_iff (h : 0 < e.arena.waitingOn i) : (e.release i).1 = true ↔
    e.arena.state? i = some .suspended ∧ e.arena.waitingOn i = 1 := by
  cases hx : e.inst? i with
  | none => simp [Arena.waitingOn, arena, hx] at h
  | some x =>
    have hi := arena_eq_some hx
    rw [Arena.waitingOn_eq hi] at h
    have hone : x.waitingOn - 1 = 0 ↔ x.waitingOn = 1 := by
      change 0 < x.waitingOn at h
      omega
    unfold release
    dsimp only
    rw [inst?_modifyInst, if_pos rfl, hx, Arena.state?_eq hi, Arena.waitingOn_eq hi]
    simp [Instance.core, and_comm, hone]

/-! ## Ends -/

theorem arena_complete {members : MemberTable} : (e.complete i members).arena =
    e.arena.alter i fun x =>
      { x with
        aliasMember := e.eponym? i members
        members := some members
        state := if 0 < x.waitingOn then .suspended else .complete } :=
  arena_modifyInst fun _ => rfl

theorem isComplete_iff : e.isComplete i = true ↔ e.arena.state? i = some .complete := by
  unfold isComplete Arena.state? arena
  cases e.inst? i with
  | none => simp
  | some x => simp [Instance.core]

theorem isComplete_complete {members : MemberTable} (hx : e.arena i = some x) :
    (e.complete i members).isComplete i = true ↔ x.waitingOn = 0 := by
  rw [isComplete_iff, arena_complete, Arena.alter_eq_put hx, Arena.state?_eq Arena.put_self]
  by_cases h : x.waitingOn = 0
  · simp [h]
  · simp [h, Nat.pos_of_ne_zero h]

theorem evict_grows (e : Engine) (i : InstanceId) : e.Grows (e.evict i) := by
  obtain h | ⟨x, _, cache, -, -, -, h⟩ := e.evict_cases i <;> rw [h]
  exact (Grows.modifyCache e x.decl fun _ => cache).trans (.of_eq rfl rfl)

theorem insts_evict (e : Engine) (i : InstanceId) : (e.evict i).insts = e.insts := by
  obtain ⟨_, _, h⟩ := e.evict_frame i
  rw [h]

theorem cache_evict (h : e.inst? i = some x) : (e.evict i).cache =
    Function.update e.cache x.decl ((e.cache x.decl).erase x.digest i).2 := by
  have habsent : ∀ c : InstanceCache, (c.erase x.digest i).1 = false → (c.erase x.digest i).2 = c := by
    intro c hc
    unfold InstanceCache.erase at hc ⊢
    split at hc
    · cases hc
    · next hi => rw [if_neg hi]
  unfold evict
  rw [h]
  dsimp only
  cases hx : e.decl? x.decl with
  | none =>
    have hc : e.cache x.decl = {} := by rw [cache, hx]; rfl
    rw [hc]
    exact (Function.update_eq_self_iff.mpr hc.symm).symm
  | some entry =>
    have hc := cache_of_decl? hx
    rw [hc]
    dsimp only
    have hkeep := habsent entry.cache
    revert hkeep
    rcases entry.cache.erase x.digest i with ⟨_ | _, cache⟩ <;> intro hkeep
    · obtain rfl : cache = entry.cache := hkeep rfl
      exact (Function.update_eq_self_iff.mpr hc.symm).symm
    · exact cache_modifyCache (fun _ => cache) (decl?_eq_some_iff.mp ⟨entry, hx⟩)

section

variable {reason : String} {span : Span}

@[simp] theorem insts_errored_size : (e.errored i).insts.size = e.insts.size :=
  insts_modifyInst_size _

theorem insts_fail : (e.fail names i reason span c).2.insts = (e.errored i).insts := by
  rw [fail_eq]
  change (e.failed i).insts = _
  obtain hf | hf := e.failed_cases i <;> rw [hf]
  exact insts_evict ..

theorem arena_fail : (e.fail names i reason span c).2.arena =
    e.arena.alter i fun x => { x with state := .errored } := by
  have h : (e.fail names i reason span c).2.arena = (e.errored i).arena := by
    unfold arena inst?
    rw [insts_fail]
  exact h.trans (arena_modifyInst fun _ => rfl)

/-- A failed instance leaves its cache if only speculative requests have asked for it. -/
theorem cache_fail (h : e.inst? i = some x) : (e.fail names i reason span c).2.cache =
    if x.gagged then Function.update e.cache x.decl ((e.cache x.decl).erase x.digest i).2
    else e.cache := by
  rw [fail_eq]
  change (e.failed i).cache = _
  rw [failed_of_inst? h]
  split
  · exact (cache_evict (inst?_errored h)).trans rfl
  · rfl

/-! ## The end of a release -/

variable {result : Except Failure Unit}

theorem insts_settle : (e.settle names i result).insts.size = e.insts.size := by
  cases result with
  | ok => exact insts_modifyInst_size _
  | error f =>
    change (e.fail ..).2.insts.size = _
    rw [insts_fail, insts_errored_size]

/-- The state of an instance that has gone on. -/
def settled : Except Failure Unit → InstanceState
  | .ok () => .complete
  | .error _ => .errored

theorem arena_settle : (e.settle names i result).arena =
    e.arena.alter i fun x => { x with state := settled result } := by
  cases result with
  | ok => exact arena_modifyInst fun _ => rfl
  | error f => exact arena_fail

end

end Engine
end Templates
