import Templates.Proofs.Caching
import Templates.Proofs.Ending.Nesting
import Templates.Proofs.Enclosing.Links

/-!
# What the chain says

The engine knows twice which instances are being elaborated: by the frames of the chain that it gives
to the front end, and by the states of the instances, the links between them and the caches.
`Service.tracksChains` says that the two agree whenever the front end is asked for members, however
often it begins anew with an empty chain.
-/

namespace Templates

variable {σ α : Type}

/-! ## Frames and instances -/

namespace Engine

/-- The frame describes its instance, whose elaboration `outer` asked for. -/
def Describes (e : Engine) (f : Frame) (outer : Option InstanceId) : Prop :=
  ∃ x, e.origins f.inst = some x ∧ x.decl = f.decl ∧ x.deduced = f.args ∧
    x.enclosing = f.enclosing ∧ x.enclosingInstance = outer

/-- Each frame describes its instance, which lies directly inside that of the next frame. -/
def Mirrors (e : Engine) : Chain → Prop
  | [] => True
  | f :: c => e.Describes f (Chain.innermost? c) ∧ e.Mirrors c

variable {e e' : Engine} {c : Chain} {f : Frame} {i : InstanceId}

theorem Describes.becomes {sem : Semantics σ} {outer : Option InstanceId} (H : e.Describes f outer)
    (h : e.Becomes sem e') : e'.Describes f outer := by
  obtain ⟨x, hx, hf⟩ := H
  exact ⟨x, h.origins hx, hf⟩

theorem describes_create {q : Request} {p : Plan} :
    (e.create q c p).2.Describes (frameOf q p ⟨e.insts.size⟩) c.innermost? := by
  refine ⟨e.made q c p, ?_, rfl, rfl, rfl, rfl⟩
  rw [origins_create]
  exact Arena.put_self

namespace Mirrors

theorem becomes {sem : Semantics σ} (H : e.Mirrors c) (h : e.Becomes sem e') : e'.Mirrors c := by
  induction c with
  | nil => trivial
  | cons f c ih => exact ⟨H.1.becomes h, ih H.2⟩

theorem describes (H : e.Mirrors c) (hf : f ∈ c) : ∃ outer, e.Describes f outer := by
  induction c with
  | nil => cases hf
  | cons g c ih =>
    obtain rfl | hf := List.mem_cons.mp hf
    · exact ⟨_, H.1⟩
    · exact ih H.2 hf

theorem walk (H : e.Mirrors c) : e.Walk (c.map (·.inst)) := by
  induction c with
  | nil => trivial
  | cons f c ih =>
    obtain ⟨⟨x, hx, -, -, -, ho⟩, hc⟩ := H
    refine ⟨?_, ih hc⟩
    rw [outer?_eq, hx, Option.bind_some, ho, Chain.innermost?, List.head?_map]

end Mirrors

end Engine

/-! ## Chains in use -/

/-- The chain that the front end is to be given for a new instance. -/
def Stage.given? : Stage → Option Chain
  | .openScope call p i | .elaborate call p i => some (Engine.frameOf call.request p i :: call.chain)
  | .resolve _ | .plan .. | .release .. | .resume .. => none

namespace Machine

/-- The chains that the front end is given for what goes on, innermost first. -/
def chains (m : Machine σ α) : List Chain :=
  match m.control with
  | .stage s => s.given?.toList ++ m.roles.map Role.chain
  | .program .. | .unasked => m.roles.map Role.chain

/-- The chains say which instances lie inside each other, and none is too long. -/
def Mirrored (m : Machine σ α) : Prop :=
  ∀ c ∈ m.chains, m.engine.Mirrors c ∧ c.length ≤ m.engine.config.recursionLimit

theorem Mirrored.handed {m : Machine σ α} (H : m.Mirrored) {c : Chain} (hc : c.Handed m.roles) :
    m.engine.Mirrors c := by
  obtain rfl | ⟨role, hrole, rfl⟩ := hc
  · trivial
  · refine (H _ ?_).1
    have hmem : role.chain ∈ m.roles.map Role.chain :=
      List.mem_map_of_mem (List.mem_of_head? hrole)
    unfold chains
    split
    · exact List.mem_append_right _ hmem
    · exact hmem
    · exact hmem

end Machine

namespace Service

variable {svc : Service σ} {r : Run σ} {ws : List (Waiting σ α)} {call : Call} {e : Engine}
  {c : Control σ α} {m : Machine σ α}

theorem chains_giveAnswer {a : Except TemplateError InstanceId} {s : σ} :
    (giveAnswer ⟨e, s⟩ call a ws).chains = (ws.map (·.role)).map Role.chain := by
  cases ws <;> rfl

theorem chains_openCall {chain : Chain} {q : Request} :
    (openCall r chain q ws).chains = (ws.map (·.role)).map Role.chain := by
  rw [openCall_eq]
  rfl

/-- A chain comes into use empty, or with the frame of a new instance. -/
theorem Steps.chains (h : svc.Steps r ws c m) {x : Chain} (hx : x ∈ m.chains) :
    x ∈ (⟨r, c, ws⟩ : Machine σ α).chains ∨ x = [] ∨
      ∃ call resolved p, c = .stage (.plan call resolved) ∧
        m.engine = (r.engine.create call.request call.chain p).2 ∧
          call.chain.length < r.engine.config.recursionLimit ∧
            x = Engine.frameOf call.request p ⟨r.engine.insts.size⟩ :: call.chain := by
  have hold {l : List Chain} (hx : x ∈ (ws.map (·.role)).map Role.chain) :
      x ∈ l ++ (ws.map (·.role)).map Role.chain := List.mem_append_right l hx
  cases h with
  | unresolved | refuse | answer | finish => exact .inl (hold (chains_giveAnswer ▸ hx))
  | undeclared => cases ws <;> exact .inl hx
  | request =>
    rw [chains_openCall] at hx
    exact .inl hx
  | create _ ha =>
    obtain rfl | hx := List.mem_cons.mp hx
    · exact .inr (.inr ⟨_, _, _, rfl, rfl, Engine.length_lt_of_answer?_eq_none ha, rfl⟩)
    · exact .inl hx
  | resume =>
    obtain rfl | hx := List.mem_cons.mp hx
    · exact .inr (.inl rfl)
    · exact .inl hx
  | suspend | complete | fail | settle => exact .inl (List.mem_cons_of_mem _ hx)
  | resolve | openScope | elaborate | release | wake | done | halt | read | service | dangling
  | command | unasked => exact .inl hx

theorem Steps.mirrored (h : svc.Steps r ws c m) (hh : (⟨r, c, ws⟩ : Machine σ α).Handed)
    (hl : r.engine.Linked) (hp : (⟨r, c, ws⟩ : Machine σ α).Planned)
    (H : (⟨r, c, ws⟩ : Machine σ α).Mirrored) : m.Mirrored := by
  have hb := h.becomes hl hp
  intro x hx
  rw [hb.grows.config]
  obtain hx | rfl | ⟨call, resolved, p, hc, he, hlen, rfl⟩ := h.chains hx
  · exact (H x hx).imp_left fun H => H.becomes hb
  · exact ⟨trivial, Nat.zero_le _⟩
  · refine ⟨⟨?_, (H.handed (hh.call hc)).becomes hb⟩, hlen⟩
    rw [he]
    exact Engine.describes_create

end Service

/-- Links lead to older instances, as what is being elaborated is older than a new instance. -/
theorem Activity.Moves.ordered {sem : Semantics σ} {a b : Activity} (Hs : a.Sound)
    (H : a.engine.Ordered) (h : Activity.Moves sem a b) : b.engine.Ordered := by
  cases h with
  | quiet h | openScope h => exact H.keeps h.keeps
  | elaborate | resume => exact H
  | create _ _ hc =>
    refine H.create fun o ho => ?_
    obtain ⟨f, hf, rfl⟩ := Option.map_eq_some_iff.mp ho
    have hmem := hc.subset (List.mem_map_of_mem (List.mem_of_head? hf))
    exact Hs.lt_of_state? (Hs.elaborating.mp hmem)
  | defer _ _ _ _ h => exact (H.keeps (Engine.defer_keeps ..)).keeps h.keeps
  | suspend => exact H.keeps (Engine.complete_keeps ..)
  | complete =>
    exact (H.keeps (Engine.complete_keeps ..)).keeps (Engine.takeDeferred_keeps ..)
  | fail => exact (H.keeps (Engine.fail_keeps ..)).keeps (Engine.takeDeferred_keeps ..)
  | release | wake => exact H.keeps (Engine.release_keeps ..)
  | settle => exact (H.keeps (Engine.settle_keeps ..)).keeps (Engine.takeDeferred_keeps ..)

/-! ## Runs -/

/-- What the chain says that the front end is given for the members of `i`. -/
structure Engine.Tracks (e : Engine) (c : Chain) (i : InstanceId) : Prop where
  /-- The chain ends in the instance. -/
  innermost : c.innermost? = some i
  /-- Every frame has the declaration, the arguments and the scope of an instance that is being
  elaborated. -/
  described {f : Frame} : f ∈ c → ∃ x, e.inst? f.inst = some x ∧ x.decl = f.decl ∧
    x.deduced = f.args ∧ x.enclosing = f.enclosing ∧ x.state = .elaborating
  cached {f : Frame} : f ∈ c → f.inst ∈ (e.cache f.decl).ids
  /-- Each instance lies directly inside the next, and the last one in none. -/
  walk : e.Walk (c.map (·.inst))
  enclosers : c.map (·.inst) = e.enclosers i
  decreasing : (c.map (·.inst)).Pairwise fun i o => o.index < i.index
  distinct : c.Pairwise fun f g => (f.decl, f.args, f.enclosing) ≠ (g.decl, g.args, g.enclosing)
  depth : c.depth = c.length
  limited : c.depth ≤ e.config.recursionLimit
  /-- What is found on the chain is what is found in the cache. -/
  found {d : DeclId} {args : List Arg} {enclosing : Option ScopeId} {f : Frame} {c' : Chain} :
    c.findAttempt? d args enclosing = some (f, c') → e.lookup d args enclosing = some f.inst

theorem Chain.key_of_findAttempt? {d : DeclId} {args : List Arg} {enclosing : Option ScopeId}
    {c c' : Chain} {f : Frame} (h : c.findAttempt? d args enclosing = some (f, c')) :
    f.decl = d ∧ f.enclosing = enclosing ∧ f.args = args := by
  induction c with
  | nil => cases h
  | cons g c ih =>
    rw [findAttempt?] at h
    split at h
    · next hkey =>
      cases h
      exact hkey
    · exact ih h

/-- A chain whose frames describe instances that are being elaborated, each made after the next. -/
theorem Engine.Mirrors.tracks {e : Engine} {c : Chain} {i : InstanceId} (H : e.Mirrors c)
    (hi : c.innermost? = some i) (ho : e.Ordered) (hc : e.CachesOnce) (hr : e.Retains)
    (hprogress : ∀ j ∈ c.map (·.inst), e.arena.state? j = some .elaborating)
    (hdecr : (c.map (·.inst)).Pairwise fun i o => o.index < i.index)
    (hlen : c.length ≤ e.config.recursionLimit) : e.Tracks c i := by
  have hdescribed {f : Frame} (hf : f ∈ c) : ∃ x, e.inst? f.inst = some x ∧ x.decl = f.decl ∧
      x.deduced = f.args ∧ x.enclosing = f.enclosing ∧ x.state = .elaborating := by
    obtain ⟨outer, y, hy, hd, hargs, hen, -⟩ := H.describes hf
    obtain ⟨x, hx, rfl⟩ := Option.map_eq_some_iff.mp hy
    have hs := hprogress _ (List.mem_map_of_mem hf)
    rw [Arena.state?_eq (arena_eq_some hx)] at hs
    exact ⟨x, hx, hd, hargs, hen, Option.some.inj hs⟩
  have hcached {f : Frame} (hf : f ∈ c) : f.inst ∈ (e.cache f.decl).ids := by
    obtain ⟨x, hx, hd, -, -, hs⟩ := hdescribed hf
    by_contra hn
    have := hc.errored_of_notMem_ids hr hx (hd ▸ hn)
    simp [hs] at this
  have hfound {f : Frame} (hf : f ∈ c) : e.lookup f.decl f.args f.enclosing = some f.inst := by
    obtain ⟨x, hx, -, hargs, hen, -⟩ := hdescribed hf
    rw [← hargs, ← hen]
    exact hc.lookup_eq_some (hcached hf) hx
  constructor
  case innermost => exact hi
  case described => exact hdescribed
  case cached => exact hcached
  case walk => exact H.walk
  case enclosers =>
    obtain _ | ⟨f, c⟩ := c
    · cases hi
    obtain rfl : f.inst = i := Option.some.inj hi
    symm
    refine H.walk.enclosersFrom ?_
    obtain ⟨x, hx, -⟩ := hdescribed List.mem_cons_self
    exact (ho.length_le H.walk).trans_lt (inst?_eq_some_iff.mp ⟨x, hx⟩)
  case decreasing => exact hdecr
  case distinct =>
    refine (List.pairwise_map.mp hdecr).imp_of_mem fun {f g} hf hg hlt hkey => ?_
    obtain ⟨hd, hargs, hen⟩ : f.decl = g.decl ∧ f.args = g.args ∧ f.enclosing = g.enclosing := by
      simpa using hkey
    have hsame := hfound hf
    rw [hd, hargs, hen, hfound hg] at hsame
    rw [Option.some.inj hsame] at hlt
    exact Nat.lt_irrefl _ hlt
  case depth => rfl
  case limited => exact hlen
  case found =>
    intro d args enclosing f c' h
    obtain ⟨rfl, rfl, rfl⟩ := Chain.key_of_findAttempt? h
    exact hfound (Chain.mem_of_findAttempt? h)

/-- The front end is about to be asked for the members of `i`. -/
theorem Machine.Mirrored.tracks {m : Machine σ α} (hm : m.Mirrored) (H : m.activity.Sound)
    (hh : m.Handed) (ho : m.engine.Ordered) (hc : m.engine.CachesOnce) (hr : m.engine.Retains)
    {call : Call} {p : Plan} {i : InstanceId}
    (hcontrol : m.control = .stage (.elaborate call p i)) :
    m.engine.Tracks (Engine.frameOf call.request p i :: call.chain) i := by
  obtain ⟨hmirrors, hlen⟩ := hm (Engine.frameOf call.request p i :: call.chain) (by
    rw [chains, hcontrol]
    exact List.mem_cons_self)
  have hwork : m.work.elaborating = i :: (Role.workOf m.roles).elaborating := by
    rw [work, hcontrol]
    rfl
  have hpre : (Engine.frameOf call.request p i :: call.chain).map (·.inst) <+:
      m.work.elaborating := by
    rw [hwork]
    exact List.cons_prefix_cons.mpr ⟨rfl, hh.nested.chain_prefix (hh.call hcontrol)⟩
  refine hmirrors.tracks rfl ho hc hr (fun j hj => ?_) ?_ hlen
  · exact H.elaborating.mp (hpre.subset hj)
  · exact H.ordered.sublist hpre.sublist

namespace Service

variable {svc : Service σ} {config : EngineConfig} {s : σ} {p : Program σ α}

section

variable (hsvc : svc.HandsOn) (hp : p.Hands [])

include hsvc hp

theorem mirrored_after (n : Nat) : (svc.after n (.boot config s p)).Mirrored := by
  induction n with
  | zero =>
    intro c hc
    obtain rfl := List.mem_singleton.mp hc
    exact ⟨trivial, Nat.zero_le _⟩
  | succ n ih =>
    rw [after_succ]
    exact (step_steps _).mirrored (handed_after hsvc hp n) (linked_after svc n)
      (planned_after svc n) ih

theorem ordered_after (n : Nat) : (svc.after n (.boot config s p)).engine.Ordered := by
  induction n with
  | zero => exact fun i o h => nomatch h
  | succ n ih => exact (after_moves hsvc hp n).ordered (sound_after hsvc hp n) ih

end

/-- What is known of chains when the run from `m₀` has made `n` steps. -/
structure TracksChains (svc : Service σ) (m₀ : Machine σ α) (n : Nat) : Prop where
  /-- When the front end is asked for members, its chain says which instances are being elaborated. -/
  elaborate {call : Call} {p : Plan} {i : InstanceId} :
    (svc.after n m₀).control = .stage (.elaborate call p i) →
      (svc.after n m₀).engine.Tracks (Engine.frameOf call.request p i :: call.chain) i
  /-- Every walk along the links to the enclosing instance leads to older instances, and ends. -/
  ordered : (svc.after n m₀).engine.Ordered
  ends {i : InstanceId} {x : Instance} : (svc.after n m₀).engine.inst? i = some x →
    (svc.after n m₀).engine.Walk ((svc.after n m₀).engine.enclosers i) ∧
      ((svc.after n m₀).engine.enclosers i).head? = some i

/-- **The chain says what is being elaborated.** -/
theorem tracksChains (hsvc : svc.HandsOn) (hp : p.Hands []) (n : Nat) :
    svc.TracksChains (.boot config s p) n := by
  have ho : (svc.after n (.boot config s p)).engine.Ordered := ordered_after hsvc hp n
  constructor
  case elaborate =>
    intro call pl i hcontrol
    exact (mirrored_after hsvc hp n).tracks (sound_after hsvc hp n) (handed_after hsvc hp n) ho
      (cachesOnce_after svc n) (retains_after hsvc hp n) hcontrol
  case ordered => exact ho
  case ends =>
    intro i x hx
    exact ho.walk_enclosers (Engine.inst?_eq_some_iff.mp ⟨x, hx⟩)

end Service

/-- The second instance of `twoWay` is elaborated with a chain of two frames. -/
theorem tracksChains_twoWay : twoWay.HandsOn ∧ twoWayClient.Hands [] ∧
    (twoWay.after 11 twoWayBoot).asks = some (.elaborate ⟨1⟩) ∧
    (twoWay.after 11 twoWayBoot).chains.map (·.map (·.inst)) = [[⟨1⟩, ⟨0⟩], [⟨0⟩], []] ∧
    twoWay.TracksChains twoWayBoot 11 :=
  ⟨twoWay_handsOn, twoWayClient_hands, rfl, rfl,
    Service.tracksChains twoWay_handsOn twoWayClient_hands 11⟩

end Templates
