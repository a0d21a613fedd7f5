import Templates.Proofs.Parking.Invariant

/-!
# The course of an instance

Every move preserves `Parked` (`Activity.Moves.sound`). For a single instance it means one of a few
things only (`Activity.Course`), so that what has once become of an instance can be followed through
a run: an instance that has ended stays so, and the front end goes on with a suspended one once.
-/

namespace Templates

/-! ## Moves -/

theorem Activity.Moves.parked {σ : Type} {sem : Semantics σ} {a b : Activity}
    (H : Parked a.engine.insts.size a.engine.arena a.toWork) (h : Moves sem a b) :
    Parked b.engine.insts.size b.engine.arena b.toWork := by
  cases h with
  | quiet h | openScope h => rwa [h.insts, h.arena]
  | elaborate | resume => exact H
  | create =>
    rw [Engine.insts_create, Engine.arena_create]
    exact H.create rfl rfl rfl
  | @defer w e e' c f i hc hf hi hne he =>
    obtain ⟨g, c, rfl⟩ := List.exists_cons_of_ne_nil (List.ne_nil_of_mem hf)
    obtain rfl : g.inst = i := Option.some.inj hi
    obtain ⟨rest, hrest⟩ := hc
    have hhead : w.elaborating = g.inst :: (c.map (·.inst) ++ rest) := hrest.symm
    have ht : f.inst ∈ c.map (·.inst) ++ rest := by
      obtain rfl | hf := List.mem_cons.mp hf
      · exact absurd rfl hne
      · exact List.mem_append_left _ (List.mem_map_of_mem hf)
    have hsome : f.inst.index < e.insts.size :=
      H.lt_of_state? (H.elaborating.mp (hhead ▸ List.mem_cons_of_mem _ ht))
    rw [he.insts, he.arena, Engine.insts_defer, Engine.arena_defer hsome]
    split
    · exact H
    · next hd => exact H.defer hhead ht hd
  | @suspend w e i rest members hi hc =>
    obtain ⟨x, hx, -, -, -, -⟩ := H.head hi
    have hsize : (e.complete i members).insts.size = e.insts.size := Engine.insts_modifyInst_size _
    rw [hsize, Engine.arena_complete, Arena.alter_eq_put hx]
    have hpos : 0 < x.waitingOn := by
      rw [← Bool.not_eq_true, Engine.isComplete_complete hx] at hc
      omega
    exact H.suspend hi hx (if_pos hpos) rfl hpos rfl rfl
  | @complete w e i rest members hi hc =>
    obtain ⟨x, hx, -, -, hres, ho⟩ := H.head hi
    obtain ⟨hfst, hsnd⟩ := Engine.takeDeferred_alter Engine.arena_complete hx rfl
    have hsize : (e.complete i members).insts.size = e.insts.size := Engine.insts_modifyInst_size _
    have hzero := (Engine.isComplete_complete hx).mp hc
    dsimp only
    rw [Engine.insts_takeDeferred, hsize, hfst, hsnd]
    exact H.stop hx (.inl ⟨if_neg (by omega), rfl⟩) rfl rfl ho (H.mem_elaborating_tail hi) H.nodup
      (fun j => ⟨fun h => ⟨fun he => hres (he ▸ h), h⟩, fun h => h.2⟩) rfl
  | @fail w e i rest names reason span c hi =>
    obtain ⟨x, hx, -, -, hres, ho⟩ := H.head hi
    have hfail : (e.fail names i reason span c).2.arena = _ := Engine.arena_fail
    obtain ⟨hfst, hsnd⟩ := Engine.takeDeferred_alter hfail hx rfl
    dsimp only
    rw [Engine.insts_takeDeferred, Engine.insts_fail, Engine.insts_errored_size, hfst, hsnd]
    exact H.stop hx (.inr rfl) rfl rfl ho (H.mem_elaborating_tail hi) H.nodup
      (fun j => ⟨fun h => ⟨fun he => hres (he ▸ h), h⟩, fun h => h.2⟩) rfl
  | @release w e i rest hi hgo =>
    rw [Engine.insts_release, Engine.arena_release]
    have hgo' := mt (Engine.release_fst_iff (H.waiting_pos hi)).mpr (by simp [hgo])
    exact H.release hi rfl (if_neg hgo').symm rfl
  | @wake w e i rest hi hgo =>
    rw [Engine.insts_release, Engine.arena_release]
    have hgo' := (Engine.release_fst_iff (H.waiting_pos hi)).mp hgo
    exact H.release hi rfl (if_pos hgo').symm rfl
  | @settle w e i rest names result hi =>
    obtain ⟨hs, -⟩ := H.resuming.mp (hi ▸ List.mem_cons_self)
    obtain ⟨x, hx, hxs⟩ := Option.map_eq_some_iff.mp hs
    have hsettle : (e.settle names i result).arena = _ := Engine.arena_settle
    obtain ⟨hfst, hsnd⟩ := Engine.takeDeferred_alter hsettle hx rfl
    have hn := List.nodup_cons.mp (hi ▸ H.nodup)
    have hnot : i ∉ w.elaborating := fun h => by
      have := H.elaborating.mp h
      rw [hs] at this
      cases this
    dsimp only
    rw [Engine.insts_takeDeferred, Engine.insts_settle, hfst, hsnd]
    refine H.stop hx ?_ rfl rfl H.ordered
      (fun j => ⟨fun h => ⟨fun he => hnot (he ▸ h), h⟩, fun h => h.2⟩) hn.2 (fun j => ?_) rfl
    · cases result with
      | ok =>
        exact .inl ⟨rfl, Arena.members?_eq hx ▸ H.members (.inl hs)⟩
      | error => exact .inr rfl
    · rw [hi, List.mem_cons]
      exact ⟨fun h => ⟨fun he => hn.1 (he ▸ h), .inr h⟩, fun h => h.2.resolve_left h.1⟩

/-! ## The course of an instance -/

namespace Activity

/-- What a move means for the instance `i`. -/
inductive Course (i : InstanceId) (a b : Activity) : Prop
  | stay (state : b.engine.arena.state? i = a.engine.arena.state? i)
    (resuming : i ∈ b.resuming ↔ i ∈ a.resuming)
    (keeps : a.engine.arena.deferred i ⊆ b.engine.arena.deferred i)
    (before : a.asks ≠ some (.resume i)) (after : b.asks ≠ some (.resume i))
  | make (before : a.engine.arena.state? i = none)
    (after : b.engine.arena.state? i = some .elaborating)
    (asks : b.asks = some (.openScope i))
  | suspend (before : a.engine.arena.state? i = some .elaborating)
    (after : b.engine.arena.state? i = some .suspended) (resuming : i ∉ b.resuming)
    (keeps : a.engine.arena.deferred i ⊆ b.engine.arena.deferred i)
    (asks : a.asks = none) (asks' : b.asks = none)
  | stop (before : a.engine.arena.state? i = some .elaborating ∨ i ∈ a.resuming)
    (after : b.engine.arena.Ended i) (asks : a.asks = none) (asks' : b.asks = none)
  | wake (before : i ∉ a.resuming) (after : i ∈ b.resuming)
    (state : b.engine.arena.state? i = a.engine.arena.state? i)
    (keeps : a.engine.arena.deferred i ⊆ b.engine.arena.deferred i)
    (asks : a.asks = none) (asks' : b.asks = some (.resume i))
  | resume (state : b.engine.arena.state? i = a.engine.arena.state? i) (resuming : i ∈ b.resuming)
    (keeps : a.engine.arena.deferred i ⊆ b.engine.arena.deferred i)
    (asks : a.asks = some (.resume i)) (asks' : b.asks = none)

theorem Course.of_arena_eq {i : InstanceId} {a b : Activity}
    (h : b.engine.arena i = a.engine.arena i) (resuming : i ∈ b.resuming ↔ i ∈ a.resuming)
    (before : a.asks ≠ some (.resume i)) (after : b.asks ≠ some (.resume i)) : Course i a b :=
  .stay (congrArg (Option.map _) h) resuming
    (by unfold Arena.deferred; rw [h]; exact List.Subset.refl _) before after

/-- The instance `j` has ended, and those that wait for it are taken. -/
theorem Course.of_taken {i j : InstanceId} {x : Instance} {a : Activity} {e' : Engine} {w' : Work}
    {f : Instance → Instance} (hx : a.engine.arena j = some x)
    (harena : e'.arena = a.engine.arena.alter j f) (hf : (f x).deferred = x.deferred)
    (before : a.engine.arena.state? j = some .elaborating ∨ j ∈ a.resuming)
    (after : (f x).state = .complete ∨ (f x).state = .errored)
    (resuming : i ≠ j → (i ∈ w'.resuming ↔ i ∈ a.resuming)) (asks : a.asks = none) :
    Course i a ⟨w', none, (e'.takeDeferred j).2⟩ := by
  obtain ⟨-, hsnd⟩ := Engine.takeDeferred_alter harena hx hf
  by_cases hi : i = j
  · subst hi
    refine .stop before ?_ asks rfl
    rw [Arena.Ended, hsnd, Arena.state?_eq Arena.put_self]
    exact after.imp (congrArg some) (congrArg some)
  · exact .of_arena_eq (by rw [hsnd, Arena.put_of_ne hi]) (resuming hi) (by simp [asks]) nofun

/-- What every moment of a run has in common. -/
structure Sound (a : Activity) : Prop extends
    Parked a.engine.insts.size a.engine.arena a.toWork where
  asked {i : InstanceId} : a.asks = some (.resume i) → i ∈ a.resuming

theorem Moves.course {σ : Type} {sem : Semantics σ} {a b : Activity} (H : a.Sound)
    (h : Moves sem a b) (i : InstanceId) : Course i a b := by
  cases h with
  | quiet h => exact .of_arena_eq (by rw [h.arena]) .rfl (by simp) (by simp)
  | openScope h => exact .of_arena_eq (by rw [h.arena]) .rfl (by simp) (by simp)
  | elaborate => exact .of_arena_eq rfl .rfl (by simp) (by simp)
  | @resume w e j =>
    by_cases hj : i = j
    · subst hj
      exact .resume rfl (H.asked rfl) (List.Subset.refl _) rfl rfl
    · exact .of_arena_eq rfl .rfl (fun h => hj (by cases h; rfl)) (by simp)
  | @create w e q c p =>
    by_cases hi : i = ⟨e.insts.size⟩
    · subst hi
      refine .make ?_ ?_ rfl
      · exact congrArg (Option.map _) (Engine.arena_eq_none_iff.mpr (Nat.le_refl _))
      · rw [Engine.arena_create, Arena.state?_eq Arena.put_self]
        rfl
    · refine .of_arena_eq ?_ .rfl (by simp) (by simp)
      rw [Engine.arena_create, Arena.put_of_ne hi]
  | @defer w e e' c f j hc hf hj hne he =>
    refine .stay ?_ .rfl ?_ (by simp) (by simp)
    · rw [Arena.state?, he.arena]
      exact Engine.state?_defer ..
    · rw [he.arena]
      exact Engine.deferred_subset_defer ..
  | @suspend w e j rest members hj hc =>
    obtain ⟨x, hx, hxs, -, hres, -⟩ := H.head hj
    have hpos : 0 < x.waitingOn := by
      rw [← Bool.not_eq_true, Engine.isComplete_complete hx] at hc
      omega
    have harena : (e.complete j members).arena = _ := Engine.arena_complete
    rw [Arena.alter_eq_put hx] at harena
    by_cases hi : i = j
    · subst hi
      refine .suspend (hxs ▸ Arena.state?_eq hx) ?_ hres ?_ rfl rfl
      · rw [harena, Arena.state?_eq Arena.put_self, if_pos hpos]
      · rw [harena, Arena.deferred_eq Arena.put_self, Arena.deferred_eq hx]
        exact List.Subset.refl _
    · exact .of_arena_eq (by rw [harena, Arena.put_of_ne hi]) .rfl (by simp) (by simp)
  | @complete w e j rest members hj hc =>
    obtain ⟨x, hx, hxs, -, -, -⟩ := H.head hj
    have hs : e.arena.state? j = some .elaborating := hxs ▸ Arena.state?_eq hx
    have hzero := (Engine.isComplete_complete hx).mp hc
    exact .of_taken hx Engine.arena_complete rfl (.inl hs) (.inl (if_neg (by omega)))
      (fun _ => .rfl) rfl
  | @fail w e j rest names reason span c hj =>
    obtain ⟨x, hx, hxs, -, -, -⟩ := H.head hj
    have hs : e.arena.state? j = some .elaborating := hxs ▸ Arena.state?_eq hx
    exact .of_taken hx Engine.arena_fail rfl (.inl hs) (.inr rfl) (fun _ => .rfl) rfl
  | @release w e j rest hj hgo =>
    refine .stay (e.state?_release j i) .rfl ?_ (by simp) (by simp)
    rw [Engine.deferred_release]
    exact List.Subset.refl _
  | @wake w e j rest hj hgo =>
    have hkeeps : e.arena.deferred i ⊆ (e.release j).2.arena.deferred i := by
      rw [Engine.deferred_release]
      exact List.Subset.refl _
    by_cases hi : i = j
    · subst hi
      refine .wake (fun h => ?_) List.mem_cons_self (e.state?_release i i) hkeeps rfl rfl
      have := (H.resuming.mp h).2
      have := H.waiting_pos hj
      omega
    · refine .stay (e.state?_release j i) ?_ hkeeps (by simp) (fun h => hi (by cases h; rfl))
      rw [List.mem_cons, or_iff_right hi]
  | @settle w e j rest names result hj =>
    have hmem : j ∈ w.resuming := hj ▸ List.mem_cons_self
    obtain ⟨x, hx, -⟩ := Option.map_eq_some_iff.mp (H.resuming.mp hmem).1
    refine .of_taken hx Engine.arena_settle rfl (.inr hmem) ?_ (fun hi => ?_) rfl
    · cases result with
      | ok => exact .inl rfl
      | error => exact .inr rfl
    · rw [hj, List.mem_cons, or_iff_right hi]

theorem Moves.sound {σ : Type} {sem : Semantics σ} {a b : Activity} (H : a.Sound)
    (h : Moves sem a b) : b.Sound where
  toParked := h.parked H.toParked
  asked {i} hb := by
    cases h.course H i with
    | stay _ _ _ _ after => exact absurd hb after
    | make _ _ asks | suspend _ _ _ _ _ asks | stop _ _ _ asks | resume _ _ _ _ asks =>
      rw [asks] at hb
      cases hb
    | wake _ after => exact after

/-- An instance that has ended does not change its state any more. -/
theorem Course.ended {i : InstanceId} {a b : Activity} (h : Course i a b)
    (hi : a.engine.arena.Ended i) : b.engine.arena.Ended i := by
  unfold Arena.Ended at hi ⊢
  cases h with
  | stay state | wake _ _ state | resume state => rwa [state]
  | make before => simp [before] at hi
  | suspend before => simp [before] at hi
  | stop _ after => exact after

/-- An instance that waits for `t` leaves the list only when `t` has ended. -/
theorem Course.deferred {i t : InstanceId} {a b : Activity} (h : Course t a b)
    (hi : i ∈ a.engine.arena.deferred t) :
    i ∈ b.engine.arena.deferred t ∨ b.engine.arena.Ended t := by
  cases h with
  | stay _ _ keeps | suspend _ _ _ keeps | wake _ _ _ keeps | resume _ _ keeps =>
    exact .inl (keeps hi)
  | make before =>
    have : a.engine.arena t = none := Option.map_eq_none_iff.mp before
    simp [Arena.deferred, this] at hi
  | stop _ after => exact .inr after

/-! ## Going on once -/

/-- The instance waits, and the front end has not been asked to go on with it. -/
def Due (i : InstanceId) (a : Activity) : Prop :=
  a.engine.arena.state? i = some .suspended ∧ (i ∉ a.resuming ∨ a.asks = some (.resume i))

/-- The front end goes on with the instance or has done so. -/
def Served (i : InstanceId) (a : Activity) : Prop :=
  a.asks ≠ some (.resume i) ∧ (i ∈ a.resuming ∨ a.engine.arena.Ended i)

theorem Course.due {i : InstanceId} {a b : Activity} (h : Course i a b) (hi : Due i a) :
    a.asks = some (.resume i) ∧ Served i b ∨ a.asks ≠ some (.resume i) ∧ Due i b := by
  obtain ⟨hs, hr⟩ := hi
  cases h with
  | stay state resuming _ before after =>
    exact .inr ⟨before, state ▸ hs, .inl (mt resuming.mp (hr.resolve_right before))⟩
  | make before => simp [before] at hs
  | suspend before => simp [before] at hs
  | stop before _ asks =>
    obtain hb | hb := before
    · simp [hb] at hs
    · exact absurd hb (hr.resolve_right (by simp [asks]))
  | wake _ _ state _ asks asks' =>
    exact .inr ⟨by simp [asks], state ▸ hs, .inr asks'⟩
  | resume state resuming _ asks asks' =>
    exact .inl ⟨asks, by simp [asks'], .inl resuming⟩

theorem Course.served {i : InstanceId} {a b : Activity} (H : a.Sound) (H' : b.Sound)
    (h : Course i a b) (hi : Served i a) : Served i b := by
  obtain ⟨hasks, hi⟩ := hi
  have hresuming : i ∈ a.resuming → a.engine.arena.state? i = some .suspended :=
    fun h => (H.resuming.mp h).1
  have hended : i ∉ a.resuming → b.engine.arena.Ended i := fun hn => h.ended (hi.resolve_left hn)
  cases h with
  | stay state resuming _ _ after =>
    refine ⟨after, ?_⟩
    by_cases hr : i ∈ a.resuming
    · exact .inl (resuming.mpr hr)
    · exact .inr (hended hr)
  | make before after asks =>
    have := hended fun h => by simp [hresuming h] at before
    simp [Arena.Ended, after] at this
  | suspend before after =>
    have := hended fun h => by simp [hresuming h] at before
    simp [Arena.Ended, after] at this
  | stop _ after _ asks => exact ⟨by simp [asks], .inr after⟩
  | wake before after =>
    have hb := hended before
    simp [Arena.Ended, (H'.resuming.mp after).1] at hb
  | resume _ _ _ asks => exact absurd asks hasks

theorem Course.of_suspended {i : InstanceId} {a b : Activity} (h : Course i a b)
    (ha : a.engine.arena.state? i ≠ some .suspended)
    (hb : b.engine.arena.state? i = some .suspended) : Due i b := by
  cases h with
  | stay state | wake _ _ state | resume state => exact absurd (state ▸ hb) ha
  | make _ after => simp [after] at hb
  | suspend _ _ resuming => exact ⟨hb, .inl resuming⟩
  | stop _ after => simp [Arena.Ended, hb] at after

end Activity

end Templates
