import Mathlib.Data.Finset.Card
import Templates.Proofs.Parking

/-!
# Instances that have been elaborated

Once an instance has been elaborated nobody begins to wait for it any more, and who waits for it has
been elaborated too (`Activity.Calm`). So all that is ever released in one go was there when the
releases began, and each instance that goes on leaves one less that has not ended
(`Arena.unended_lt`).
-/

namespace Templates

/-! ## Arenas -/

namespace Arena

variable {a b : Arena} {i j t u : InstanceId} {x y : Instance} {n : Nat}
  {pending pending' : List InstanceId}

/-- The instance was made, and the front end is done with its members. -/
def Elaborated (a : Arena) (i : InstanceId) : Prop :=
  ∃ s, a.state? i = some s ∧ s ≠ .elaborating

instance (a : Arena) (i : InstanceId) : Decidable (a.Ended i) :=
  inferInstanceAs (Decidable (_ ∨ _))

/-- How many of the first `n` instances have not ended. -/
def unended (a : Arena) (n : Nat) : Nat := ((Finset.range n).filter fun i => ¬a.Ended ⟨i⟩).card

theorem unended_le (h : ∀ i, a.Ended i → b.Ended i) : b.unended n ≤ a.unended n :=
  Finset.card_le_card (Finset.monotone_filter_right _ fun i _ hi ha => hi (h ⟨i⟩ ha))

theorem unended_lt (h : ∀ i, a.Ended i → b.Ended i) (hi : i.index < n) (ha : ¬a.Ended i)
    (hb : b.Ended i) : b.unended n < a.unended n := by
  refine Finset.card_lt_card (Finset.ssubset_iff_of_subset ?_ |>.mpr ⟨i.index, ?_, ?_⟩)
  · exact Finset.monotone_filter_right _ fun i _ hi ha => hi (h ⟨i⟩ ha)
  · exact Finset.mem_filter.mpr ⟨Finset.mem_range.mpr hi, ha⟩
  · exact fun h => (Finset.mem_filter.mp h).2 hb

/-- An instance that is elaborated waits only for others that are, and what is to be released has
been elaborated. -/
structure Calm (a : Arena) (pending : List InstanceId) : Prop where
  pending {u : InstanceId} : u ∈ pending → a.state? u ≠ some .elaborating
  waiting {t u : InstanceId} :
    u ∈ a.deferred t → a.state? u = some .elaborating → a.state? t = some .elaborating

namespace Calm

/-- Instances are as they were. -/
theorem congr (H : a.Calm pending) (hs : ∀ u, b.state? u = a.state? u)
    (hd : ∀ {t u}, u ∈ b.deferred t → u ∈ a.deferred t ∨ b.state? t = some .elaborating)
    (hp : ∀ u ∈ pending', u ∈ pending) : b.Calm pending' where
  pending h := hs _ ▸ H.pending (hp _ h)
  waiting {t u} h hu := by
    obtain h | h := hd h
    · rw [hs] at hu ⊢
      exact H.waiting h hu
    · exact h

/-- The instance `i` has been elaborated, and so has who waits for it. -/
theorem put (H : a.Calm pending) (hlate : ∀ u ∈ a.deferred i, a.state? u ≠ some .elaborating)
    (hs : y.state ≠ .elaborating) (hd : y.deferred ⊆ a.deferred i)
    (hp : ∀ u ∈ pending', u ∈ a.deferred i ∨ u ∈ pending) : (a.put i y).Calm pending' := by
  have hstate {u : InstanceId} (hu : (a.put i y).state? u = some .elaborating) :
      u ≠ i ∧ a.state? u = some .elaborating := by
    rw [state?_put] at hu
    split at hu
    · exact absurd (Option.some.inj hu) hs
    · next hne => exact ⟨hne, hu⟩
  refine ⟨fun {u} hu hu' => ?_, fun {t u} ht hu => ?_⟩
  · obtain ⟨-, hu'⟩ := hstate hu'
    obtain h | h := hp u hu
    · exact hlate u h hu'
    · exact H.pending h hu'
  · obtain ⟨-, hu⟩ := hstate hu
    rw [deferred_put] at ht
    split at ht
    · exact absurd hu (hlate u (hd ht))
    · next hne =>
      rw [state?_put, if_neg hne]
      exact H.waiting ht hu

end Calm

end Arena

namespace Parked

variable {n : Nat} {a : Arena} {w : Work} {i t : InstanceId} {rest : List InstanceId}

theorem lt_of_waitingOn (H : Parked n a w) (h : 0 < a.waitingOn i) : i.index < n := by
  refine H.made.mp ?_
  cases hx : a i with
  | none => simp [Arena.waitingOn, hx] at h
  | some => rfl

theorem lt_of_mem_pending (H : Parked n a w) (h : i ∈ w.pending) : i.index < n := by
  refine H.lt_of_waitingOn ?_
  have := H.waiting i
  have := List.count_pos_iff.mpr h
  omega

theorem lt_of_mem_deferred (H : Parked n a w) (h : i ∈ a.deferred t) : i.index < n := by
  refine H.lt_of_waitingOn ?_
  have hlt : t.index < n := (H.target h).2.elim H.lt_of_state? H.lt_of_state?
  have hpos : 0 < a.parkings n i :=
    List.countP_pos_iff.mpr ⟨t.index, List.mem_range.mpr hlt, by simpa using h⟩
  have := H.waiting i
  omega

/-- Nobody waits for the innermost instance while it is elaborated itself. -/
theorem state?_ne_of_waits_head (H : Parked n a w) (hi : w.elaborating = i :: rest) {u : InstanceId}
    (hu : u ∈ a.deferred i) : a.state? u ≠ some .elaborating := by
  intro h
  have hlt := (H.target hu).1
  have hmem := H.elaborating.mpr h
  rw [hi] at hmem
  obtain rfl | hmem := List.mem_cons.mp hmem
  · omega
  · have := List.rel_of_pairwise_cons (hi ▸ H.ordered) hmem
    omega

end Parked

/-- An instance that has gone on has ended, and who waited for it is to be released. -/
theorem Engine.takeDeferred_settle {e : Engine} {i : InstanceId} {x : Instance}
    (hx : e.arena i = some x) (names : SymbolId → String) (result : Except Failure Unit) :
    ((e.settle names i result).takeDeferred i).1 = e.arena.deferred i ∧
      ((e.settle names i result).takeDeferred i).2.arena.Ended i := by
  obtain ⟨hfst, hsnd⟩ := takeDeferred_alter arena_settle hx rfl
  refine ⟨hfst, ?_⟩
  rw [hsnd, Arena.Ended, Arena.state?_eq Arena.put_self]
  cases result with
  | ok => exact .inl rfl
  | error => exact .inr rfl

/-! ## Moves -/

namespace Activity

variable {σ : Type} {sem : Semantics σ} {a b : Activity} {i t : InstanceId}

/-- What is to be released, and who waits for an instance that has been elaborated, has been
elaborated itself. -/
def Calm (a : Activity) : Prop := a.engine.arena.Calm a.pending

theorem Moves.calm (H : a.Sound) (hc : a.Calm) (h : Moves sem a b) : b.Calm := by
  unfold Calm at hc ⊢
  have hmem {l l' : List InstanceId} {u : InstanceId} (h : u ∈ l.reverse ++ l') :
      u ∈ l ∨ u ∈ l' := (List.mem_append.mp h).imp_left List.mem_reverse.mp
  cases h with
  | quiet h | openScope h => exact h.arena ▸ hc
  | elaborate | resume => exact hc
  | @create w e =>
    change Arena.Calm (Engine.create ..).2.arena _
    rw [Engine.arena_create]
    have hnew {u : InstanceId} (hu : u.index < e.insts.size) : u ≠ ⟨e.insts.size⟩ := by
      rintro rfl
      exact Nat.lt_irrefl _ hu
    refine ⟨fun {u} hu => ?_, fun {t u} ht hu => ?_⟩
    · rw [Arena.state?_put, if_neg (hnew (H.lt_of_mem_pending hu))]
      exact hc.pending hu
    · rw [Arena.deferred_put] at ht
      split at ht
      · cases ht
      · next hne =>
        rw [Arena.state?_put, if_neg (hnew (H.lt_of_mem_deferred ht))] at hu
        rw [Arena.state?_put, if_neg hne]
        exact hc.waiting ht hu
  | @defer w e e' c f i hpre hf hi hne he =>
    have hstate (u : InstanceId) : (e.defer i f.inst).arena.state? u = e.arena.state? u :=
      e.state?_defer ..
    change e'.arena.Calm _
    rw [he.arena]
    refine hc.congr hstate (fun {t u} h => ?_) fun u hu => hu
    refine (Engine.mem_deferred_defer h).imp_right ?_
    rintro ⟨-, rfl⟩
    rw [hstate]
    exact H.elaborating.mp (hpre.subset (List.mem_map_of_mem hf))
  | @suspend w e i rest members hi hns =>
    obtain ⟨x, hx, -⟩ := H.head hi
    have hpos : 0 < x.waitingOn := by
      rw [← Bool.not_eq_true, Engine.isComplete_complete hx] at hns
      omega
    change (e.complete i members).arena.Calm _
    rw [Engine.arena_complete, Arena.alter_eq_put hx]
    refine hc.put (fun u => H.state?_ne_of_waits_head hi) ?_ ?_ fun u hu => .inr hu
    · simp [hpos]
    · rw [Arena.deferred_eq hx]
      exact List.Subset.refl _
  | @complete w e i rest members hi hd =>
    obtain ⟨x, hx, -⟩ := H.head hi
    obtain ⟨hfst, hsnd⟩ := Engine.takeDeferred_alter Engine.arena_complete hx rfl
    have hzero := (Engine.isComplete_complete hx).mp hd
    dsimp only
    rw [hfst, hsnd]
    refine hc.put (fun u => H.state?_ne_of_waits_head hi) ?_ (List.nil_subset _) fun u hu => hmem hu
    simp [hzero]
  | @fail w e i rest names reason span c hi =>
    obtain ⟨x, hx, -⟩ := H.head hi
    have hfail : (e.fail names i reason span c).2.arena = _ := Engine.arena_fail
    obtain ⟨hfst, hsnd⟩ := Engine.takeDeferred_alter hfail hx rfl
    dsimp only
    rw [hfst, hsnd]
    exact hc.put (fun u => H.state?_ne_of_waits_head hi) nofun (List.nil_subset _)
      fun u hu => hmem hu
  | @release w e i rest hi | @wake w e i rest hi =>
    refine hc.congr (e.state?_release i) (fun {t u} h => .inl ?_) fun u hu => ?_
    · rwa [Engine.deferred_release] at h
    · change u ∈ w.pending
      rw [hi]
      exact List.mem_cons_of_mem _ hu
  | @settle w e i rest names result hi =>
    obtain ⟨hs, -⟩ := H.resuming.mp (hi ▸ List.mem_cons_self)
    obtain ⟨x, hx, -⟩ := Option.map_eq_some_iff.mp hs
    have hsettle : (e.settle names i result).arena = _ := Engine.arena_settle
    obtain ⟨hfst, hsnd⟩ := Engine.takeDeferred_alter hsettle hx rfl
    dsimp only
    rw [hfst, hsnd]
    refine hc.put (fun u hu hu' => ?_) ?_ (List.nil_subset _) fun u hu => hmem hu
    · have hi' := hc.waiting hu hu'
      change e.arena.state? i = _ at hi'
      rw [hs] at hi'
      cases hi'
    · cases result <;> nofun

/-- Who waits for an instance that has been elaborated has been so too. -/
theorem Calm.elaborated (hc : a.Calm) (H : a.Sound) (ht : a.engine.arena.Elaborated t)
    (hi : i ∈ a.engine.arena.deferred t) : a.engine.arena.Elaborated i := by
  obtain ⟨x, hx⟩ := Option.isSome_iff_exists.mp (H.made.mpr (H.lt_of_mem_deferred hi))
  refine ⟨x.state, Arena.state?_eq hx, fun hs => ?_⟩
  obtain ⟨s, ht, hne⟩ := ht
  have := hc.waiting hi (hs ▸ Arena.state?_eq hx)
  rw [ht] at this
  exact hne (Option.some.inj this)

theorem Calm.elaborated_of_pending (hc : a.Calm) (H : a.Sound) (hi : i ∈ a.pending) :
    a.engine.arena.Elaborated i := by
  obtain ⟨x, hx⟩ := Option.isSome_iff_exists.mp (H.made.mpr (H.lt_of_mem_pending hi))
  exact ⟨x.state, Arena.state?_eq hx, fun hs => hc.pending hi (hs ▸ Arena.state?_eq hx)⟩

theorem Course.elaborated (h : Course i a b) (hi : a.engine.arena.Elaborated i) :
    b.engine.arena.Elaborated i := by
  obtain ⟨s, hs, hne⟩ := hi
  cases h with
  | stay state | wake _ _ state | resume state => exact ⟨s, state.trans hs, hne⟩
  | make before =>
    rw [hs] at before
    cases before
  | suspend _ after => exact ⟨_, after, nofun⟩
  | stop _ after => exact after.elim (⟨_, ·, nofun⟩) (⟨_, ·, nofun⟩)

/-- Nobody begins to wait for an instance that has been elaborated. -/
theorem Moves.deferred_subset (H : a.Sound) (h : Moves sem a b) (ht : a.engine.arena.Elaborated t) :
    b.engine.arena.deferred t ⊆ a.engine.arena.deferred t := by
  have halter {e e' : Engine} {i : InstanceId} {f : Instance → Instance}
      (he : e'.arena = e.arena.alter i f) (hf : ∀ x, (f x).deferred = x.deferred) :
      e'.arena.deferred t ⊆ e.arena.deferred t := by
    rw [he, Arena.deferred_alter hf]
    exact List.Subset.refl _
  cases h with
  | quiet h | openScope h => rw [h.arena]; exact List.Subset.refl _
  | elaborate | resume => exact List.Subset.refl _
  | create =>
    rw [Engine.arena_create, Arena.deferred_put]
    split
    · exact List.nil_subset _
    · exact List.Subset.refl _
  | @defer w e e' c f i hpre hf hi hne he =>
    rw [he.arena]
    intro u hu
    refine (Engine.mem_deferred_defer hu).resolve_right ?_
    rintro ⟨-, rfl⟩
    obtain ⟨s, hs, hne⟩ := ht
    have := H.elaborating.mp (hpre.subset (List.mem_map_of_mem hf))
    rw [hs] at this
    exact hne (Option.some.inj this)
  | suspend =>
    refine halter Engine.arena_complete ?_
    exact fun _ => rfl
  | complete =>
    refine fun u hu => halter Engine.arena_complete ?_ (Engine.mem_deferred_takeDeferred hu)
    exact fun _ => rfl
  | fail =>
    refine fun u hu => halter Engine.arena_fail ?_ (Engine.mem_deferred_takeDeferred hu)
    exact fun _ => rfl
  | release | wake => rw [Engine.deferred_release]; exact List.Subset.refl _
  | settle =>
    refine fun u hu => halter Engine.arena_settle ?_ (Engine.mem_deferred_takeDeferred hu)
    exact fun _ => rfl

end Activity

/-! ## Runs -/

namespace Service

variable {σ α : Type} {svc : Service σ} {config : EngineConfig} {s : σ} {p : Program σ α}
  {i t : InstanceId} {k n : Nat} (hsvc : svc.HandsOn) (hp : p.Hands [])

include hsvc hp

theorem calm_after (n : Nat) : (svc.after n (.boot config s p)).activity.Calm := by
  refine (always hsvc hp (P := fun a => a.Sound ∧ a.Calm) ?_ ?_ n).2
  · exact ⟨⟨.init, nofun⟩, nofun, nofun⟩
  · exact fun a b _ H h => ⟨h.sound H.1, h.calm H.1 H.2⟩

theorem ended_mono (hk : k ≤ n) (hi : (svc.after k (.boot config s p)).engine.arena.Ended i) :
    (svc.after n (.boot config s p)).engine.arena.Ended i := by
  induction n, hk using Nat.le_induction with
  | base => exact hi
  | succ n _ ih => exact (course_after hsvc hp i n).ended ih

/-- What is known later of an instance that has been elaborated. -/
theorem elaborated_mono (hk : k ≤ n)
    (ht : (svc.after k (.boot config s p)).engine.arena.Elaborated t) :
    (svc.after n (.boot config s p)).engine.arena.Elaborated t ∧
      (svc.after n (.boot config s p)).engine.arena.deferred t ⊆
        (svc.after k (.boot config s p)).engine.arena.deferred t := by
  induction n, hk using Nat.le_induction with
  | base => exact ⟨ht, List.Subset.refl _⟩
  | succ n _ ih =>
    refine ⟨(course_after hsvc hp t n).elaborated ih.1, ?_⟩
    exact List.Subset.trans
      ((after_moves hsvc hp n).deferred_subset (sound_after hsvc hp n) ih.1) ih.2

end Service

end Templates
