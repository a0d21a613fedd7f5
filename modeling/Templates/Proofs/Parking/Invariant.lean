import Mathlib.Data.List.Nodup
import Templates.Proofs.Machine.Activity

/-!
# Instances that wait

`Parked` relates the work in hand to what the engine keeps: who is in hand is what the states say,
and an instance waits for as many others as it has places in the lists of those that wait and among
those that are to be released. Every change that a move makes to the instances preserves it.
-/

namespace Templates

namespace Arena

/-- The number of the first `n` instances that `i` waits for. -/
def parkings (a : Arena) (n : Nat) (i : InstanceId) : Nat :=
  (List.range n).countP fun t => i ∈ a.deferred ⟨t⟩

def InProgress (a : Arena) (i : InstanceId) : Prop :=
  a.state? i = some .elaborating ∨ a.state? i = some .suspended

/-- The instance will not go on any more. -/
def Ended (a : Arena) (i : InstanceId) : Prop :=
  a.state? i = some .complete ∨ a.state? i = some .errored

variable {a b : Arena} {n : Nat} {i j t : InstanceId}

theorem parkings_congr (h : ∀ t, t.index < n → (i ∈ b.deferred t ↔ i ∈ a.deferred t)) :
    b.parkings n i = a.parkings n i := by
  refine List.countP_congr fun t ht => ?_
  simp [h ⟨t⟩ (List.mem_range.mp ht)]

/-- One list is changed. -/
theorem parkings_change (ht : t.index < n) (h : ∀ u, u ≠ t → b.deferred u = a.deferred u) :
    b.parkings n i + (if i ∈ a.deferred t then 1 else 0) =
      a.parkings n i + if i ∈ b.deferred t then 1 else 0 := by
  induction n with
  | zero => exact absurd ht (Nat.not_lt_zero _)
  | succ n ih =>
    simp only [parkings, List.range_succ, List.countP_append, List.countP_singleton,
      decide_eq_true_eq] at ih ⊢
    by_cases htn : t.index = n
    · obtain rfl : t = ⟨n⟩ := congrArg InstanceId.mk htn
      have hrest : b.parkings n i = a.parkings n i :=
        parkings_congr fun u hu => by rw [h u (fun he => by simp [he] at hu)]
      unfold parkings at hrest
      omega
    · rw [h ⟨n⟩ (fun he => htn (congrArg InstanceId.index he).symm)]
      have := ih (by omega)
      omega

end Arena

/-- Who is in hand is what the states say. There are `n` instances. -/
structure Arranged (n : Nat) (a : Arena) (w : Work) : Prop where
  made {i : InstanceId} : (a i).isSome ↔ i.index < n
  ordered : w.elaborating.Pairwise fun i j => j.index < i.index
  elaborating {i : InstanceId} : i ∈ w.elaborating ↔ a.state? i = some .elaborating
  nodup : w.resuming.Nodup
  resuming {i : InstanceId} :
    i ∈ w.resuming ↔ a.state? i = some .suspended ∧ a.waitingOn i = 0
  once {t : InstanceId} : (a.deferred t).Nodup
  target {i t : InstanceId} : i ∈ a.deferred t → t.index < i.index ∧ a.InProgress t
  members {i : InstanceId} : a.state? i = some .suspended ∨ a.state? i = some .complete →
    (a.members? i).isSome

/-- An instance waits for as many others as have it in their lists or have left it to be
released. -/
structure Parked (n : Nat) (a : Arena) (w : Work) : Prop extends Arranged n a w where
  waiting (i : InstanceId) : a.waitingOn i = a.parkings n i + w.pending.count i

namespace Arranged

variable {n n' : Nat} {a : Arena} {w w' : Work} {i j t : InstanceId} {rest : List InstanceId}
  {x y : Instance}

theorem init : Arranged 0 (fun _ => none) {} where
  made := by simp
  ordered := .nil
  elaborating := by simp [Arena.state?]
  nodup := .nil
  resuming := by simp [Arena.state?]
  once := .nil
  target h := nomatch h
  members h := by simp [Arena.state?] at h

theorem lt_of_state? (H : Arranged n a w) {s : InstanceState} (h : a.state? i = some s) :
    i.index < n := by
  obtain ⟨x, hx, -⟩ := Option.map_eq_some_iff.mp h
  exact H.made.mp (by rw [hx]; rfl)

/-- A change of the instance `i`, which may be new, and of the work in hand. -/
theorem put (H : Arranged n a w) (made : ∀ j : InstanceId, j.index < n' ↔ j = i ∨ j.index < n)
    (ordered : w'.elaborating.Pairwise fun i j => j.index < i.index)
    (elaborating : ∀ j, j ∈ w'.elaborating ↔
      if j = i then y.state = .elaborating else j ∈ w.elaborating)
    (nodup : w'.resuming.Nodup)
    (resuming : ∀ j, j ∈ w'.resuming ↔
      if j = i then y.state = .suspended ∧ y.waitingOn = 0 else j ∈ w.resuming)
    (once : y.deferred.Nodup)
    (target : ∀ j ∈ y.deferred, i.index < j.index ∧ (y.state = .elaborating ∨ y.state = .suspended))
    (members : y.state = .suspended ∨ y.state = .complete → y.members.isSome) :
    Arranged n' (a.put i y) w' where
  made {j} := by
    rw [made]
    by_cases hj : j = i
    · simp [hj]
    · rw [Arena.put_of_ne hj, H.made, or_iff_right hj]
  ordered := ordered
  elaborating {j} := by
    rw [elaborating, Arena.state?_put]
    split
    · simp
    · exact H.elaborating
  nodup := nodup
  resuming {j} := by
    rw [resuming, Arena.state?_put, Arena.waitingOn_put]
    split
    · simp
    · exact H.resuming
  once {t} := by
    rw [Arena.deferred_put]
    split
    · exact once
    · exact H.once
  target {j t} h := by
    rw [Arena.deferred_put] at h
    rw [Arena.InProgress, Arena.state?_put]
    split at h
    · next ht =>
      subst ht
      simpa using target j h
    · next ht =>
      rw [if_neg ht]
      exact H.target h
  members {j} h := by
    rw [Arena.state?_put] at h
    rw [Arena.members?_put]
    split at h
    · next hj =>
      rw [if_pos hj]
      exact members (by simpa using h)
    · next hj =>
      rw [if_neg hj]
      exact H.members h

theorem old (H : Arranged n a w) (hx : a i = some x) (j : InstanceId) :
    j.index < n ↔ j = i ∨ j.index < n := by
  refine ⟨.inr, fun h => h.elim (fun he => ?_) id⟩
  rw [he]
  exact H.made.mp (by rw [hx]; rfl)

/-- An instance that is being elaborated changes, but not its state. -/
theorem putElaborating (H : Arranged n a w) (hx : a i = some x) (hxs : x.state = .elaborating)
    (hys : y.state = .elaborating) (once : y.deferred.Nodup)
    (target : ∀ j ∈ y.deferred, i.index < j.index) : Arranged n (a.put i y) w := by
  have hi : a.state? i = some .elaborating := hxs ▸ Arena.state?_eq hx
  refine H.put (H.old hx) H.ordered (fun j => ?_) H.nodup (fun j => ?_) once
    (fun j hj => ⟨target j hj, .inl hys⟩) (by simp [hys])
  · split
    · next h => exact iff_of_true (h ▸ H.elaborating.mpr hi) hys
    · rfl
  · split
    · next h =>
      refine iff_of_false (fun hj => ?_) (by simp [hys])
      have := (H.resuming.mp hj).1
      rw [h, hi] at this
      cases this
    · rfl

/-- The innermost of the instances that are being elaborated. -/
theorem head (H : Arranged n a w) (hi : w.elaborating = i :: rest) :
    ∃ x, a i = some x ∧ x.state = .elaborating ∧ i ∉ rest ∧ i ∉ w.resuming ∧
      rest.Pairwise fun i j => j.index < i.index := by
  have hs : a.state? i = some .elaborating := H.elaborating.mp (by simp [hi])
  obtain ⟨x, hx, hxs⟩ := Option.map_eq_some_iff.mp hs
  have ho := List.pairwise_cons.mp (hi ▸ H.ordered)
  refine ⟨x, hx, hxs, fun h => absurd (ho.1 i h) (Nat.lt_irrefl _), fun h => ?_, ho.2⟩
  have := (H.resuming.mp h).1
  rw [hs] at this
  cases this

theorem mem_elaborating_tail (H : Arranged n a w) (hi : w.elaborating = i :: rest) (j : InstanceId) :
    j ∈ rest ↔ j ≠ i ∧ j ∈ w.elaborating := by
  obtain ⟨-, -, -, hrest, -⟩ := H.head hi
  rw [hi, List.mem_cons]
  constructor
  · exact fun h => ⟨fun he => hrest (he ▸ h), .inr h⟩
  · exact fun ⟨hne, h⟩ => h.resolve_left hne

end Arranged

namespace Parked

variable {n : Nat} {a : Arena} {w : Work} {i j t : InstanceId} {rest : List InstanceId}
  {x y : Instance}

theorem init : Parked 0 (fun _ => none) {} :=
  ⟨.init, by simp [Arena.waitingOn, Arena.parkings]⟩

theorem create (H : Parked n a w) (hx : x.state = .elaborating) (hw : x.waitingOn = 0)
    (hd : x.deferred = []) :
    Parked (n + 1) (a.put ⟨n⟩ x) { w with elaborating := ⟨n⟩ :: w.elaborating } where
  toArranged := by
    have hold : ∀ j : InstanceId, j.index < n + 1 ↔ j = ⟨n⟩ ∨ j.index < n := by
      intro j
      rw [Nat.lt_succ_iff_lt_or_eq, or_comm]
      exact or_congr_left ⟨congrArg InstanceId.mk, congrArg InstanceId.index⟩
    refine H.put hold ?_ (fun j => ?_) H.nodup (fun j => ?_) (hd ▸ .nil) (by simp [hd])
      (by simp [hx])
    · exact List.pairwise_cons.mpr ⟨fun j hj => H.lt_of_state? (H.elaborating.mp hj), H.ordered⟩
    · rw [List.mem_cons]
      split
      · next h => simp [h, hx]
      · next h => exact or_iff_right h
    · split
      · next h =>
        refine iff_of_false (fun hj => ?_) (by simp [hx])
        have := H.lt_of_state? (H.resuming.mp hj).1
        simp [h] at this
      · rfl
  waiting j := by
    have hnew : a ⟨n⟩ = none := by
      by_contra h
      exact absurd (H.made.mp (Option.isSome_iff_ne_none.mpr h)) (Nat.lt_irrefl n)
    have hdef (t : InstanceId) : (a.put ⟨n⟩ x).deferred t = a.deferred t := by
      rw [Arena.deferred_put]
      split
      · next h => rw [h, hd, Arena.deferred, hnew]; rfl
      · rfl
    have hpark : (a.put ⟨n⟩ x).parkings (n + 1) j = a.parkings n j := by
      unfold Arena.parkings
      rw [List.range_succ, List.countP_append, List.countP_singleton]
      simp [hdef, Arena.deferred.eq_def a ⟨n⟩, hnew]
    rw [Arena.waitingOn_put, hpark]
    split
    · next h =>
      have := H.waiting ⟨n⟩
      rw [Arena.waitingOn, hnew] at this
      rw [h, hw]
      exact this
    · exact H.waiting j

/-- The innermost instance begins to wait for one further out. -/
theorem defer (H : Parked n a w) (hi : w.elaborating = i :: rest) (ht : t ∈ rest)
    (hd : i ∉ a.deferred t) :
    Parked n ((a.alter t fun x => { x with deferred := x.deferred ++ [i] }).alter i fun x =>
      { x with waitingOn := x.waitingOn + 1 }) w := by
  obtain ⟨x, hx, hxs, hrest, -, -⟩ := H.head hi
  have hti : a.state? t = some .elaborating := H.elaborating.mp (by simp [hi, ht])
  obtain ⟨y, hy, hys⟩ := Option.map_eq_some_iff.mp hti
  have hlt : t.index < i.index := (List.pairwise_cons.mp (hi ▸ H.ordered)).1 t ht
  have hne : i ≠ t := fun he => hrest (he ▸ ht)
  have hyd : a.deferred t = y.deferred := Arena.deferred_eq hy
  have hxd : a.deferred i = x.deferred := Arena.deferred_eq hx
  have hxw : a.waitingOn i = x.waitingOn := Arena.waitingOn_eq hx
  have hx' : a.put t { y with deferred := y.deferred ++ [i] } i = some x := by
    rw [Arena.put_of_ne hne, hx]
  rw [Arena.alter_eq_put hy, Arena.alter_eq_put hx']
  refine ⟨?_, fun j => ?_⟩
  · have hfirst : Arranged n (a.put t { y with deferred := y.deferred ++ [i] }) w := by
      refine H.putElaborating hy hys hys ?_ fun j hj => ?_
      · rw [← hyd]
        exact List.nodup_append.mpr ⟨H.once, List.nodup_singleton i, by
          rintro j hj k hk rfl
          exact hd (List.mem_singleton.mp hk ▸ hj)⟩
      · obtain hj | hj := List.mem_append.mp hj
        · exact (H.target (hyd ▸ hj)).1
        · rw [List.mem_singleton.mp hj]
          exact hlt
    exact hfirst.putElaborating hx' hxs hxs (hxd ▸ H.once) fun j hj =>
      (H.target (hxd ▸ hj)).1
  · let b := (a.put t { y with deferred := y.deferred ++ [i] }).put i
      { x with waitingOn := x.waitingOn + 1 }
    have hbt : b.deferred t = a.deferred t ++ [i] := by
      rw [Arena.deferred_put, if_neg hne.symm, Arena.deferred_put, if_pos rfl, hyd]
    have hbu (u : InstanceId) (hu : u ≠ t) : b.deferred u = a.deferred u := by
      rw [Arena.deferred_put, Arena.deferred_put, if_neg hu]
      split
      · next h => rw [h, hxd]
      · rfl
    have hbw : b.waitingOn j = if j = i then a.waitingOn i + 1 else a.waitingOn j := by
      rw [Arena.waitingOn_put, Arena.waitingOn_put, hxw]
      split
      · rfl
      · split
        · next h => rw [h, Arena.waitingOn, hy]; rfl
        · rfl
    have hpark := Arena.parkings_change (i := j) (H.lt_of_state? hti) hbu
    have hwait := H.waiting j
    rw [hbt] at hpark
    change b.waitingOn j = b.parkings n j + _
    rw [hbw]
    by_cases hj : j = i
    · subst hj
      rw [if_neg hd, if_pos (by simp)] at hpark
      rw [if_pos rfl]
      omega
    · have hmem : j ∈ a.deferred t ++ [i] ↔ j ∈ a.deferred t := by simp [hj]
      simp only [hmem] at hpark
      rw [if_neg hj]
      omega

/-- The innermost instance has its members and waits. -/
theorem suspend (H : Parked n a w) (hi : w.elaborating = i :: rest) (hx : a i = some x)
    (hs : y.state = .suspended) (hw : y.waitingOn = x.waitingOn) (hpos : 0 < x.waitingOn)
    (hd : y.deferred = x.deferred) (hm : y.members.isSome) :
    Parked n (a.put i y) { w with elaborating := rest } := by
  obtain ⟨x', hx', hxs, hrest, hres, ho⟩ := H.head hi
  obtain rfl : x' = x := Option.some.inj (hx'.symm.trans hx)
  have hxd : a.deferred i = x'.deferred := Arena.deferred_eq hx
  have hxw : a.waitingOn i = x'.waitingOn := Arena.waitingOn_eq hx
  have hdef (t : InstanceId) : (a.put i y).deferred t = a.deferred t := by
    rw [Arena.deferred_put]
    split
    · next h => rw [h, hd, hxd]
    · rfl
  refine ⟨H.put (H.old hx) ho (fun j => ?_) H.nodup (fun j => ?_) (hd ▸ hxd ▸ H.once)
    (fun j hj => ?_) fun _ => hm, fun j => ?_⟩
  · rw [H.mem_elaborating_tail hi]
    split <;> simp_all
  · split
    · next h => exact iff_of_false (h ▸ hres) (by omega)
    · rfl
  · exact ⟨(H.target (hxd ▸ hd ▸ hj)).1, .inr hs⟩
  · have hpark : (a.put i y).parkings n j = a.parkings n j :=
      Arena.parkings_congr fun t _ => by rw [hdef]
    rw [hpark, Arena.waitingOn_put]
    split
    · next h => rw [h, hw, ← hxw]; exact H.waiting i
    · exact H.waiting j

/-- The instance `i` has ended. Those that waited for it are to be released. -/
theorem stop {w' : Work} (H : Parked n a w) (hx : a i = some x)
    (hs : y.state = .complete ∧ y.members.isSome ∨ y.state = .errored)
    (hw : y.waitingOn = x.waitingOn) (hd : y.deferred = [])
    (ordered : w'.elaborating.Pairwise fun i j => j.index < i.index)
    (elaborating : ∀ j, j ∈ w'.elaborating ↔ j ≠ i ∧ j ∈ w.elaborating)
    (nodup : w'.resuming.Nodup)
    (resuming : ∀ j, j ∈ w'.resuming ↔ j ≠ i ∧ j ∈ w.resuming)
    (pending : w'.pending = (a.deferred i).reverse ++ w.pending) :
    Parked n (a.put i y) w' := by
  have hxw : a.waitingOn i = x.waitingOn := Arena.waitingOn_eq hx
  have hne : y.state ≠ .elaborating ∧ y.state ≠ .suspended := by
    obtain ⟨h, -⟩ | h := hs <;> simp [h]
  refine ⟨H.put (H.old hx) ordered (fun j => ?_) nodup (fun j => ?_) (hd ▸ .nil) (by simp [hd])
    fun h => ?_, fun j => ?_⟩
  · rw [elaborating]
    split
    · next h => exact iff_of_false (fun hj => hj.1 h) hne.1
    · next h => exact and_iff_right h
  · rw [resuming]
    split
    · next h => exact iff_of_false (fun hj => hj.1 h) fun hy => hne.2 hy.1
    · next h => exact and_iff_right h
  · obtain ⟨-, hm⟩ | he := hs
    · exact hm
    · simp [he] at h
  · have hlt : i.index < n := H.made.mp (by rw [hx]; rfl)
    have hpark := Arena.parkings_change (i := j) hlt
      fun u hu => (Arena.deferred_put a i u y).trans (if_neg hu)
    have hmem : j ∉ (a.put i y).deferred i := by simp [Arena.deferred_put, hd]
    have hcount : w'.pending.count j =
        (if j ∈ a.deferred i then 1 else 0) + w.pending.count j := by
      rw [pending, List.count_append, List.count_reverse, H.once.count]
    have hwait : (a.put i y).waitingOn j = a.waitingOn j := by
      rw [Arena.waitingOn_put]
      split
      · next h => rw [h, hw, hxw]
      · rfl
    rw [if_neg hmem] at hpark
    have := H.waiting j
    omega

theorem waiting_pos (H : Parked n a w) (hi : w.pending = i :: rest) : 0 < a.waitingOn i := by
  have := H.waiting i
  rw [hi, List.count_cons_self] at this
  omega

/-- An instance that waited has one less to wait for, and goes on if there is none left. -/
theorem release {w' : Work} (H : Parked n a w) (hi : w.pending = i :: rest)
    (elaborating : w'.elaborating = w.elaborating)
    (resuming : w'.resuming =
      if a.state? i = some .suspended ∧ a.waitingOn i = 1 then i :: w.resuming else w.resuming)
    (pending : w'.pending = rest) :
    Parked n (a.alter i fun x => { x with waitingOn := x.waitingOn - 1 }) w' := by
  have hwait := H.waiting i
  rw [hi, List.count_cons_self] at hwait
  obtain ⟨x, hx⟩ : ∃ x, a i = some x := by
    cases hx : a i with
    | none => simp [Arena.waitingOn, hx] at hwait
    | some x => exact ⟨x, rfl⟩
  have hxw : a.waitingOn i = x.waitingOn := Arena.waitingOn_eq hx
  have hxs : a.state? i = some x.state := Arena.state?_eq hx
  have hxd : a.deferred i = x.deferred := Arena.deferred_eq hx
  have hxm : a.members? i = x.members := Arena.members?_eq hx
  have hnot : i ∉ w.resuming := fun h => by
    have := (H.resuming.mp h).2
    omega
  rw [Arena.alter_eq_put hx]
  generalize hy : ({ x with waitingOn := x.waitingOn - 1 } : Instance) = y
  have hys : y.state = x.state := hy ▸ rfl
  have hyw : y.waitingOn = x.waitingOn - 1 := hy ▸ rfl
  have hyd : y.deferred = x.deferred := hy ▸ rfl
  have hym : y.members = x.members := hy ▸ rfl
  refine ⟨H.put (H.old hx) (elaborating ▸ H.ordered) (fun j => ?_) ?_ (fun j => ?_)
    (hyd ▸ hxd ▸ H.once) (fun j hj => ?_) (fun h => ?_), fun j => ?_⟩
  · rw [elaborating, hys]
    split
    · next h => rw [h, H.elaborating, hxs, Option.some.injEq]
    · rfl
  · rw [resuming]
    split
    · exact List.nodup_cons.mpr ⟨hnot, H.nodup⟩
    · exact H.nodup
  · have hgo : y.state = .suspended ∧ y.waitingOn = 0 ↔
        a.state? i = some .suspended ∧ a.waitingOn i = 1 := by
      rw [hys, hxs, Option.some.injEq, hyw, hxw]
      exact and_congr_right fun _ => by omega
    rw [resuming]
    by_cases hj : j = i
    · subst hj
      rw [if_pos rfl, hgo]
      split
      · next h => exact iff_of_true List.mem_cons_self h
      · next h => exact iff_of_false hnot h
    · rw [if_neg hj]
      split
      · rw [List.mem_cons, or_iff_right hj]
      · rfl
  · rw [hys]
    rw [hyd, ← hxd] at hj
    simpa [Arena.InProgress, hxs] using H.target hj
  · rw [hys] at h
    rw [hym, ← hxm]
    exact H.members (by simpa [hxs] using h)
  · have hpark : (a.put i y).parkings n j = a.parkings n j := by
      refine Arena.parkings_congr fun t _ => ?_
      rw [Arena.deferred_put]
      split
      · next h => rw [h, hyd, hxd]
      · rfl
    have hj := H.waiting j
    rw [hi, List.count_cons] at hj
    rw [hpark, Arena.waitingOn_put, pending]
    split
    · next h =>
      subst h
      omega
    · next h =>
      have : (i == j) = false := beq_false_of_ne (Ne.symm h)
      simpa [this] using hj

end Parked

/-- The lists of an engine that `i` stands in. -/
theorem Engine.countP_insts (e : Engine) (i : InstanceId) :
    e.insts.countP (fun t => i ∈ t.deferred) = e.arena.parkings e.insts.size i := by
  have hlist (l : List Instance) : l.countP (fun t => i ∈ t.deferred) =
      (List.range l.length).countP fun t => i ∈ ((l[t]?).map (·.deferred)).getD [] := by
    induction l with
    | nil => rfl
    | cons x l ih =>
      rw [List.countP_cons, ih, List.length_cons, List.range_succ_eq_map, List.countP_cons,
        List.countP_map]
      rfl
  rw [← Array.countP_toList, hlist]
  simp [Arena.parkings, Arena.deferred, arena, inst?, Instance.core, Function.comp_def]

end Templates
