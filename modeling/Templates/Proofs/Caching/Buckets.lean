import Mathlib.Data.List.Basic
import Mathlib.Data.List.Nodup
import Templates.Cache

/-!
# Buckets

A cache in which no digest has two buckets (`InstanceCache.Keyed`) is told by its buckets alone.
Inserting and erasing change one bucket by one instance. They keep the cache so, and its size right
(`InstanceCache.Sized`).
-/

namespace Templates.InstanceCache

variable {c : InstanceCache} {h k : Digest} {i j : InstanceId}
  {bs : List (Digest × List InstanceId)}

/-- No digest has two buckets. -/
def Keyed (c : InstanceCache) : Prop := (c.buckets.map (·.1)).Nodup

theorem keyed_empty : Keyed {} := .nil

theorem lookup_eq_some_iff (H : (bs.map (·.1)).Nodup) {is : List InstanceId} :
    bs.lookup h = some is ↔ (h, is) ∈ bs := by
  induction bs with
  | nil => simp
  | cons b bs ih =>
    obtain ⟨k, js⟩ := b
    obtain ⟨hk, H⟩ := List.nodup_cons.mp H
    rw [List.lookup_cons, List.mem_cons]
    by_cases hh : h = k
    · subst hh
      have habsent : (h, is) ∉ bs := fun hm => hk (List.mem_map.mpr ⟨_, hm, rfl⟩)
      simp [habsent, eq_comm]
    · simp [beq_false_of_ne hh, hh, ih H]

theorem lookup_eq_none {bs : List (Digest × List InstanceId)} (h : k ∉ bs.map (·.1)) :
    bs.lookup k = none := by
  refine List.lookup_eq_none_iff.mpr fun b hb => bne_iff_ne.mpr ?_
  rintro rfl
  exact h (List.mem_map.mpr ⟨b, hb, rfl⟩)

theorem mem_ids_iff (H : c.Keyed) : i ∈ c.ids ↔ ∃ h, i ∈ c.bucket h := by
  unfold ids bucket
  rw [List.mem_flatMap]
  constructor
  · rintro ⟨⟨h, is⟩, hb, hi⟩
    exact ⟨h, by rw [(lookup_eq_some_iff H).mpr hb]; exact hi⟩
  · rintro ⟨h, hi⟩
    cases hl : c.buckets.lookup h with
    | none => simp [hl] at hi
    | some is =>
      rw [hl] at hi
      exact ⟨(h, is), (lookup_eq_some_iff H).mp hl, hi⟩

theorem Keyed.insert (H : c.Keyed) (h : Digest) (i : InstanceId) : (c.insert h i).Keyed := by
  unfold Keyed InstanceCache.insert
  cases hl : c.buckets.lookup h with
  | none =>
    rw [List.map_cons, List.nodup_cons]
    refine ⟨fun hm => ?_, H⟩
    obtain ⟨⟨k, is⟩, hb, rfl⟩ := List.mem_map.mp hm
    rw [(lookup_eq_some_iff H).mpr hb] at hl
    cases hl
  | some is =>
    rw [List.map_map]
    exact H

theorem mem_bucket_insert : j ∈ (c.insert h i).bucket k ↔ j ∈ c.bucket k ∨ k = h ∧ j = i := by
  by_cases hk : k = h
  · subst hk
    simp [bucket_insert_self]
  · simp [bucket_insert_of_ne c i hk, hk]

/-! ## Erasing -/

theorem lookup_go (bs : List (Digest × List InstanceId)) (H : (bs.map (·.1)).Nodup) :
    ((erase.go h i bs).lookup k).getD [] =
      if k = h then ((bs.lookup k).getD []).erase i else (bs.lookup k).getD [] := by
  induction bs with
  | nil => simp [erase.go]
  | cons b bs ih =>
    obtain ⟨x, is⟩ := b
    obtain ⟨hx, H⟩ := List.nodup_cons.mp H
    unfold erase.go
    split
    · next hxh =>
      subst hxh
      have hrest := lookup_eq_none hx
      by_cases hk : k = x
      · subst hk
        split
        · next he =>
          rw [if_pos rfl, List.lookup_cons_self, Option.getD_some, hrest]
          exact (List.isEmpty_iff.mp he).symm
        · simp
      · rw [if_neg hk]
        split <;> simp [List.lookup_cons, beq_false_of_ne hk]
    · next hxh =>
      rw [List.lookup_cons, List.lookup_cons]
      by_cases hk : k = x
      · subst hk
        simp [hxh]
      · simpa [beq_false_of_ne hk] using ih H

theorem keys_go_sublist (bs : List (Digest × List InstanceId)) :
    ((erase.go h i bs).map (·.1)).Sublist (bs.map (·.1)) := by
  induction bs with
  | nil => exact .slnil
  | cons b bs ih =>
    obtain ⟨x, is⟩ := b
    unfold erase.go
    split
    · split
      · exact .cons _ (.refl _)
      · exact .refl _
    · exact ih.cons_cons _

theorem Keyed.erase (H : c.Keyed) (h : Digest) (i : InstanceId) : (c.erase h i).2.Keyed := by
  unfold InstanceCache.erase
  split
  · exact (keys_go_sublist c.buckets).nodup H
  · exact H

theorem bucket_erase (H : c.Keyed) : (c.erase h i).2.bucket k =
    if k = h then (c.bucket k).erase i else c.bucket k := by
  unfold InstanceCache.erase
  split
  · exact lookup_go c.buckets H
  · next hi =>
    split
    · next hk =>
      subst hk
      exact (List.erase_of_not_mem hi).symm
    · rfl

theorem erase_fst_iff : (c.erase h i).1 = true ↔ i ∈ c.bucket h := by
  unfold erase
  split <;> simp [*]

theorem size_erase (hi : i ∈ c.bucket h) : (c.erase h i).2.size = c.size - 1 := by
  rw [erase, if_pos hi]

theorem erase_of_notMem (hi : i ∉ c.bucket h) : c.erase h i = (false, c) := if_neg hi

/-! ## Counting the instances -/

/-- The size of a cache is the number of its instances. -/
def Sized (c : InstanceCache) : Prop := c.size = c.ids.length

theorem map_concat_of_notMem (hk : h ∉ bs.map (·.1)) (i : InstanceId) :
    (bs.map fun b => (b.1, if b.1 = h then b.2 ++ [i] else b.2)) = bs := by
  rw [List.map_congr_left (g := id), List.map_id]
  intro b hb
  rw [if_neg fun hbh => hk (List.mem_map.mpr ⟨b, hb, hbh⟩), id]

/-- One bucket gets one instance more. -/
theorem length_flatMap_concat {is : List InstanceId} (H : (bs.map (·.1)).Nodup)
    (hl : bs.lookup h = some is) (i : InstanceId) :
    ((bs.map fun b => (b.1, if b.1 = h then b.2 ++ [i] else b.2)).flatMap (·.2)).length =
      (bs.flatMap (·.2)).length + 1 := by
  induction bs with
  | nil => cases hl
  | cons b bs ih =>
    obtain ⟨k, js⟩ := b
    obtain ⟨hk, H⟩ := List.nodup_cons.mp H
    by_cases hkh : k = h
    · subst hkh
      simp only [List.map_cons, if_pos, map_concat_of_notMem hk, List.flatMap_cons,
        List.length_append, List.length_singleton]
      omega
    · rw [List.lookup_cons, beq_false_of_ne (Ne.symm hkh)] at hl
      simp only [List.map_cons, if_neg hkh, List.flatMap_cons, List.length_append, ih H hl]
      omega

theorem length_ids_insert (H : c.Keyed) : (c.insert h i).ids.length = c.ids.length + 1 := by
  cases hl : c.buckets.lookup h with
  | none => simp [insert, ids, hl]
  | some is => simpa [insert, ids, hl] using length_flatMap_concat H hl i

theorem length_flatMap_go (hi : i ∈ (bs.lookup h).getD []) :
    ((erase.go h i bs).flatMap (·.2)).length + 1 = (bs.flatMap (·.2)).length := by
  induction bs with
  | nil => cases hi
  | cons b bs ih =>
    obtain ⟨k, js⟩ := b
    unfold erase.go
    by_cases hkh : k = h
    · subst hkh
      rw [List.lookup_cons_self, Option.getD_some] at hi
      have hlen : (js.erase i).length + 1 = js.length := by
        rw [List.length_erase_of_mem hi]
        exact Nat.sub_add_cancel (List.length_pos_of_mem hi)
      rw [if_pos rfl, List.flatMap_cons, List.length_append, ← hlen]
      split
      · next hempty =>
        rw [List.isEmpty_iff.mp hempty, List.length_nil]
        omega
      · simp only [List.flatMap_cons, List.length_append]
        omega
    · rw [List.lookup_cons, beq_false_of_ne (Ne.symm hkh)] at hi
      rw [if_neg hkh, List.flatMap_cons, List.flatMap_cons, List.length_append,
        List.length_append, ← ih hi]
      omega

theorem length_ids_erase (hi : i ∈ c.bucket h) :
    (c.erase h i).2.ids.length + 1 = c.ids.length := by
  rw [erase, if_pos hi]
  exact length_flatMap_go hi

theorem Sized.insert (H : c.Sized) (hk : c.Keyed) : (c.insert h i).Sized :=
  (congrArg (· + 1) H).trans (length_ids_insert hk).symm

theorem Sized.erase (H : c.Sized) : (c.erase h i).2.Sized := by
  by_cases hi : i ∈ c.bucket h
  · rw [Sized, size_erase hi, H, ← length_ids_erase hi, Nat.add_sub_cancel]
  · rwa [erase_of_notMem hi]

end Templates.InstanceCache
