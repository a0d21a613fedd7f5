import Mathlib.Algebra.Ring.Nat
import Templates.Proofs.Caching.Buckets

/-!
# What a cache holds

A cache holds the instances that were inserted and not erased, each under its digest and in the order
in which they came; its count is the number of them. Each call preserves this
(`InstanceCache.Stores`), and so it holds after every history (`InstanceCache.holdsAll`).
-/

namespace Templates.InstanceCache

variable {c c' : InstanceCache} {h k : Digest} {i : InstanceId} {es : List Event} {e : Event}
  {bs : List (Digest × List InstanceId)}

/-! ## Calls -/

/-- A call to a cache with what it answers. -/
inductive Event
  | inserted (h : Digest) (i : InstanceId)
  | erased (h : Digest) (i : InstanceId) (found : Bool)

/-- One call. -/
inductive Step (c : InstanceCache) : Event → InstanceCache → Prop
  | insert (h : Digest) (i : InstanceId) : Step c (.inserted h i) (c.insert h i)
  | erase (h : Digest) (i : InstanceId) : Step c (.erased h i (c.erase h i).1) (c.erase h i).2

/-- A cache with the calls to it since it was made, the last one first. -/
inductive History : List Event → InstanceCache → Prop
  | made : History [] {}
  | call {es : List Event} {c c' : InstanceCache} {e : Event} :
    History es c → c.Step e c' → History (e :: es) c'

/-- The instances that were inserted under a digest, oldest first. -/
def insertedUnder (k : Digest) : List Event → List InstanceId
  | [] => []
  | .inserted h i :: es => if h = k then insertedUnder k es ++ [i] else insertedUnder k es
  | .erased _ _ _ :: es => insertedUnder k es

/-- The instances that were found under a digest and erased. -/
def erasedUnder (k : Digest) : List Event → List InstanceId
  | .erased h i true :: es => if h = k then i :: erasedUnder k es else erasedUnder k es
  | .erased _ _ false :: es | .inserted _ _ :: es => erasedUnder k es
  | [] => []

/-- The instances that are left under a digest, oldest first. Of equal ones the oldest is erased. -/
def leftUnder (k : Digest) : List Event → List InstanceId
  | [] => []
  | .inserted h i :: es => if h = k then leftUnder k es ++ [i] else leftUnder k es
  | .erased h i true :: es => if h = k then (leftUnder k es).erase i else leftUnder k es
  | .erased _ _ false :: es => leftUnder k es

/-- What is left stands in the order in which it came. -/
theorem leftUnder_sublist (k : Digest) (es : List Event) :
    (leftUnder k es).Sublist (insertedUnder k es) := by
  induction es with
  | nil => exact .slnil
  | cons e es ih =>
    cases e with
    | inserted h i =>
      unfold leftUnder insertedUnder
      split
      · exact ih.append (.refl _)
      · exact ih
    | erased h i found =>
      cases found with
      | false => exact ih
      | true =>
        unfold leftUnder insertedUnder
        split
        · exact List.erase_sublist.trans ih
        · exact ih

/-! ## Buckets that are not empty -/

/-- No bucket is empty. -/
def Full (c : InstanceCache) : Prop := ∀ b ∈ c.buckets, b.2 ≠ []

theorem Full.insert (H : c.Full) (h : Digest) (i : InstanceId) : (c.insert h i).Full := by
  intro b hb
  cases hl : c.buckets.lookup h with
  | none =>
    simp only [InstanceCache.insert, hl, List.mem_cons] at hb
    rcases hb with rfl | hb
    · exact List.cons_ne_nil i []
    · exact H b hb
  | some is =>
    simp only [InstanceCache.insert, hl, List.mem_map] at hb
    obtain ⟨b', hb', rfl⟩ := hb
    dsimp only
    split
    · exact List.append_ne_nil_of_right_ne_nil b'.2 (List.cons_ne_nil i [])
    · exact H b' hb'

theorem ne_nil_of_mem_go {b : Digest × List InstanceId} (H : ∀ b ∈ bs, b.2 ≠ [])
    (hb : b ∈ erase.go h i bs) : b.2 ≠ [] := by
  induction bs with
  | nil => cases hb
  | cons b' bs ih =>
    obtain ⟨k, js⟩ := b'
    obtain ⟨hjs, H⟩ := List.forall_mem_cons.mp H
    unfold erase.go at hb
    split at hb
    · split at hb
      · exact H b hb
      · next hsome =>
        rcases List.mem_cons.mp hb with rfl | hb
        · exact fun hnil => hsome (List.isEmpty_iff.mpr hnil)
        · exact H b hb
    · rcases List.mem_cons.mp hb with rfl | hb
      · exact hjs
      · exact ih H hb

theorem Full.erase (H : c.Full) (h : Digest) (i : InstanceId) : (c.erase h i).2.Full := by
  intro b hb
  unfold InstanceCache.erase at hb
  split at hb
  · exact ne_nil_of_mem_go H hb
  · exact H b hb

/-! ## Along a history -/

/-- What the buckets and the count of a cache say about the calls to it. -/
structure Stores (c : InstanceCache) (es : List Event) : Prop where
  keyed : c.Keyed
  full : c.Full
  bucket : ∀ k, c.bucket k = leftUnder k es
  size : c.Sized
  /-- Nothing is lost, and nothing comes from elsewhere. -/
  balanced : ∀ k, (leftUnder k es ++ erasedUnder k es).Perm (insertedUnder k es)

namespace Stores

theorem empty : Stores {} [] where
  keyed := keyed_empty
  full := nofun
  bucket _ := rfl
  size := rfl
  balanced _ := .nil

theorem insert (H : c.Stores es) (h : Digest) (i : InstanceId) :
    (c.insert h i).Stores (.inserted h i :: es) where
  keyed := H.keyed.insert h i
  full := H.full.insert h i
  bucket k := by
    by_cases hk : h = k
    · subst hk
      rw [bucket_insert_self, H.bucket, leftUnder, if_pos rfl]
    · rw [bucket_insert_of_ne c i (Ne.symm hk), H.bucket, leftUnder, if_neg hk]
  size := H.size.insert H.keyed
  balanced k := by
    unfold leftUnder erasedUnder insertedUnder
    split
    · rw [List.append_assoc]
      exact (List.perm_append_comm.append_left _).trans
        (List.append_assoc .. ▸ (H.balanced k).append_right [i])
    · exact H.balanced k

theorem erase (H : c.Stores es) (h : Digest) (i : InstanceId) :
    (c.erase h i).2.Stores (.erased h i (c.erase h i).1 :: es) := by
  by_cases hi : i ∈ c.bucket h
  · have hleft : i ∈ leftUnder h es := H.bucket h ▸ hi
    rw [erase_fst_iff.mpr hi]
    constructor
    case keyed => exact H.keyed.erase h i
    case full => exact H.full.erase h i
    case bucket =>
      intro k
      rw [bucket_erase H.keyed, H.bucket, leftUnder]
      simp only [eq_comm]
    case size => exact H.size.erase
    case balanced =>
      intro k
      unfold leftUnder erasedUnder insertedUnder
      split
      · next hk =>
        subst hk
        refine (List.perm_middle.trans ?_).trans (H.balanced h)
        exact (List.perm_cons_erase hleft).symm.append_right _
      · exact H.balanced k
  · rw [erase_of_notMem hi]
    exact ⟨H.keyed, H.full, H.bucket, H.size, H.balanced⟩

theorem step (H : c.Stores es) (hs : c.Step e c') : c'.Stores (e :: es) := by
  cases hs with
  | insert h i => exact H.insert h i
  | erase h i => exact H.erase h i

end Stores

theorem History.stores (H : History es c) : c.Stores es := by
  induction H with
  | made => exact .empty
  | call _ hs ih => exact ih.step hs

/-! ## What can be asked -/

/-- The digests that have a bucket. -/
def digests (c : InstanceCache) : List Digest := c.buckets.map (·.1)

theorem bucket_of_mem (H : c.Keyed) {b : Digest × List InstanceId} (hb : b ∈ c.buckets) :
    c.bucket b.1 = b.2 := by
  rw [bucket, (lookup_eq_some_iff H).mpr hb, Option.getD_some]

theorem ids_eq_flatMap (H : c.Keyed) : c.ids = c.digests.flatMap c.bucket := by
  rw [ids, digests, List.flatMap_map]
  exact List.flatMap_congr fun b hb => (bucket_of_mem H hb).symm

theorem mem_digests_iff (H : c.Keyed) (hfull : c.Full) : k ∈ c.digests ↔ c.bucket k ≠ [] := by
  constructor
  · intro hk
    obtain ⟨b, hb, rfl⟩ := List.mem_map.mp hk
    rw [bucket_of_mem H hb]
    exact hfull b hb
  · intro hne
    by_contra hk
    rw [bucket, lookup_eq_none hk] at hne
    exact hne rfl

theorem isEmpty_iff (h : c.size = c.ids.length) : c.isEmpty = true ↔ c.ids = [] := by
  rw [isEmpty, decide_eq_true_iff, h, List.length_eq_zero_iff]

/-- What a cache answers after a history. -/
structure Holds (c : InstanceCache) (es : List Event) : Prop extends c.Stores es where
  /-- A bucket keeps the order of the calls. -/
  ordered : ∀ k, (c.bucket k).Sublist (insertedUnder k es)
  /-- The buckets that there are, each once, make up all instances. -/
  listed : c.ids = c.digests.flatMap c.bucket
  digests_nodup : c.digests.Nodup
  mem_digests : ∀ k, k ∈ c.digests ↔ c.bucket k ≠ []
  total : c.size = (c.digests.map fun k => (c.bucket k).length).sum
  isEmpty_iff : c.isEmpty = true ↔ c.ids = []
  erase_iff : ∀ h i, (c.erase h i).1 = true ↔ i ∈ leftUnder h es
  /-- The count is not zero when it is lowered. -/
  size_erase : ∀ h i, (c.erase h i).1 = true → (c.erase h i).2.size + 1 = c.size
  find?_some : ∀ h ok i, c.find? h ok = some i ↔ ok i = true ∧
    ∃ older newer, leftUnder h es = older ++ i :: newer ∧ ∀ j ∈ older, ok j = false
  find?_none : ∀ h ok, c.find? h ok = none ↔ ∀ i ∈ leftUnder h es, ok i = false

/-- **A cache is a multimap.** After every history each bucket holds what was inserted under its digest
less the oldest one for each that was erased, in order, and the count and the answers follow from the
buckets. -/
theorem holdsAll (H : History es c) : c.Holds es where
  toStores := H.stores
  ordered k := H.stores.bucket k ▸ leftUnder_sublist k es
  listed := ids_eq_flatMap H.stores.keyed
  digests_nodup := H.stores.keyed
  mem_digests _ := mem_digests_iff H.stores.keyed H.stores.full
  total := by
    rw [H.stores.size, ids_eq_flatMap H.stores.keyed, List.length_flatMap]
  isEmpty_iff := isEmpty_iff H.stores.size
  erase_iff h _ := by rw [erase_fst_iff, H.stores.bucket h]
  size_erase h i hi := by
    rw [(H.stores.erase h i).size, length_ids_erase (erase_fst_iff.mp hi), H.stores.size]
  find?_some h ok i := by
    rw [find?, H.stores.bucket h, List.find?_eq_some_iff_append]
    simp
  find?_none h ok := by
    rw [find?, H.stores.bucket h, List.find?_eq_none]
    simp

/-! ## A history with equal digests -/

/-- The digest of a word. -/
def word (n : Nat) : Digest := .ofWords [n]

/-- Two instances share a digest, one of them is inserted twice, and a bucket becomes empty. -/
theorem holdsAll_crowded : ∃ es c, History es c ∧ c.buckets = [(word 7, [⟨1⟩, ⟨0⟩])] ∧ c.size = 2 ∧
    insertedUnder (word 7) es = [⟨0⟩, ⟨1⟩, ⟨0⟩] ∧ c.Holds es := by
  have H := History.made.call (.insert (word 7) ⟨0⟩)
  have H := (H.call (.insert (word 7) ⟨1⟩)).call (.insert (word 8) ⟨2⟩)
  have H := (H.call (.insert (word 7) ⟨0⟩)).call (.erase (word 7) ⟨0⟩)
  have H := (H.call (.erase (word 8) ⟨2⟩)).call (.erase (word 8) ⟨2⟩)
  exact ⟨_, _, H, rfl, rfl, rfl, holdsAll H⟩

end Templates.InstanceCache
