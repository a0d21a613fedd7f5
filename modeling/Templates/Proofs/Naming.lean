import Mathlib.Data.Finset.Card
import Mathlib.Data.List.Nodup
import Templates.NamePool

/-!
# Names stand for texts

A pool keeps its texts in a list and their names in a table, and each is the inverse of the other
(`NamePool.Inverse`). A call keeps this and what the table has, and adds the text that it is given
(`NamePool.Records.intern`). So names are as good as texts after any calls: they are the numbers below
the size of the pool, equal names are names of equal texts, and each name is read back as its text
(`NamePool.names_texts`).
-/

namespace Templates.NamePool

variable {p q r : NamePool} {s t : String} {n m : Name} {ss us vs : List String} {ns ms : List Name}
  {i : Nat}

/-! ## The texts and their table -/

theorem lookup_names_add : (p.add s).names.lookup t =
    if t = s then some ⟨p.size⟩ else p.names.lookup t := by
  rw [add, List.lookup_cons]
  by_cases h : t = s
  · rw [if_pos h, h, beq_self_eq_true]
  · rw [if_neg h, beq_false_of_ne h]

theorem getElem?_texts_add : (p.add s).texts[i]? = if i = p.size then some s else p.texts[i]? :=
  Array.getElem?_push

/-- The table finds a text where it stands in the list. The empty text stands first. -/
structure Inverse (p : NamePool) : Prop where
  lookup_iff {s : String} {n : Name} : p.names.lookup s = some n ↔ p.texts[n.index]? = some s
  empty : p.texts[0]? = some ""

namespace Inverse

theorem made : Inverse {} where
  lookup_iff {s n} := by
    obtain ⟨i⟩ := n
    change (("", _) :: []).lookup s = some _ ↔ #[""][i]? = some s
    rw [List.lookup_cons]
    by_cases hs : s = ""
    · cases i <;> simp [hs]
    · cases i <;> simp [beq_false_of_ne hs, Ne.symm hs]
  empty := rfl

theorem lt_size (H : p.Inverse) (h : p.names.lookup s = some n) : n.index < p.size :=
  (Array.getElem?_eq_some_iff.mp (H.lookup_iff.mp h)).1

theorem lookup_eq (H : p.Inverse) (h : p.names.lookup s = some n) : p.lookup n = s := by
  rw [lookup, H.lookup_iff.mp h, Option.getD_some]

/-- The table has every name. -/
theorem lookup_lookup (H : p.Inverse) (h : n.index < p.size) :
    p.names.lookup (p.lookup n) = some n := by
  rw [H.lookup_iff, lookup, Array.getElem?_eq_getElem h, Option.getD_some]

theorem mem_texts_iff (H : p.Inverse) : s ∈ p.texts ↔ ∃ n, p.names.lookup s = some n := by
  rw [Array.mem_iff_getElem?]
  exact ⟨fun ⟨i, hi⟩ => ⟨⟨i⟩, H.lookup_iff.mpr hi⟩, fun ⟨n, hn⟩ => ⟨n.index, H.lookup_iff.mp hn⟩⟩

theorem lookup_empty (H : p.Inverse) : p.names.lookup "" = some ⟨0⟩ := H.lookup_iff.mpr H.empty

/-- No text stands at two places. -/
theorem nodup (H : p.Inverse) : p.texts.toList.Nodup := by
  -- the table would have two names for a text that stands twice
  refine List.nodup_iff_getElem?_ne_getElem?.mpr fun i j hij hj heq => hij.ne ?_
  rw [Array.getElem?_toList, Array.getElem?_toList] at heq
  obtain ⟨s, hs⟩ : ∃ s, p.texts[j]? = some s := ⟨_, Array.getElem?_eq_getElem hj⟩
  have hi : p.names.lookup s = some ⟨i⟩ := H.lookup_iff.mpr (heq.trans hs)
  have hj : p.names.lookup s = some ⟨j⟩ := H.lookup_iff.mpr hs
  exact congrArg Name.index (Option.some.inj (hi.symm.trans hj))

theorem add (H : p.Inverse) (hs : p.names.lookup s = none) : (p.add s).Inverse where
  lookup_iff {t n} := by
    rw [lookup_names_add, getElem?_texts_add]
    by_cases ht : t = s <;> by_cases hn : n.index = p.size
    · rw [if_pos ht, if_pos hn, ht, ← hn]
      exact iff_of_true rfl rfl
    · rw [if_pos ht, if_neg hn, ← H.lookup_iff, ht, hs]
      exact iff_of_false (fun h => hn (congrArg Name.index (Option.some.inj h)).symm) nofun
    · rw [if_neg ht, if_pos hn]
      exact iff_of_false (fun h => (H.lt_size h).ne hn) fun h => ht (Option.some.inj h).symm
    · rw [if_neg ht, if_neg hn, H.lookup_iff]
  empty := by
    have hpos : 0 < p.size := H.lt_size H.lookup_empty
    rw [getElem?_texts_add, if_neg hpos.ne, H.empty]

end Inverse

/-! ## Calls -/

theorem intern_eq_ok (h : p.intern s = .ok (n, q)) : p.names.lookup s = some n ∧ q = p ∨
    p.names.lookup s = none ∧ p.size ≤ maxWord32 ∧ n = ⟨p.size⟩ ∧ q = p.add s := by
  cases hs : p.names.lookup s with
  | some m =>
    rw [intern_of_lookup hs] at h
    cases h
    exact .inl ⟨rfl, rfl⟩
  | none =>
    rw [intern_of_lookup_eq_none hs] at h
    split at h
    · cases h
    · next hle =>
      cases h
      exact .inr ⟨rfl, Nat.le_of_not_lt hle, rfl, rfl⟩

/-- The second pool has the names of the first. -/
def Grows (p q : NamePool) : Prop := ∀ ⦃s n⦄, p.names.lookup s = some n → q.names.lookup s = some n

theorem Grows.trans (h : p.Grows q) (h' : q.Grows r) : p.Grows r := fun _ _ hs => h' (h hs)

theorem Grows.intern (h : p.intern s = .ok (n, q)) : p.Grows q := by
  obtain ⟨-, rfl⟩ | ⟨hs, -, -, rfl⟩ := intern_eq_ok h
  · exact fun _ _ ht => ht
  · intro t m ht
    rw [lookup_names_add, if_neg, ht]
    rintro rfl
    rw [hs] at ht
    cases ht

theorem lookup_of_intern (h : p.intern s = .ok (n, q)) : q.names.lookup s = some n := by
  obtain ⟨hs, rfl⟩ | ⟨-, -, rfl, rfl⟩ := intern_eq_ok h
  · exact hs
  · rw [lookup_names_add, if_pos rfl]

theorem Inverse.intern (H : p.Inverse) (h : p.intern s = .ok (n, q)) : q.Inverse := by
  obtain ⟨-, rfl⟩ | ⟨hs, -, -, rfl⟩ := intern_eq_ok h
  · exact H
  · exact H.add hs

theorem Inverse.mem_texts_intern (H : p.Inverse) (h : p.intern s = .ok (n, q)) :
    t ∈ q.texts ↔ t ∈ p.texts ∨ t = s := by
  obtain ⟨hs, rfl⟩ | ⟨-, -, -, rfl⟩ := intern_eq_ok h
  · exact (or_iff_left_of_imp fun ht => ht ▸ H.mem_texts_iff.mpr ⟨n, hs⟩).symm
  · exact Array.mem_push

theorem size_le_of_intern (hle : p.size ≤ maxWord32 + 1) (h : p.intern s = .ok (n, q)) :
    q.size ≤ maxWord32 + 1 := by
  obtain ⟨-, rfl⟩ | ⟨-, hroom, -, rfl⟩ := intern_eq_ok h
  · exact hle
  · exact (Array.size_push s).trans_le (Nat.succ_le_succ hroom)

/-- Names the texts one after the other. -/
def internAll (p : NamePool) : List String → Except Error (List Name × NamePool)
  | [] => .ok ([], p)
  | s :: ss => do
    let (n, p) ← p.intern s
    let (ns, p) ← p.internAll ss
    return (n :: ns, p)

/-- The texts have got the names, and the pool has no others. -/
structure Records (p : NamePool) (ss : List String) (ns : List Name) : Prop extends p.Inverse where
  length_eq : ns.length = ss.length
  named {s : String} {n : Name} : (s, n) ∈ ss.zip ns → p.names.lookup s = some n
  mem_texts {s : String} : s ∈ p.texts ↔ s = "" ∨ s ∈ ss
  size_le : p.size ≤ maxWord32 + 1

/-- The number of different texts, with the empty one. -/
def distinct (ss : List String) : Nat := ("" :: ss).toFinset.card

theorem distinct_mono (h : us ⊆ vs) : distinct us ≤ distinct vs :=
  Finset.card_le_card fun _ hs =>
    List.mem_toFinset.mpr (List.cons_subset_cons "" h (List.mem_toFinset.mp hs))

theorem distinct_cons_of_notMem (hs : s ≠ "" ∧ s ∉ ss) : distinct (s :: ss) = distinct ss + 1 := by
  have hnew : s ∉ ("" :: ss).toFinset := by simpa using hs
  rw [distinct, List.toFinset_cons, List.toFinset_cons, Finset.insert_comm, ← List.toFinset_cons,
    Finset.card_insert_of_notMem hnew, distinct]

namespace Records

theorem made : Records {} [] [] where
  toInverse := .made
  length_eq := rfl
  named h := by cases h
  mem_texts := by simp
  size_le := by decide

theorem intern (H : p.Records ss ns) (h : p.intern s = .ok (n, q)) :
    q.Records (ss ++ [s]) (ns ++ [n]) where
  toInverse := H.toInverse.intern h
  length_eq := by rw [List.length_append, List.length_append, H.length_eq]; rfl
  named {t m} ht := by
    rw [List.zip_append H.length_eq.symm] at ht
    obtain ht | ht := List.mem_append.mp ht
    · exact Grows.intern h (H.named ht)
    · cases List.mem_singleton.mp ht
      exact lookup_of_intern h
  mem_texts {t} := by
    rw [H.mem_texts_intern h, H.mem_texts, List.mem_append, List.mem_singleton, or_assoc]
  size_le := size_le_of_intern H.size_le h

theorem size_eq (H : p.Records ss ns) : p.size = distinct ss := by
  have hset : p.texts.toList.toFinset = ("" :: ss).toFinset := by
    ext t
    rw [List.mem_toFinset, Array.mem_toList_iff, H.mem_texts, List.mem_toFinset, List.mem_cons]
  rw [distinct, ← hset, List.toFinset_card_of_nodup H.nodup]
  rfl

/-- There is a name for a text if all texts are few. -/
theorem exists_intern (H : p.Records us ms) (h : distinct (us ++ s :: vs) ≤ maxWord32 + 1) :
    ∃ n q, p.intern s = .ok (n, q) := by
  cases hs : p.names.lookup s with
  | some n => exact ⟨n, p, intern_of_lookup hs⟩
  | none =>
    refine ⟨⟨p.size⟩, p.add s, ?_⟩
    rw [intern_of_lookup_eq_none hs, if_neg]
    have hnew : s ≠ "" ∧ s ∉ us := by
      rw [ne_eq, ← not_or, ← H.mem_texts, H.mem_texts_iff, hs]
      rintro ⟨_, hn⟩
      cases hn
    have hle : distinct (s :: us) ≤ distinct (us ++ s :: vs) :=
      distinct_mono (List.cons_subset.mpr ⟨by simp, List.subset_append_left us _⟩)
    rw [distinct_cons_of_notMem hnew, ← H.size_eq] at hle
    omega

theorem exists_internAll (H : p.Records us ms) (h : distinct (us ++ vs) ≤ maxWord32 + 1) :
    ∃ ns q, p.internAll vs = .ok (ns, q) ∧ p.Grows q ∧ q.Records (us ++ vs) (ms ++ ns) := by
  -- with each call its text goes over from `vs` to `us`
  induction vs generalizing p us ms with
  | nil => exact ⟨[], p, rfl, fun _ _ h => h, by rwa [List.append_nil, List.append_nil]⟩
  | cons s vs ih =>
    obtain ⟨n, r, hr⟩ := H.exists_intern h
    obtain ⟨ns, q, hq, hgrows, hrec⟩ := ih (H.intern hr) (by rwa [List.append_assoc])
    refine ⟨n :: ns, q, ?_, (Grows.intern hr).trans hgrows, ?_⟩
    · change (p.intern s >>= _) = _
      rw [hr]
      change (r.internAll vs >>= _) = _
      rw [hq]
      rfl
    · rwa [List.append_assoc, List.append_assoc] at hrec

end Records

/-! ## After any calls -/

/-- What is known of a pool that has given the names to the texts. -/
structure Names (p : NamePool) (ss : List String) (ns : List Name) : Prop where
  length_eq : ns.length = ss.length
  /-- A name is read back as its text. -/
  lookup_eq {s : String} {n : Name} : (s, n) ∈ ss.zip ns → p.lookup n = s
  /-- Equal names are names of equal texts. -/
  eq_iff {s t : String} {n m : Name} : (s, n) ∈ ss.zip ns → (t, m) ∈ ss.zip ns → (n = m ↔ s = t)
  /-- The names are the numbers below the size. The empty text has got the first in advance. -/
  issued_iff {n : Name} : n = ⟨0⟩ ∨ n ∈ ns ↔ n.index < p.size
  size_eq : p.size = distinct ss
  /-- Each name is a word. -/
  size_le : p.size ≤ maxWord32 + 1
  lookup_zero : p.lookup ⟨0⟩ = ""
  intern_empty : p.intern "" = .ok (⟨0⟩, p)
  /-- The text of a name has the name. -/
  intern_lookup {n : Name} : n.index < p.size → p.intern (p.lookup n) = .ok (n, p)
  /-- What is no name is read as the empty text. -/
  lookup_unissued {n : Name} : p.size ≤ n.index → p.lookup n = ""
  /-- A text is refused only if it is new and there are no more words. -/
  intern_error_iff {s : String} {e : Error} : p.intern s = .error e ↔
    s ≠ "" ∧ s ∉ ss ∧ maxWord32 < p.size ∧ e = .overflow p.size

theorem Records.names (H : p.Records ss ns) : p.Names ss ns where
  length_eq := H.length_eq
  lookup_eq hs := H.lookup_eq (H.named hs)
  eq_iff {s t n m} hs ht := by
    have hs := H.named hs
    have ht := H.named ht
    constructor
    · rintro rfl
      exact (H.lookup_eq hs).symm.trans (H.lookup_eq ht)
    · rintro rfl
      exact Option.some.inj (hs.symm.trans ht)
  issued_iff {n} := by
    constructor
    · rintro (rfl | hn)
      · exact H.lt_size H.lookup_empty
      · rw [← List.map_snd_zip H.length_eq.le] at hn
        obtain ⟨⟨s, _⟩, hs, rfl⟩ := List.mem_map.mp hn
        exact H.lt_size (H.named hs)
    · intro hn
      have hlookup := H.lookup_lookup hn
      obtain hs | hs := H.mem_texts.mp (H.mem_texts_iff.mpr ⟨n, hlookup⟩)
      · rw [hs, H.lookup_empty] at hlookup
        exact .inl (Option.some.inj hlookup).symm
      · rw [← List.map_fst_zip H.length_eq.ge] at hs
        obtain ⟨⟨s, m⟩, hm, hs⟩ := List.mem_map.mp hs
        have hs : s = p.lookup n := hs
        rw [← hs, H.named hm] at hlookup
        rw [← Option.some.inj hlookup]
        exact .inr (List.of_mem_zip hm).2
  size_eq := H.size_eq
  size_le := H.size_le
  lookup_zero := H.lookup_eq H.lookup_empty
  intern_empty := intern_of_lookup H.lookup_empty
  intern_lookup hn := intern_of_lookup (H.lookup_lookup hn)
  lookup_unissued hn := by rw [lookup, Array.getElem?_eq_none hn, Option.getD_none]
  intern_error_iff {s e} := by
    rw [← and_assoc, ne_eq, ← not_or, ← H.mem_texts, H.mem_texts_iff]
    cases hs : p.names.lookup s with
    | some n => simp [intern_of_lookup hs]
    | none =>
      rw [intern_of_lookup_eq_none hs]
      split
      · next hfull => simp [hfull, eq_comm]
      · next hroom => simp [hroom]

/-- **Names are as good as texts.** As long as there are no more different texts than words, each gets
a name, and what is known of the names holds after any calls and after any more. -/
theorem names_texts (h : distinct (us ++ vs) ≤ maxWord32 + 1) :
    ∃ ms ns p q, internAll {} us = .ok (ms, p) ∧ p.internAll vs = .ok (ns, q) ∧ p.Names us ms ∧
      q.Names (us ++ vs) (ms ++ ns) ∧ ∀ n : Name, n.index < p.size → q.lookup n = p.lookup n := by
  have hle : distinct ([] ++ us) ≤ distinct (us ++ vs) :=
    distinct_mono (List.subset_append_left us vs)
  obtain ⟨ms, p, hp, -, hrec⟩ := Records.made.exists_internAll (hle.trans h)
  obtain ⟨ns, q, hq, hgrows, hrec'⟩ := hrec.exists_internAll h
  refine ⟨ms, ns, p, q, hp, hq, hrec.names, hrec'.names, fun n hn => ?_⟩
  exact hrec'.lookup_eq (hgrows (hrec.lookup_lookup hn))

/-- Texts that come again, the empty one among them, and a new one later. -/
theorem names_texts_again : distinct (["T", "", "T"] ++ ["U", "T"]) ≤ maxWord32 + 1 ∧
    ∃ p q, internAll {} ["T", "", "T"] = .ok ([⟨1⟩, ⟨0⟩, ⟨1⟩], p) ∧
      p.internAll ["U", "T"] = .ok ([⟨2⟩, ⟨1⟩], q) ∧ q.size = 3 ∧
      q.Names ["T", "", "T", "U", "T"] [⟨1⟩, ⟨0⟩, ⟨1⟩, ⟨2⟩, ⟨1⟩] := by
  have hfew : distinct (["T", "", "T"] ++ ["U", "T"]) ≤ maxWord32 + 1 := by decide
  obtain ⟨ms, ns, p, q, hp, hq, -, H, -⟩ := names_texts hfew
  cases hp
  cases hq
  exact ⟨hfew, _, _, rfl, rfl, rfl, H⟩

end Templates.NamePool
