import Mathlib.Data.Fintype.Card
import Mathlib.Data.Nat.Find
import Templates.Engine.Ownership
import Templates.Proofs.Engine.Usage
import Templates.Proofs.Machine.Becomes

/-!
# Links to the enclosing instance

Every instance remembers the one whose elaboration first asked for it. `Engine.Around` follows these
links, and the search for the owner of the code visits all that lie around an instance, also where
the links run in a circle (`Engine.codegenOwner_isSome_iff`). If every link leads to an older
instance (`Engine.Ordered`), every walk along them ends.
-/

namespace Templates.Engine

/-- The instance whose elaboration first asked for `i`. -/
def outer? (e : Engine) (i : InstanceId) : Option InstanceId := (e.inst? i).bind (·.enclosingInstance)

/-- The instance that lies `k` links further out. -/
def outward (e : Engine) : Nat → InstanceId → Option InstanceId
  | 0, i => some i
  | k + 1, i => (e.outer? i).bind (e.outward k)

/-- The instance `t` is `i` or lies around it. -/
inductive Around (e : Engine) : InstanceId → InstanceId → Prop
  | self (i : InstanceId) : Around e i i
  | outer {i o t : InstanceId} : e.outer? i = some o → Around e o t → Around e i t

/-- Each instance of the list is followed by the one around it, and there is none around the last. -/
def Walk (e : Engine) : List InstanceId → Prop
  | [] => True
  | i :: is => e.outer? i = is.head? ∧ e.Walk is

/-- Every link leads to an older instance. -/
def Ordered (e : Engine) : Prop := ∀ ⦃i o⦄, e.outer? i = some o → o.index < i.index

variable {e e' : Engine} {i o t : InstanceId} {k n : Nat}

/-! ## Links and operations -/

theorem outer?_eq (e : Engine) (i : InstanceId) :
    e.outer? i = (e.origins i).bind (·.enclosingInstance) := by
  rw [origins, Option.bind_map]
  rfl

theorem outer?_of_origins {x : Instance} (h : e.origins i = some x) :
    e.outer? i = x.enclosingInstance := by
  rw [outer?_eq, h, Option.bind_some]

theorem Keeps.outer? (h : e.Keeps e') : e'.outer? = e.outer? := by
  funext i
  rw [outer?_eq, outer?_eq, h.origins]

theorem outer?_create {q : Request} {c : Chain} {p : Plan} (i : InstanceId) :
    (e.create q c p).2.outer? i = if i = ⟨e.insts.size⟩ then c.innermost? else e.outer? i := by
  rw [outer?_eq, outer?_eq, origins_create]
  split
  · next h =>
    rw [h, Arena.put_self]
    rfl
  · next h => rw [Arena.put_of_ne h]

theorem inst?_of_outer? (h : e.outer? i = some o) : i.index < e.insts.size := by
  obtain ⟨x, hx, -⟩ := Option.bind_eq_some_iff.mp h
  exact inst?_eq_some_iff.mp ⟨x, hx⟩

/-! ## Counting links -/

theorem outward_add (e : Engine) (k n : Nat) (i : InstanceId) :
    e.outward (k + n) i = (e.outward k i).bind (e.outward n) := by
  induction k generalizing i with
  | zero => rw [Nat.zero_add, outward, Option.bind_some]
  | succ k ih =>
    rw [Nat.succ_add, outward, outward, Option.bind_assoc]
    exact Option.bind_congr fun o _ => ih o

theorem around_iff : e.Around i t ↔ ∃ k, e.outward k i = some t := by
  constructor
  · intro h
    induction h with
    | self i => exact ⟨0, rfl⟩
    | outer ho _ ih =>
      obtain ⟨k, hk⟩ := ih
      refine ⟨k + 1, ?_⟩
      rw [outward, ho, Option.bind_some, hk]
  · rintro ⟨k, hk⟩
    induction k generalizing i with
    | zero =>
      cases hk
      exact .self t
    | succ k ih =>
      obtain ⟨o, ho, hk⟩ := Option.bind_eq_some_iff.mp hk
      exact .outer ho (ih hk)

/-- Every instance that is passed on the way is there. -/
theorem outward_lt (ht : t.index < e.insts.size) (h : e.outward k i = some t) (hn : n ≤ k) :
    ∃ u, e.outward n i = some u ∧ e.outward (k - n) u = some t ∧ u.index < e.insts.size := by
  rw [← Nat.add_sub_cancel' hn, outward_add] at h
  obtain ⟨u, hu, h⟩ := Option.bind_eq_some_iff.mp h
  refine ⟨u, hu, h, ?_⟩
  cases hk : k - n with
  | zero =>
    rw [hk] at h
    cases h
    exact ht
  | succ m =>
    rw [hk] at h
    obtain ⟨o, ho, -⟩ := Option.bind_eq_some_iff.mp h
    exact inst?_of_outer? ho

/-- Fewer links than there are instances lead to everything that can be reached. -/
theorem exists_outward_lt (ht : t.index < e.insts.size) (h : ∃ k, e.outward k i = some t) :
    ∃ k < e.insts.size, e.outward k i = some t := by
  classical
  refine ⟨Nat.find h, ?_, Nat.find_spec h⟩
  have hpass (n : Fin (Nat.find h + 1)) := outward_lt ht (Nat.find_spec h) (Nat.le_of_lt_succ n.isLt)
  choose u hu hrest hlt using hpass
  -- On the shortest way no instance is passed twice.
  have hne (a b : Fin (Nat.find h + 1)) (hab : a < b) : u a ≠ u b := by
    intro heq
    have hshort : e.outward (a + (Nat.find h - b)) i = some t := by
      rw [outward_add, hu a, Option.bind_some, heq]
      exact hrest b
    have := Nat.find_min' h hshort
    have : a.val < b.val := hab
    have := b.isLt
    omega
  have hinj : Function.Injective fun a => (⟨(u a).index, hlt a⟩ : Fin e.insts.size) := by
    intro a b hab
    have hu : u a = u b := congrArg InstanceId.mk (Fin.mk.inj hab)
    obtain h | h | h := lt_trichotomy a b
    · exact absurd hu (hne a b h)
    · exact h
    · exact absurd hu.symm (hne b a h)
  have hle := Fintype.card_le_of_injective _ hinj
  rwa [Fintype.card_fin, Fintype.card_fin] at hle

/-! ## Enclosers -/

theorem mem_enclosersFrom : t ∈ e.enclosersFrom n i ↔ ∃ k < n, e.outward k i = some t := by
  induction n generalizing i with
  | zero => simp [enclosersFrom]
  | succ n ih =>
    have hcons : t ∈ e.enclosersFrom (n + 1) i ↔
        t = i ∨ ∃ o, e.outer? i = some o ∧ t ∈ e.enclosersFrom n o := by
      rw [enclosersFrom, outer?]
      cases (e.inst? i).bind (·.enclosingInstance) <;> simp
    rw [hcons]
    constructor
    · rintro (rfl | ⟨o, ho, ht⟩)
      · exact ⟨0, Nat.succ_pos n, rfl⟩
      · obtain ⟨k, hk, hkt⟩ := ih.mp ht
        refine ⟨k + 1, Nat.succ_lt_succ hk, ?_⟩
        rw [outward, ho, Option.bind_some, hkt]
    · rintro ⟨k, hk, hkt⟩
      cases k with
      | zero =>
        cases hkt
        exact .inl rfl
      | succ k =>
        obtain ⟨o, ho, hkt⟩ := Option.bind_eq_some_iff.mp hkt
        exact .inr ⟨o, ho, ih.mpr ⟨k, Nat.lt_of_succ_lt_succ hk, hkt⟩⟩

/-- The code has an owner if a root module needs the instance or one around it. -/
theorem codegenOwner_isSome_iff :
    (e.codegenOwner i).isSome ↔ ∃ t, e.Around i t ∧ (e.firstModule? t).isSome := by
  rw [codegenOwner, List.findSome?_isSome_iff, enclosers]
  constructor
  · rintro ⟨t, ht, hm⟩
    obtain ⟨k, -, hk⟩ := mem_enclosersFrom.mp ht
    exact ⟨t, around_iff.mpr ⟨k, hk⟩, hm⟩
  · rintro ⟨t, hit, hm⟩
    have ht : t.index < e.insts.size := by
      obtain ⟨m, hm⟩ := Option.isSome_iff_exists.mp hm
      obtain ⟨x, hx, -⟩ := Option.bind_eq_some_iff.mp hm
      exact inst?_eq_some_iff.mp ⟨x, hx⟩
    exact ⟨t, mem_enclosersFrom.mpr (exists_outward_lt ht (around_iff.mp hit)), hm⟩

/-! ## Walks -/

theorem Walk.enclosersFrom {is : List InstanceId} (h : e.Walk (i :: is)) (hn : is.length < n) :
    e.enclosersFrom n i = i :: is := by
  induction is generalizing i n with
  | nil =>
    cases n with
    | zero => cases hn
    | succ n =>
      have ho : (e.inst? i).bind (·.enclosingInstance) = none := h.1
      rw [Engine.enclosersFrom, ho]
  | cons o is ih =>
    cases n with
    | zero => cases hn
    | succ n =>
      have ho : (e.inst? i).bind (·.enclosingInstance) = some o := h.1
      rw [Engine.enclosersFrom, ho]
      exact congrArg _ (ih h.2 (Nat.lt_of_succ_lt_succ hn))

namespace Ordered

theorem walk_enclosersFrom (H : e.Ordered) (hn : i.index < n) :
    e.Walk (e.enclosersFrom n i) ∧ (e.enclosersFrom n i).head? = some i := by
  induction n generalizing i with
  | zero => cases hn
  | succ n ih =>
    rw [enclosersFrom]
    cases ho : e.outer? i with
    | none =>
      have ho' : (e.inst? i).bind (·.enclosingInstance) = none := ho
      rw [ho']
      exact ⟨⟨ho, trivial⟩, rfl⟩
    | some o =>
      have ho' : (e.inst? i).bind (·.enclosingInstance) = some o := ho
      obtain ⟨hwalk, hhead⟩ := @ih o (by have := H ho; omega)
      rw [ho']
      exact ⟨⟨ho.trans hhead.symm, hwalk⟩, rfl⟩

/-- A walk is not longer than the number of its first instance allows. -/
theorem length_le (H : e.Ordered) {is : List InstanceId} (h : e.Walk (i :: is)) :
    is.length ≤ i.index := by
  induction is generalizing i with
  | nil => exact Nat.zero_le _
  | cons o is ih => exact (ih h.2).trans_lt (H h.1)

/-- The walk from an instance ends, and all that lie around it are on it. -/
theorem walk_enclosers (H : e.Ordered) (hi : i.index < e.insts.size) :
    e.Walk (e.enclosers i) ∧ (e.enclosers i).head? = some i :=
  H.walk_enclosersFrom hi

theorem keeps (H : e.Ordered) (h : e.Keeps e') : e'.Ordered := by
  intro i o ho
  rw [h.outer?] at ho
  exact H ho

theorem create (H : e.Ordered) {q : Request} {c : Chain} {p : Plan}
    (hc : ∀ o, c.innermost? = some o → o.index < e.insts.size) : (e.create q c p).2.Ordered := by
  intro i o ho
  rw [outer?_create] at ho
  split at ho
  · next hi =>
    rw [hi]
    exact hc o ho
  · exact H ho

end Ordered

end Templates.Engine
