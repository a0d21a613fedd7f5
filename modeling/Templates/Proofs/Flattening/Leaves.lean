import Templates.Engine.Plan
import Templates.Proofs.Matching.Visits

/-!
# Sequences that are written as arguments

A sequence among the arguments of a request may hold sequences in its turn. The arguments resolve to
what the leaves resolve to, one after the other, so the request can do without the sequences
(`Request.flat`).
-/

namespace Templates

variable {σ : Type}

namespace SiteArg

/-- Not a sequence. -/
def isLeaf : SiteArg → Bool
  | .tuple _ => false
  | _ => true

mutual

/-- The arguments that stand in the place of this one once all sequences are spliced. -/
def leaves : SiteArg → List SiteArg
  | .tuple elems => flatten elems
  | a => [a]

/-- Splices the sequences of a list, and those in them. -/
def flatten : List SiteArg → List SiteArg
  | [] => []
  | a :: as => a.leaves ++ flatten as

end

theorem leaves_of_isLeaf {a : SiteArg} (h : a.isLeaf = true) : a.leaves = [a] := by
  cases a with
  | tuple => cases h
  | type | value | expr | symbol => rfl

theorem flatten_eq_self {as : List SiteArg} (h : ∀ a ∈ as, a.isLeaf = true) : flatten as = as := by
  induction as with
  | nil => rfl
  | cons a as ih =>
    obtain ⟨ha, has⟩ := List.forall_mem_cons.mp h
    rw [flatten, leaves_of_isLeaf ha, ih has]
    rfl

mutual

theorem isLeaf_of_mem_leaves : (a : SiteArg) → ∀ x ∈ a.leaves, x.isLeaf = true
  | .type _ | .value _ | .expr _ | .symbol _ => List.forall_mem_singleton.mpr rfl
  | .tuple elems => isLeaf_of_mem_flatten elems

theorem isLeaf_of_mem_flatten : (as : List SiteArg) → ∀ x ∈ flatten as, x.isLeaf = true
  | [] => List.forall_mem_nil _
  | a :: as =>
    List.forall_mem_append.mpr ⟨isLeaf_of_mem_leaves a, isLeaf_of_mem_flatten as⟩

end

@[simp] theorem flatten_flatten (as : List SiteArg) : flatten (flatten as) = flatten as :=
  flatten_eq_self (isLeaf_of_mem_flatten as)

end SiteArg

/-- The request with its sequences spliced. -/
def Request.flat (q : Request) : Request := { q with args := SiteArg.flatten q.args }

@[simp] theorem Request.flat_flat (q : Request) : q.flat.flat = q.flat := by
  simp [flat]

namespace Semantics

/-- What the first gives and then what the second gives, unless one of them fails. -/
def inOrder (x y : StateM σ (Except Failure (List Arg))) : StateM σ (Except Failure (List Arg)) := do
  match ← x with
  | .error f => pure (.error f)
  | .ok front =>
    match ← y with
    | .error f => pure (.error f)
    | .ok rest => pure (.ok (front ++ rest))

variable {sem : Semantics σ} {c : ScopeId} {x y z : StateM σ (Except Failure (List Arg))}
  {a : SiteArg} {as : List SiteArg} {xs ys : List Arg} {s s' : σ}

theorem inOrder_run (s : σ) : inOrder x y s =
    match x s with
    | (.error f, s) => (.error f, s)
    | (.ok front, s) =>
      match y s with
      | (.error f, s) => (.error f, s)
      | (.ok rest, s) => (.ok (front ++ rest), s) := by
  rw [inOrder, bind_run]
  rcases x s with ⟨f | front, s₁⟩
  · rfl
  · dsimp only
    rw [bind_run]
    rcases y s₁ with ⟨f | rest, s₂⟩ <;> rfl

theorem nil_inOrder (y : StateM σ (Except Failure (List Arg))) :
    inOrder (pure (.ok [])) y = y := by
  funext s
  rw [inOrder_run]
  change (match y s with | (.error f, s) => _ | (.ok rest, s) => _) = _
  rcases y s with ⟨f | rest, s₁⟩ <;> rfl

theorem inOrder_nil (x : StateM σ (Except Failure (List Arg))) :
    inOrder x (pure (.ok [])) = x := by
  funext s
  rw [inOrder_run]
  rcases x s with ⟨f | front, s₁⟩
  · rfl
  · change (Except.ok (front ++ []), s₁) = _
    rw [List.append_nil]

theorem inOrder_assoc (x y z : StateM σ (Except Failure (List Arg))) :
    inOrder (inOrder x y) z = inOrder x (inOrder y z) := by
  funext s
  rw [inOrder_run, inOrder_run, inOrder_run]
  rcases x s with ⟨f | front, s₁⟩
  · rfl
  dsimp only
  rw [inOrder_run]
  rcases y s₁ with ⟨f | middle, s₂⟩
  · rfl
  dsimp only
  rcases z s₂ with ⟨f | rest, s₃⟩
  · rfl
  · dsimp only
    rw [List.append_assoc]

theorem resolveArgs_cons (sem : Semantics σ) (c : ScopeId) (a : SiteArg) (as : List SiteArg) :
    sem.resolveArgs c (a :: as) = inOrder (sem.resolveArg c a) (sem.resolveArgs c as) := rfl

theorem resolveArgs_singleton (sem : Semantics σ) (c : ScopeId) (a : SiteArg) :
    sem.resolveArgs c [a] = sem.resolveArg c a := inOrder_nil _

theorem resolveArgs_append (sem : Semantics σ) (c : ScopeId) (as bs : List SiteArg) :
    sem.resolveArgs c (as ++ bs) = inOrder (sem.resolveArgs c as) (sem.resolveArgs c bs) := by
  induction as with
  | nil => exact (nil_inOrder _).symm
  | cons a as ih => rw [List.cons_append, resolveArgs_cons, ih, resolveArgs_cons, inOrder_assoc]

mutual

theorem resolveArgs_leaves (sem : Semantics σ) (c : ScopeId) :
    (a : SiteArg) → sem.resolveArgs c a.leaves = sem.resolveArg c a
  | .type _ | .value _ | .expr _ | .symbol _ => resolveArgs_singleton ..
  | .tuple elems => resolveArgs_flatten sem c elems

/-- Arguments resolve as their leaves do. -/
theorem resolveArgs_flatten (sem : Semantics σ) (c : ScopeId) :
    (as : List SiteArg) → sem.resolveArgs c (SiteArg.flatten as) = sem.resolveArgs c as
  | [] => rfl
  | a :: as => by
    rw [SiteArg.flatten, resolveArgs_append, resolveArgs_leaves sem c a,
      resolveArgs_flatten sem c as, resolveArgs_cons]

end

/-- A request resolves as it does with its sequences spliced. -/
theorem resolveRequest_flat (sem : Semantics σ) (q : Request) :
    sem.resolveRequest q.flat = sem.resolveRequest q := by
  have hargs : sem.resolveArgs q.flat.scope q.flat.args = sem.resolveArgs q.scope q.args :=
    resolveArgs_flatten sem q.scope q.args
  rw [resolveRequest, hargs]
  rfl

/-- Each of the arguments resolves to one, which is not a sequence, from left to right. -/
inductive Resolves (sem : Semantics σ) (c : ScopeId) : List SiteArg → σ → List Arg → σ → Prop
  | nil {s : σ} : Resolves sem c [] s [] s
  | cons {a : SiteArg} {as : List SiteArg} {x : Arg} {xs : List Arg} {s s₁ s₂ : σ} :
    sem.resolveArg c a s = (.ok [x], s₁) → x.isLeaf = true → Resolves sem c as s₁ xs s₂ →
    Resolves sem c (a :: as) s (x :: xs) s₂

theorem Resolves.isLeaf (h : sem.Resolves c as s xs s') : ∀ x ∈ xs, x.isLeaf = true := by
  induction h with
  | nil => exact List.forall_mem_nil _
  | cons _ hx _ ih => exact List.forall_mem_cons.mpr ⟨hx, ih⟩

theorem eq_singleton_of_resolveArg (ha : a.isLeaf = true)
    (h : sem.resolveArg c a s = (.ok xs, s')) : ∃ x, xs = [x] ∧ x.isLeaf = true := by
  cases a with
  | type t =>
    change ((sem.resolveType t c s).1.map _, _) = _ at h
    cases hr : (sem.resolveType t c s).1 <;> rw [hr] at h <;> cases h
    exact ⟨_, rfl, rfl⟩
  | expr e =>
    change ((sem.evaluate e c s).1.map _, _) = _ at h
    cases hr : (sem.evaluate e c s).1 <;> rw [hr] at h <;> cases h
    exact ⟨_, rfl, rfl⟩
  | value | symbol =>
    cases h
    exact ⟨_, rfl, rfl⟩
  | tuple => cases ha

/-- Arguments without sequences resolve to one argument each. -/
theorem resolveArgs_eq_ok_iff (has : ∀ a ∈ as, a.isLeaf = true) :
    sem.resolveArgs c as s = (.ok xs, s') ↔ sem.Resolves c as s xs s' := by
  induction as generalizing s xs with
  | nil =>
    constructor
    · rintro ⟨⟩
      exact .nil
    · rintro ⟨⟩
      rfl
  | cons a as ih =>
    obtain ⟨ha, has⟩ := List.forall_mem_cons.mp has
    constructor
    · intro h
      rw [resolveArgs_cons, inOrder_run] at h
      rcases hfront : sem.resolveArg c a s with ⟨f | front, s₁⟩ <;> rw [hfront] at h
      · cases h
      dsimp only at h
      rcases hrest : sem.resolveArgs c as s₁ with ⟨f | rest, s₂⟩ <;> rw [hrest] at h
      · cases h
      cases h
      obtain ⟨x, rfl, hx⟩ := eq_singleton_of_resolveArg ha hfront
      exact .cons hfront hx ((ih has).mp hrest)
    · rintro (_ | ⟨hx, -, hxs⟩)
      rw [resolveArgs_cons, inOrder_run, hx]
      dsimp only
      rw [(ih has).mpr hxs]
      rfl

/-- The arguments resolve to those that their leaves resolve to. -/
theorem resolveArgs_eq_ok_iff_flatten : sem.resolveArgs c as s = (.ok xs, s') ↔
    sem.Resolves c (SiteArg.flatten as) s xs s' := by
  rw [← resolveArgs_eq_ok_iff (SiteArg.isLeaf_of_mem_flatten as), resolveArgs_flatten]

end Semantics

end Templates
