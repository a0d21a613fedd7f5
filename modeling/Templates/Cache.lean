import Templates.Digest

/-!
# Instance caches

A cache holds the instances of one declaration in buckets of equal digests, and their number. Which
instance of a bucket is meant is for the caller to say.
-/

namespace Templates

structure InstanceCache where
  /-- The non-empty buckets. The instances of a bucket stand in the order they came. -/
  buckets : List (Digest × List InstanceId) := []
  /-- The number of instances in the buckets. -/
  size : Nat := 0
  deriving DecidableEq, Inhabited

namespace InstanceCache

/-- The instances with digest `h`, oldest first. -/
def bucket (c : InstanceCache) (h : Digest) : List InstanceId := (c.buckets.lookup h).getD []

/-- The instances of a bucket that a search accepts only `ok` looks at: all up to the first that is
accepted. -/
def probed (c : InstanceCache) (h : Digest) (ok : InstanceId → Bool) : List InstanceId :=
  let rest := (c.bucket h).dropWhile fun i => !ok i
  (c.bucket h).takeWhile (fun i => !ok i) ++ rest.take 1

/-- The oldest instance of a bucket that is accepted. -/
def find? (c : InstanceCache) (h : Digest) (ok : InstanceId → Bool) : Option InstanceId :=
  (c.bucket h).find? ok

/-- Puts `i` at the end of its bucket, or into a new one. -/
def insert (c : InstanceCache) (h : Digest) (i : InstanceId) : InstanceCache where
  buckets :=
    match c.buckets.lookup h with
    | none => (h, [i]) :: c.buckets
    | some _ => c.buckets.map fun b => (b.1, if b.1 = h then b.2 ++ [i] else b.2)
  size := c.size + 1

/-- Removes the oldest occurrence of `i` and says whether there was one. An emptied bucket goes. -/
def erase (c : InstanceCache) (h : Digest) (i : InstanceId) : Bool × InstanceCache :=
  if i ∈ c.bucket h then (true, ⟨go c.buckets, c.size - 1⟩) else (false, c)
where
  go : List (Digest × List InstanceId) → List (Digest × List InstanceId)
    | [] => []
    | (k, is) :: rest =>
      if k = h then
        if (is.erase i).isEmpty then rest else (k, is.erase i) :: rest
      else (k, is) :: go rest

/-- Every instance. -/
def ids (c : InstanceCache) : List InstanceId := c.buckets.flatMap (·.2)

def isEmpty (c : InstanceCache) : Bool := c.size = 0

/-- Every instance, in the order of their numbers. -/
def sortedIds (c : InstanceCache) : List InstanceId :=
  c.ids.mergeSort fun a b => a.index ≤ b.index

@[simp] theorem bucket_empty (h : Digest) : bucket {} h = [] := rfl

theorem lookup_map (f : Digest → List InstanceId → List InstanceId)
    (bs : List (Digest × List InstanceId)) (k : Digest) :
    (bs.map fun b => (b.1, f b.1 b.2)).lookup k = (bs.lookup k).map (f k) := by
  induction bs with
  | nil => rfl
  | cons b bs ih =>
    obtain ⟨x, is⟩ := b
    by_cases hk : k = x
    · simp [hk]
    · simp [List.lookup_cons, beq_false_of_ne hk, ih]

theorem bucket_insert_self (c : InstanceCache) (h : Digest) (i : InstanceId) :
    (c.insert h i).bucket h = c.bucket h ++ [i] := by
  unfold insert bucket
  cases hb : c.buckets.lookup h with
  | none => simp
  | some is =>
    simpa [hb] using congrArg (·.getD [])
      (lookup_map (fun k is => if k = h then is ++ [i] else is) c.buckets h)

theorem bucket_insert_of_ne (c : InstanceCache) {h k : Digest} (i : InstanceId) (hk : k ≠ h) :
    (c.insert h i).bucket k = c.bucket k := by
  unfold insert bucket
  cases hb : c.buckets.lookup h with
  | none => simp [List.lookup_cons, beq_false_of_ne hk]
  | some is =>
    simpa [hk] using congrArg (·.getD [])
      (lookup_map (fun k is => if k = h then is ++ [i] else is) c.buckets k)

end InstanceCache
end Templates
