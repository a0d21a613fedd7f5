import Templates.Width

/-!
# A pool of names

The pool numbers the texts that it is given, the empty text first, so that equal numbers are equal
texts. Texts are only ever added.
-/

namespace Templates

/-- The number of a text in a pool. -/
structure Name where
  index : Nat := 0
  deriving DecidableEq, Inhabited, Repr

/-- The name as a reader of a log sees it. -/
def Name.text (n : Name) : String := "Name(" ++ toString n.index ++ ")"

structure NamePool where
  /-- The texts in the order in which they came. -/
  texts : Array String := #[""]
  /-- The name of each text. -/
  names : List (String × Name) := [("", {})]
  deriving DecidableEq, Inhabited, Repr

/-- More texts than there are names. -/
inductive NamePool.Error
  | overflow (count : Nat)
  deriving DecidableEq, Repr

def NamePool.Error.message : NamePool.Error → String
  | .overflow count =>
    "interner exceeded capacity: " ++ toString count ++ " strings, max is " ++ toString maxWord32

namespace NamePool

def size (p : NamePool) : Nat := p.texts.size

/-- Whether the pool holds the empty text only. -/
def isEmpty (p : NamePool) : Bool := p.size ≤ 1

/-- The pool with a text that it does not have yet. Its name is the next one. -/
def add (p : NamePool) (s : String) : NamePool where
  texts := p.texts.push s
  names := (s, ⟨p.size⟩) :: p.names

/-- The name of `s` and the pool that knows it. -/
def intern (p : NamePool) (s : String) : Except Error (Name × NamePool) :=
  match p.names.lookup s with
  | some n => .ok (n, p)
  | none => if maxWord32 < p.size then .error (.overflow p.size) else .ok (⟨p.size⟩, p.add s)

/-- The text of a name; a name that was never given out reads as the empty text. -/
def lookup (p : NamePool) (n : Name) : String := p.texts[n.index]?.getD ""

/-- The pool as a reader of a log sees it. -/
def text (p : NamePool) : String := "StringInterner \x7b len: " ++ toString p.size ++ " \x7d"

/-- A text keeps its name. -/
theorem intern_of_lookup {p : NamePool} {s : String} {n : Name} (h : p.names.lookup s = some n) :
    p.intern s = .ok (n, p) := by
  unfold intern
  rw [h]

/-- A text that is not in the pool gets the next name, if there is one. -/
theorem intern_of_lookup_eq_none {p : NamePool} {s : String} (h : p.names.lookup s = none) :
    p.intern s =
      if maxWord32 < p.size then .error (.overflow p.size) else .ok (⟨p.size⟩, p.add s) := by
  unfold intern
  rw [h]

end NamePool
end Templates
