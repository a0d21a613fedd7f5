import Templates.Semantics

/-!
# Expressions of a scripted front end

An expression of a script asks about one name at most. Names are looked up in the scope where the
expression stands and then outwards.
-/

namespace Templates.World

inductive Comparison
  | less
  | equal
  | greater
  deriving DecidableEq, Inhabited, Repr

def Comparison.holds (c : Comparison) (a b : Int) : Bool :=
  match c with
  | .less => a < b
  | .equal => a = b
  | .greater => b < a

inductive Expr
  | const (v : Value)
  | fail (f : Failure)
  /-- The value of a name. -/
  | lookup (name : String)
  | add (name : String) (k : Int)
  | compare (name : String) (c : Comparison) (k : Int)
  /-- The name is bound to exactly this type. -/
  | isType (name : String) (t : Ty)
  /-- The length of a sequence. -/
  | count (name : String)
  | isBound (name : String)
  | not (e : Expr)
  deriving Inhabited

namespace Expr

def unbound (name : String) : Failure := ⟨"undefined identifier `" ++ name ++ "`", {}⟩

def wrongKind (name : String) (a : Arg) : Failure := ⟨"`" ++ name ++ "` is a " ++ a.kind.text, {}⟩

def notInteger (name : String) : Failure := ⟨"`" ++ name ++ "` is not an integer", {}⟩

/-- The integer that a name is bound to, with its type. -/
def integer (find : String → Option Arg) (name : String) : Except Failure (Ty × Int) :=
  match find name with
  | some (.value t (.int n)) => .ok (t, n)
  | some _ => .error (notInteger name)
  | none => .error (unbound name)

/-- The value of an expression among the bindings that `find` gives. -/
def eval (find : String → Option Arg) : Expr → Except Failure Value
  | .const v => .ok v
  | .fail f => .error f
  | .lookup name =>
    match find name with
    | some (.value t c) => .ok ⟨t, c⟩
    | some a => .error (wrongKind name a)
    | none => .error (unbound name)
  | .add name k => do
    let (t, n) ← integer find name
    match int128? (n + k) with
    | some m => .ok ⟨t, .int m⟩
    | none => .error ⟨"integer overflow", {}⟩
  | .compare name c k => do
    let (_, n) ← integer find name
    .ok (.bool (c.holds n k))
  | .isType name t =>
    match find name with
    | some a => .ok (.bool (a = .type t))
    | none => .error (unbound name)
  | .count name =>
    match find name with
    | some (.tuple elems) => .ok ⟨.ulong, .int elems.length⟩
    | some a => .error (wrongKind name a)
    | none => .error (unbound name)
  | .isBound name => .ok (.bool (find name).isSome)
  | .not e => do
    match (← e.eval find).toBool? with
    | some b => .ok (.bool !b)
    | none => .error ⟨"operand is not a boolean", {}⟩

end Expr
end Templates.World
