import Templates.Span
import Templates.Arg

/-!
# Chains of instantiations in progress

A chain has a frame for each instance that is being elaborated, innermost first. The front end is
given the chain and hands it on with the requests that it makes.
-/

namespace Templates

/-- An instantiation in progress. -/
structure Frame where
  decl : DeclId
  inst : InstanceId
  args : List Arg
  enclosing : Option ScopeId
  /-- Where the request was made. -/
  span : Span
  deriving DecidableEq, Inhabited

/-- Innermost first. -/
abbrev Chain := List Frame

namespace Chain

def depth (c : Chain) : Nat := c.length

/-- The instance that is being elaborated. -/
def innermost? (c : Chain) : Option InstanceId := c.head?.map (·.inst)

/-- The innermost frame with the given key, and the chain around it. -/
def findAttempt? (decl : DeclId) (args : List Arg) (enclosing : Option ScopeId) :
    Chain → Option (Frame × Chain)
  | [] => none
  | f :: c =>
    if f.decl = decl ∧ f.enclosing = enclosing ∧ f.args = args then some (f, c)
    else findAttempt? decl args enclosing c

def containsInstance (c : Chain) (i : InstanceId) : Bool := c.any (·.inst = i)

/-- The number of frames that elaborate `d`. -/
def reentrancy (c : Chain) (d : DeclId) : Nat := c.countP (·.decl = d)

theorem mem_of_findAttempt? {decl : DeclId} {args : List Arg} {enclosing : Option ScopeId}
    {c c' : Chain} {f : Frame} (h : findAttempt? decl args enclosing c = some (f, c')) : f ∈ c := by
  induction c with
  | nil => cases h
  | cons g c ih =>
    unfold findAttempt? at h
    split at h
    · cases h
      exact List.mem_cons_self
    · exact List.mem_cons_of_mem g (ih h)

end Chain
end Templates
