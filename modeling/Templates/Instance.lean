import Templates.Span
import Templates.Arg
import Templates.Level
import Templates.Field
import Templates.Digest

/-!
# Instances

An instance is one expansion of a declaration. Its key is made of the declaration, the deduced
arguments and the enclosing scope. Its members come from the front end.
-/

namespace Templates

structure Member where
  name : String
  symbol : SymbolId
  /-- The layout of a data member. -/
  field : Option FieldLayout := none
  deriving DecidableEq, Inhabited, Repr

/-- Members in the order of their declaration. -/
abbrev MemberTable := List Member

namespace MemberTable

/-- The first member of that name. -/
def named? (t : MemberTable) (name : String) : Option Member := t.find? (·.name = name)

/-- The data members. -/
def fields (t : MemberTable) : List (String × FieldLayout) :=
  t.filterMap fun m => m.field.map (m.name, ·)

end MemberTable

inductive InstanceState
  /-- The members are being elaborated. -/
  | elaborating
  /-- The members are there but the instance waits for another. -/
  | suspended
  | complete
  | errored
  deriving DecidableEq, Inhabited, Repr

/-- How far a request needs the instance. -/
inductive Need
  /-- With its members. -/
  | members
  /-- A handle is enough; the instance may be in progress. -/
  | reference
  deriving DecidableEq, Inhabited, Repr

/-- The aggregate that the members of a mixin go to. -/
structure MixinTarget where
  aggregate : SymbolId
  /-- The scope of the members of the aggregate. -/
  scope : ScopeId
  deriving DecidableEq, Inhabited, Repr

structure Instance where
  decl : DeclId
  name : String
  /-- Where the instance was first asked for. -/
  span : Span
  /-- The arguments as they were written there. -/
  supplied : List SiteArg
  /-- The arguments evaluated and flattened. -/
  resolved : List Arg
  /-- One argument for each parameter. -/
  deduced : List Arg
  level : Level
  enclosing : Option ScopeId
  /-- The digest under which the instance is cached. -/
  digest : Digest
  /-- Only speculative requests have asked for the instance. -/
  gagged : Bool
  /-- The aggregate, for a mixin. -/
  mixinTarget : Option SymbolId
  /-- A module has taken over the code. -/
  claimed : Bool := false
  state : InstanceState := .elaborating
  paramScope : Option ScopeId := none
  members : Option MemberTable := none
  /-- The member that has the name of the declaration. -/
  aliasMember : Option SymbolId := none
  /-- The module that first asked for the instance. -/
  moduleOf : ModuleId
  /-- The first root module that needs the instance. -/
  firstModule : Option ModuleId
  /-- The instance whose elaboration first asked for this one. -/
  enclosingInstance : Option InstanceId
  imports : List ModuleId := []
  /-- The instances that wait for this one. -/
  deferred : List InstanceId := []
  /-- The number of instances in progress that this one waits for. -/
  waitingOn : Nat := 0
  deriving Inhabited

namespace Instance

def isMixin (i : Instance) : Bool := i.mixinTarget.isSome

def isErrored (i : Instance) : Bool := i.state = .errored

/-- A data member holds a pointer. -/
def hasPointers (i : Instance) : Bool :=
  ((i.members.map MemberTable.fields).getD []).any (·.2.hasPointers)

/-- The instance has the given arguments and scope. -/
def hasKey (i : Instance) (args : List Arg) (enclosing : Option ScopeId) : Bool :=
  i.enclosing = enclosing && i.deduced = args

/-- The modules that the members import, each once, in the order of their numbers. -/
def sortedImports (i : Instance) : List ModuleId := i.imports.mergeSort fun a b => a.index ≤ b.index

def addImport (i : Instance) (m : ModuleId) : Instance :=
  if m ∈ i.imports then i else { i with imports := m :: i.imports }

end Instance
end Templates
