import Templates.Engine.Basic

/-!
# Who emits the code of an instance

The first root module that needs an instance owns its code. An instance that no root module asked
for itself belongs to the owner of the instance whose elaboration asked for it.
-/

namespace Templates.Engine

/-- At most `n` instances from `i` outwards along the links to the enclosing instance. -/
def enclosersFrom (e : Engine) : Nat → InstanceId → List InstanceId
  | 0, _ => []
  | n + 1, i =>
    match (e.inst? i).bind (·.enclosingInstance) with
    | some outer => i :: e.enclosersFrom n outer
    | none => [i]

/-- The instance and those around it, innermost first. A walk outwards that ends visits no instance
twice, so none of them is missing. -/
def enclosers (e : Engine) (i : InstanceId) : List InstanceId := e.enclosersFrom e.insts.size i

/-- The module that must emit the code. -/
def codegenOwner (e : Engine) (i : InstanceId) : Option ModuleId :=
  (e.enclosers i).findSome? fun j => (e.inst? j).bind (·.firstModule)

def isComplete (e : Engine) (i : InstanceId) : Bool :=
  ((e.inst? i).map fun inst => decide (inst.state = .complete)).getD false

def needsCodegen (e : Engine) (i : InstanceId) : Bool := e.isComplete i && (e.codegenOwner i).isSome

/-- Lets the owner take over the code, once. -/
def claimCodegen (e : Engine) (i : InstanceId) (m : ModuleId) : Bool × Engine :=
  if e.needsCodegen i && e.codegenOwner i = some m &&
      ((e.inst? i).map fun inst => !inst.claimed).getD false then
    (true, e.modifyInst i fun inst => { inst with claimed := true })
  else (false, e)

/-- A member of the instance imports `m`. -/
def recordImport (e : Engine) (i : InstanceId) (m : ModuleId) : Engine :=
  e.modifyInst i fun inst => inst.addImport m

end Templates.Engine
