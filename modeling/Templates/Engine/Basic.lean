import Templates.Decl
import Templates.Instance
import Templates.Error
import Templates.Diagnostic.Queue

/-!
# The engine

The engine keeps every declaration and every instance, numbered in the order they came, and the
diagnostic queue. Declarations that share a name form overload sets.
-/

namespace Templates

structure EngineConfig where
  /-- The most instances that may be elaborated inside each other. -/
  recursionLimit : Nat := 500
  /-- The most lines of a trace that stand for instances. -/
  traceMax : Nat := 6
  queue : QueueConfig := {}
  /-- What instances are cached under. Equal digests share a bucket and cost a comparison each. -/
  digest : List Arg → Option ScopeId → Digest := Digest.ofKey
  deriving Inhabited

/-- Keeps every error and every line of a trace. -/
def EngineConfig.unlimited : EngineConfig := { traceMax := maxWord64, queue := .unlimited }

structure EngineStats where
  requests : Nat := 0
  cacheHits : Nat := 0
  created : Nat := 0
  /-- Failed speculative instances that left their cache. -/
  evicted : Nat := 0
  deriving DecidableEq, Inhabited, Repr

structure Engine where
  config : EngineConfig := {}
  decls : Array DeclEntry := #[]
  insts : Array Instance := #[]
  /-- The modules that are compiled in this session. -/
  roots : List ModuleId := []
  queue : DiagnosticQueue := { config := config.queue }
  stats : EngineStats := {}
  deriving Inhabited

namespace Engine

def decl? (e : Engine) (d : DeclId) : Option DeclEntry := e.decls[d.index]?

/-- The declaration `d`; blank if there is none. -/
def decl (e : Engine) (d : DeclId) : Decl := ((e.decl? d).map (·.toDecl)).getD default

def inst? (e : Engine) (i : InstanceId) : Option Instance := e.insts[i.index]?

def modifyDecl (e : Engine) (d : DeclId) (f : DeclEntry → DeclEntry) : Engine :=
  { e with decls := e.decls.modify d.index f }

def modifyInst (e : Engine) (i : InstanceId) (f : Instance → Instance) : Engine :=
  { e with insts := e.insts.modify i.index f }

def isRoot (e : Engine) (m : ModuleId) : Bool := e.roots.contains m

def addRoot (e : Engine) (m : ModuleId) : Engine :=
  if e.isRoot m then e else { e with roots := m :: e.roots }

/-- Instances made now are speculative. -/
def isGagged (e : Engine) : Bool := e.queue.isGagged

theorem inst?_modifyInst (e : Engine) (i j : InstanceId) (f : Instance → Instance) :
    (e.modifyInst i f).inst? j = if i = j then (e.inst? j).map f else e.inst? j := by
  obtain ⟨i⟩ := i
  obtain ⟨j⟩ := j
  simp only [inst?, modifyInst, Array.getElem?_modify, InstanceId.mk.injEq]

/-! ## Declarations -/

/-- Adds a declaration as an overload set of its own. -/
def declare (e : Engine) (d : Decl) : Except TemplateError DeclId × Engine :=
  match d.finalize? with
  | .error reason =>
    let err : TemplateError := .invalidParameterList d.name reason d.span
    (.error err, { e with queue := (e.queue.add (err.toDiagnostic [])).2 })
  | .ok d => (.ok ⟨e.decls.size⟩, { e with decls := e.decls.push { d with } })

/-- The first declaration of the overload set. -/
def rootOf (e : Engine) (d : DeclId) : DeclId := ((e.decl? d).bind (·.root)).getD d

/-- At most `n` declarations from `d` on along the links to the next. -/
def overloadsFrom (e : Engine) : Nat → DeclId → List DeclId
  | 0, _ => []
  | n + 1, d =>
    match (e.decl? d).bind (·.next) with
    | some next => d :: e.overloadsFrom n next
    | none => [d]

/-- The overload set of `d`, in the order of declaration. No set is larger than the engine. -/
def overloads (e : Engine) (d : DeclId) : List DeclId := e.overloadsFrom e.decls.size (e.rootOf d)

/-- Adds a declaration at the end of the overload set of `existing`. -/
def overloadInsert (e : Engine) (existing : DeclId) (d : Decl) :
    Except TemplateError DeclId × Engine :=
  let root := e.rootOf existing
  let last := ((e.overloads root).getLast?).getD root
  match e.declare d with
  | (.error err, e) => (.error err, e)
  | (.ok id, e) =>
    (.ok id,
      (e.modifyDecl id fun d => { d with root := some root }).modifyDecl last fun d =>
        { d with next := some id })

/-! ## Caches -/

/-- The cached instance of `d` with the given key. -/
def lookup (e : Engine) (d : DeclId) (args : List Arg) (enclosing : Option ScopeId) :
    Option InstanceId :=
  (e.decl? d).bind fun entry =>
    entry.cache.find? (e.config.digest args enclosing) fun i =>
      ((e.inst? i).map (·.hasKey args enclosing)).getD false

/-- Drops the instance from the cache of its declaration and counts it, if it was there. -/
def evict (e : Engine) (i : InstanceId) : Engine :=
  match e.inst? i with
  | none => e
  | some inst =>
    match e.decl? inst.decl with
    | none => e
    | some entry =>
      match entry.cache.erase inst.digest i with
      | (true, cache) =>
        { e.modifyDecl inst.decl fun d => { d with cache := cache } with
          stats := { e.stats with evicted := e.stats.evicted + 1 } }
      | (false, _) => e

end Engine
end Templates
