import Templates.Service

/-!
# What a scripted front end reports

Every operation of a script gives a report. Reports and calls of the service are written to a log.
-/

namespace Templates.World

/-- A rejection with the reason in words. -/
structure RejectionReport where
  rejection : Rejection
  description : String

def RejectionReport.of (d : Decl) (r : Rejection) : RejectionReport := ⟨r, r.describe d⟩

structure ParamView where
  param : Param
  description : String
  standIn : Arg

structure DeclView where
  entry : DeclEntry
  signature : String
  params : List ParamView
  overloads : List DeclId
  /-- Those of the first four modules that see the declaration. -/
  visibleFrom : List ModuleId

structure InstanceView where
  id : InstanceId
  inst : Instance
  display : String
  mangled : String
  owner : Option ModuleId
  needsCodegen : Bool

structure QueueView where
  texts : List String
  queue : DiagnosticQueue

inductive Report
  | done
  | declared (r : Except TemplateError DeclId)
  | instantiated (r : Except TemplateError InstanceId)
  | selected (r : Except (DeclId × DeclId) (DeclId × Deduction))
  | unselected (rejected : List (DeclId × RejectionReport))
  | matched (r : Except RejectionReport Deduction)
  | compared (order : Order) (least : Level)
  | best (s : Selection)
  | defaulted (r : Except Failure (Option Arg))
  | decl (v : DeclView)
  | inst (v : InstanceView)
  | lines (ls : List String)
  | aliased (s : Option SymbolId)
  | yes (b : Bool)
  | codegen (owner : Option ModuleId) (needs : Bool)
  | layout (results : List (Except LayoutError Unit)) (a : AggregateLayout)
  | mark (n : Nat)
  | stats (s : EngineStats)
  | counts (decls insts : Nat)
  | queue (v : QueueView)
  | taken (ds : List Diagnostic)

inductive Event
  | evaluated (e : ExprId) (scope : ScopeId) (r : Except Failure Value)
  | opened (parent scope : ScopeId)
  | declared (scope : ScopeId) (name : String) (a : Arg)
  | elaborating (decl : DeclId) (i : InstanceId) (depth : Nat)
  | resumed (i : InstanceId)
  | injected (target : SymbolId) (m : Member)
  /-- The answer to a request of a body. -/
  | nested (r : Except TemplateError InstanceId)
  /-- A request of a body whose arguments could not be computed. -/
  | skipped (i : InstanceId)
  | did (r : Report)

/-! ## Views of the engine -/

def ParamView.of (d : Decl) (id : DeclId) (p : Param) (i : Nat) (names : SymbolId → String) :
    ParamView where
  param := p
  description := ({ names := names, params := d.params } : Printer).param p
  standIn := p.kind.standIn ⟨id, ⟨i⟩⟩ none

def DeclView.of (e : Engine) (names : SymbolId → String) (id : DeclId) (entry : DeclEntry) :
    DeclView where
  entry := entry
  signature := ({ names := names } : Printer).signature entry.toDecl
  params := entry.params.zipIdx.map fun (p, i) => .of entry.toDecl id p i names
  overloads := e.overloads id
  visibleFrom := ((List.range 4).map ModuleId.mk).filter entry.isVisibleFrom

def InstanceView.of (e : Engine) (names : SymbolId → String) (i : InstanceId) (inst : Instance) :
    InstanceView where
  id := i
  inst := inst
  display := e.display names i
  mangled := e.mangled names i
  owner := e.codegenOwner i
  needsCodegen := e.needsCodegen i

def QueueView.of (e : Engine) : QueueView := ⟨e.queue.queued.toList.map Diagnostic.text, e.queue⟩

end Templates.World
