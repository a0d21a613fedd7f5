import Templates.Engine.Ownership
import Templates.Chain
import Templates.Trace
import Templates.Print
import Templates.Mangle

/-!
# What the engine says about instances

Names of instances for readers and for the linker, traces, and reports to the diagnostic queue.
Symbols are named by the front end.
-/

namespace Templates.Engine

/-- The instance as it was asked for. -/
def display (e : Engine) (names : SymbolId → String) (i : InstanceId) : String :=
  let p : Printer := { names := names }
  match e.inst? i with
  | some inst => p.inst inst.name inst.resolved
  | none => p.inst "" []

/-- The name of the instance for the linker. -/
def mangled (e : Engine) (names : SymbolId → String) (i : InstanceId) : String :=
  match e.inst? i with
  | some inst => mangle names inst.name inst.deduced
  | none => mangle names "" []

/-- The lines that say where the instance and those around it were asked for. -/
def instantiationTrace (e : Engine) (names : SymbolId → String) (i : InstanceId) : List String :=
  Trace.lines
    ((e.enclosers i).filterMap fun j =>
      (e.inst? j).map fun inst => ⟨inst.decl, e.display names j, inst.span⟩)
    e.config.traceMax

/-- The lines that say where the frames of a chain were asked for. What a made-up frame names is
blank if it is not there. -/
def chainTrace (e : Engine) (names : SymbolId → String) (c : Chain) : List String :=
  let p : Printer := { names := names }
  Trace.lines
    (c.map fun f =>
      let resolved := ((e.inst? f.inst).map (·.resolved)).getD []
      ⟨f.decl, p.inst (e.decl f.decl).name resolved, f.span⟩)
    e.config.traceMax

/-- Sends an error to the queue, with the trace of the chain. -/
def report (e : Engine) (names : SymbolId → String) (err : TemplateError) (c : Chain) : Engine :=
  { e with queue := (e.queue.add (err.toDiagnostic (e.chainTrace names c))).2 }

end Templates.Engine
