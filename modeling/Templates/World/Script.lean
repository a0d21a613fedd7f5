import Templates.World.Basic

/-!
# Running a script

Operations and the steps of bodies are programs over the engine. The service of a world runs the
steps that the script gave to a declaration.
-/

namespace Templates.World

/-! ## Arguments of steps -/

mutual

/-- An argument as it would be written. -/
def ofArg : Arg → SiteArg
  | .type t => .type t
  | .value t c => .value ⟨t, c⟩
  | .symbol s => .symbol s
  | .tuple elems => .tuple (ofArgs elems)

def ofArgs : List Arg → List SiteArg
  | [] => []
  | a :: as => ofArg a :: ofArgs as

end

/-- The argument of a step, if it can be computed. -/
def StepArg.eval? (deduced : List Arg) : StepArg → Option SiteArg
  | .site a => some a
  | .subst t => some (.type (t.subst (.ofArgs deduced)))
  | .deduced i => (deduced[i]?).map ofArg
  | .add i k =>
    match deduced[i]? with
    | some (.value t (.int n)) => (int128? (n + k)).map fun m => .value ⟨t, .int m⟩
    | _ => none
  | .first i =>
    match deduced[i]? with
    | some (.tuple (a :: _)) => some (ofArg a)
    | _ => none
  | .rest i =>
    match deduced[i]? with
    | some (.tuple (_ :: as)) => some (.tuple (ofArgs as))
    | _ => none
  | .positive i =>
    match deduced[i]? with
    | some (.value _ (.int n)) => if 0 < n then some (.tuple []) else none
    | _ => none

/-! ## Operations -/

/-- Changes the world. -/
def change (f : World → World) : Program World Unit := Program.call fun w => ((), f w)

def note (ev : Event) : Program World Unit := change (·.write ev)

def world : Program World World := .read fun _ w => .done w

/-- Asks the semantics of the world. -/
def ask {α : Type} (m : StateM World α) : Program World α := Program.call m

def matchReport (d : Decl) : Except Rejection Deduction → Except RejectionReport Deduction
  | .ok ded => .ok ded
  | .error r => .error (.of d r)

def selectReport (e : Engine) : Except SelectError (DeclId × Deduction) → Report
  | .ok r => .selected (.ok r)
  | .error (.ambiguous a b) => .selected (.error (a, b))
  | .error (.noMatch rejected) =>
    .unselected (rejected.map fun (d, r) => (d, .of (e.decl d) r))

/-- The candidates of a choice, or a halt. -/
def candidates : List (DeclId × Level) → Program World (List Candidate)
  | [] => pure []
  | (d, l) :: rest => do
    let entry ← Program.declared d
    let cs ← candidates rest
    pure (⟨d, entry.toDecl, l⟩ :: cs)

/-- Places the fields of each instance in turn. -/
def placeFields (a : AggregateLayout) :
    List InstanceId → Program World (List (Except LayoutError Unit) × AggregateLayout)
  | [] => pure ([], a)
  | i :: is => do
    let inst ← Program.made i
    let (r, a) := a.placeAll ((inst.members.map MemberTable.fields).getD [])
    let (rs, a) ← placeFields a is
    pure (r :: rs, a)

/-- Puts frames on a chain, the outermost first. -/
def pushFrames (c : Chain) (frames : List Frame) : Chain := frames.reverse ++ c

/-- Carries out an operation under a chain. -/
def perform (c : Chain) : Op → Program World Report
  | .declare d => do pure (.declared (← Program.perform (.declare d)))
  | .overload existing d => do pure (.declared (← Program.perform (.overload existing d)))
  | .body d steps => do
    change fun w => { w with bodies := (d, steps) :: w.bodies }
    pure .done
  | .resumeBody d steps => do
    change fun w => { w with resumeBodies := (d, steps) :: w.resumeBodies }
    pure .done
  | .instantiate r frames => do
    pure (.instantiated (← Program.ask (pushFrames c frames) r))
  | .mixin r target => do
    pure (.instantiated (← Program.ask c { r with mixin := some target }))
  | .select d args receiver m => do
    let _ ← Program.declared d
    let e ← Program.engine
    let r ← ask (e.select semantics d args receiver m)
    pure (selectReport e r)
  | .matchDecl d args receiver mode => do
    let entry ← Program.declared d
    let r ← ask (semantics.matchDecl entry.toDecl args receiver mode)
    pure (.matched (matchReport entry.toDecl r))
  | .compare a b => do
    let x ← Program.declared a
    let y ← Program.declared b
    let order ← ask (semantics.compare (a, x.toDecl) (b, y.toDecl))
    let least ← ask (semantics.leastAsSpecialized (a, x.toDecl) (b, y.toDecl))
    pure (.compared order least)
  | .selectBest cs => do
    pure (.best (← ask (semantics.selectBest (← candidates cs))))
  | .defaultArg d i b => do
    let entry ← Program.declared d
    match entry.param? i with
    | some p => pure (.defaulted (← ask (semantics.defaultArg p.kind ⟨0⟩ b)))
    | none => .halt (.dangling entry.params.length i.index)
  | .decl d => do
    let entry ← Program.declared d
    pure (.decl (.of (← Program.engine) (← world).symbolName d entry))
  | .inst i => do
    let inst ← Program.made i
    pure (.inst (.of (← Program.engine) (← world).symbolName i inst))
  | .trace i => do
    let _ ← Program.made i
    pure (.lines ((← Program.engine).instantiationTrace (← world).symbolName i))
  | .toAlias i => do pure (.aliased (← Program.made i).aliasMember)
  | .addRoot m => do
    Program.perform (.addRoot m)
    pure (.yes ((← Program.engine).isRoot m))
  | .isRoot m => do pure (.yes ((← Program.engine).isRoot m))
  | .codegen i => do
    let _ ← Program.made i
    let e ← Program.engine
    pure (.codegen (e.codegenOwner i) (e.needsCodegen i))
  | .claim i m => do pure (.yes (← Program.perform (.claim i m)))
  | .recordImport i m => do
    Program.perform (.recordImport i m)
    pure .done
  | .layout a ids => do
    let (results, a) ← placeFields a ids
    pure (.layout results a)
  | .gag => do
    let m ← Program.perform .pushGag
    let n := (← world).marks.size
    change fun w => { w with marks := w.marks.push m }
    pure (.mark n)
  | .ungag i => do
    match (← world).marks[i]? with
    | some m => pure (.mark (← Program.perform (.popGag m)))
    | none => .halt (.dangling (← world).marks.size i)
  | .stats => do pure (.stats (← Program.engine).stats)
  | .counts => do
    let e ← Program.engine
    pure (.counts e.decls.size e.insts.size)
  | .diagnostics => do pure (.queue (.of (← Program.engine)))
  | .take => do pure (.taken (← Program.perform .flush))

/-! ## Bodies -/

/-- What the steps of a body know of their instance. -/
structure BodyContext where
  chain : Chain
  id : InstanceId
  deduced : List Arg
  scope : ScopeId
  module : ModuleId

def BodyContext.of (c : Chain) (i : InstanceId) (inst : Instance) : BodyContext :=
  ⟨c, i, inst.deduced, inst.paramScope.getD ⟨0⟩, inst.moduleOf⟩

/-- The request of a step, if its arguments can be computed. -/
def StepRequest.toRequest? (r : StepRequest) (cx : BodyContext) : Option Request :=
  (r.args.mapM (StepArg.eval? cx.deduced)).map fun args =>
    { r.request with
      args := args, scope := r.scope.getD cx.scope, module := r.module.getD cx.module }

/-- Makes a symbol for a member. -/
def addMember (cx : BodyContext) (name : String) (field : Option Ty)
    (layout : Option FieldLayout) : Program World Member := do
  let symbol : SymbolId := ⟨(← world).symbols.size⟩
  change fun w => { w with symbols := w.symbols.push { name := name } }
  let ofField := field.bind fun t => FieldLayout.ofTy? (t.subst (.ofArgs cx.deduced))
  pure ⟨name, symbol, layout.or ofField⟩

/-- A nested request, as the body sees it: an error that is not ignored ends the body. -/
def nestedRequest (cx : BodyContext) (r : StepRequest) : Program World (Except Failure Unit) := do
  match r.toRequest? cx with
  | none =>
    note (.skipped cx.id)
    pure (.ok ())
  | some req =>
    let answer ← Program.ask (if r.dropChain then [] else cx.chain) req
    note (.nested answer)
    match answer with
    | .error err => if r.ignore then pure (.ok ()) else pure (.error err.toFailure)
    | .ok _ => pure (.ok ())

/-- Runs the steps in order and gives the members that they made. -/
def runSteps (cx : BodyContext) : List Step → Program World (Except Failure MemberTable)
  | [] => pure (.ok [])
  | .member name field layout :: steps => do
    let m ← addMember cx name field layout
    pure ((← runSteps cx steps).map (m :: ·))
  | .fail f :: _ => pure (.error f)
  | .recordImport m :: steps => do
    Program.perform (.recordImport cx.id m)
    runSteps cx steps
  | .act op :: steps => do
    note (.did (← perform cx.chain op))
    runSteps cx steps
  | .request r :: steps => do
    match ← nestedRequest cx r with
    | .error f => pure (.error f)
    | .ok () => runSteps cx steps

/-- The front end of a script. -/
def service : Service World where
  toSemantics := semantics
  elaborate c i := do
    let inst ← Program.made i
    note (.elaborating inst.decl i c.depth)
    runSteps (.of c i inst) (((← world).bodies.lookup inst.decl).getD [])
  resume i := do
    let inst ← Program.made i
    note (.resumed i)
    pure ((← runSteps (.of [] i inst) (((← world).resumeBodies.lookup inst.decl).getD [])).map
      fun _ => ())
  inject target m := fun w => ((), w.write (.injected target m))

/-! ## Scripts -/

/-- More levels of nesting than a run can reach in practice. -/
def ampleFuel : Nat := 1000000000

/-- Takes what was logged. -/
def takeLog : StateM World (List Event) := fun w => (w.log.toList, { w with log := #[] })

/-- Carries out operations one after the other. Each has its report and its part of the log. -/
def performAll : List Op → RunM World (List (Report × List Event))
  | [] => pure []
  | op :: ops => do
    let r ← service.run ampleFuel (perform [] op)
    let log ← RunM.service takeLog
    let rest ← performAll ops
    pure ((r, log) :: rest)

/-- Runs a script from an empty engine. -/
def runScript (config : EngineConfig) (w : World) (ops : List Op) :
    Except Halt (List (Report × List Event) × Run World) :=
  performAll ops ⟨{ config := config }, w⟩

/-- Views of every instance of an engine. -/
def instanceViews (e : Engine) (w : World) : List InstanceView :=
  e.insts.toList.zipIdx.map fun (inst, i) => .of e w.symbolName ⟨i⟩ inst

end Templates.World
