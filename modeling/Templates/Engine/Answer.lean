import Templates.Engine.Plan
import Templates.Engine.Report

/-!
# Instances that are there already, and new ones

A request is answered from the chain if the instance is being elaborated further out, and from the
cache if it was made before. Otherwise a new instance is made, unless the chain is too deep.
-/

namespace Templates.Engine

/-- One request more. -/
def countRequest (e : Engine) : Engine :=
  { e with stats := { e.stats with requests := e.stats.requests + 1 } }

/-- Makes `requester` wait for `target`, once. A made-up frame may name an instance that is not there;
nothing is noted in it. -/
def defer (e : Engine) (requester target : InstanceId) : Engine :=
  match e.inst? target with
  | none => e
  | some t =>
    if t.deferred.contains requester then e
    else
      (e.modifyInst target fun t => { t with deferred := t.deferred ++ [requester] }).modifyInst
        requester fun i => { i with waitingOn := i.waitingOn + 1 }

/-- Records that the instance was asked for again. A request outside every gag takes the mark of
speculation away, and a root module becomes the owner if there is none. -/
def touch (e : Engine) (i : InstanceId) (r : Request) : Engine :=
  if e.isGagged then e
  else
    e.modifyInst i fun inst =>
      { inst with
        gagged := false
        firstModule :=
          if inst.firstModule.isNone && e.isRoot r.module then some r.module
          else inst.firstModule }

/-- What an engine says to a request, with the engine afterwards. -/
abbrev Answer := Except TemplateError InstanceId × Engine

/-- Reports the error and answers with it. -/
def reject (e : Engine) (names : SymbolId → String) (err : TemplateError) (c : Chain) : Answer :=
  (.error err, e.report names err c)

/-- Answers with the instance of a frame. With its members the instance would contain itself; a
reference makes the innermost instance wait for it. -/
def answerFromChain (e : Engine) (names : SymbolId → String) (r : Request) (c : Chain)
    (target : InstanceId) : Answer :=
  match r.need with
  | .members => e.reject names (.recursiveExpansion (e.display names target) r.span) c
  | .reference =>
    match c.innermost? with
    | some requester =>
      (.ok target, if requester = target then e else e.defer requester target)
    | none => (.ok target, e)

/-- Answers with a cached instance. A failed one was reported when it failed. One in progress that
is not on the chain can only be referred to. -/
def answerFromCache (e : Engine) (names : SymbolId → String) (r : Request) (c : Chain)
    (i : InstanceId) : Answer :=
  let e := { e with stats := { e.stats with cacheHits := e.stats.cacheHits + 1 } }
  match (e.inst? i).map Instance.state, r.need with
  | some .errored, _ => (.error (.memberElaborationFailed i (e.display names i) none r.span), e)
  | some .elaborating, .members =>
    e.reject names (.recursiveExpansion (e.display names i) r.span) c
  | _, _ => (.ok i, e.touch i r)

/-- The answer that needs no new instance, if there is one. -/
def answer? (e : Engine) (names : SymbolId → String) (r : Request) (c : Chain) (p : Plan) :
    Option Answer :=
  match c.findAttempt? p.decl p.deduction.args p.enclosing with
  | some (f, _) => some (e.answerFromChain names r c f.inst)
  | none =>
    match e.lookup p.decl p.deduction.args p.enclosing with
    | some i => some (e.answerFromCache names r c i)
    | none =>
      if e.config.recursionLimit ≤ c.depth then
        let printer : Printer := { names := names }
        some (e.reject names
          (.nestingDepthExceeded (printer.request (e.decl r.decl).name r.args)
            e.config.recursionLimit r.span) c)
      else none

/-- A new instance, in progress and cached. -/
def create (e : Engine) (r : Request) (c : Chain) (p : Plan) : InstanceId × Engine :=
  let i : InstanceId := ⟨e.insts.size⟩
  let inst : Instance :=
    { decl := p.decl
      name := (e.decl p.decl).name
      span := r.span
      supplied := r.args
      resolved := p.resolved
      deduced := p.deduction.args
      level := p.deduction.level
      enclosing := p.enclosing
      digest := e.config.digest p.deduction.args p.enclosing
      gagged := e.isGagged
      mixinTarget := r.mixin.map (·.aggregate)
      moduleOf := r.module
      firstModule := if !e.isGagged && e.isRoot r.module then some r.module else none
      enclosingInstance := c.innermost? }
  let e := e.modifyDecl p.decl fun d => { d with cache := d.cache.insert inst.digest i }
  (i,
    { e with
      insts := e.insts.push inst
      stats := { e.stats with created := e.stats.created + 1 } })

/-- The frame of a new instance. -/
def frameOf (r : Request) (p : Plan) (i : InstanceId) : Frame :=
  ⟨p.decl, i, p.deduction.args, p.enclosing, r.span⟩

/-- The symbol of the member that has the name of the declaration, if the declaration has no other
member. -/
def eponym? (e : Engine) (i : InstanceId) (members : MemberTable) : Option SymbolId :=
  match e.inst? i with
  | some inst =>
    let d := e.decl inst.decl
    if d.isEponymous then (members.named? d.name).map (·.symbol) else none
  | none => none

/-- The instance has its members. It still waits if it refers to an instance in progress. -/
def complete (e : Engine) (i : InstanceId) (members : MemberTable) : Engine :=
  let eponym := e.eponym? i members
  e.modifyInst i fun inst =>
    { inst with
      aliasMember := eponym
      members := some members
      state := if 0 < inst.waitingOn then .suspended else .complete }

/-- The instance failed for a reason. A speculative one leaves its cache. The failure is reported
with the trace of the chain. -/
def fail (e : Engine) (names : SymbolId → String) (i : InstanceId) (reason : String) (span : Span)
    (c : Chain) : TemplateError × Engine :=
  let e := e.modifyInst i fun inst => { inst with state := .errored }
  let speculative := ((e.inst? i).map (·.gagged)).getD false
  let e := if speculative then e.evict i else e
  let err : TemplateError := .memberElaborationFailed i (e.display names i) (some reason) span
  (err, e.report names err c)

/-- The instance has gone on after it was released. It is complete or errored now. -/
def settle (e : Engine) (names : SymbolId → String) (i : InstanceId) :
    Except Failure Unit → Engine
  | .ok () => e.modifyInst i fun inst => { inst with state := .complete }
  | .error f => (e.fail names i f.message (((e.inst? i).map Instance.span).getD {}) []).2

/-- Takes the instances that wait for `i`. -/
def takeDeferred (e : Engine) (i : InstanceId) : List InstanceId × Engine :=
  (((e.inst? i).map (·.deferred)).getD [], e.modifyInst i fun inst => { inst with deferred := [] })

/-- One instance less to wait for. Says whether the instance can go on now. -/
def release (e : Engine) (i : InstanceId) : Bool × Engine :=
  let e := e.modifyInst i fun inst => { inst with waitingOn := inst.waitingOn - 1 }
  (((e.inst? i).map fun inst => inst.waitingOn = 0 && inst.state = .suspended).getD false, e)

end Templates.Engine
