import Templates.Semantics
import Templates.Deduce
import Templates.Decl

/-!
# Matching an argument list against a declaration

Parameters are visited left to right. Each takes the next argument, a sequence takes the rest. One
without an argument keeps the binding that an earlier pattern gave it, or takes its default. The
constraint comes last, when every parameter is bound.
-/

namespace Templates

/-- A match: its level and one argument for each parameter. -/
structure Deduction where
  level : Level
  args : List Arg
  deriving DecidableEq, Inhabited

/-- Why a declaration does not take an argument list. -/
inductive Rejection
  | tooManyArguments (expected found : Nat)
  | mismatch (param : ParamIdx)
  | unbound (param : ParamIdx)
  | default (param : ParamIdx) (failure : Failure)
  /-- Without a failure the constraint was false. -/
  | constraint (failure : Option Failure)
  deriving DecidableEq, Inhabited

namespace Rejection

def message : Rejection → String
  | .tooManyArguments expected found =>
    "expected at most " ++ toString expected ++ " argument(s), found " ++ toString found
  | .mismatch p => "argument for parameter #" ++ toString p.index ++ " does not match"
  | .unbound p => "parameter #" ++ toString p.index ++ " could not be deduced"
  | .default p f => "default for parameter #" ++ toString p.index ++ " failed: " ++ f.message
  | .constraint _ => "constraint not satisfied"

/-- The reason with the parameter's name. -/
def describe (d : Decl) (r : Rejection) : String :=
  match r with
  | .mismatch p => "argument for `" ++ name p ++ "` does not match"
  | .unbound p => "could not deduce `" ++ name p ++ "`"
  | .default p f => "default for `" ++ name p ++ "` failed: " ++ f.message
  | .constraint (some f) => "constraint could not be evaluated: " ++ f.message
  | .tooManyArguments _ _ | .constraint none => r.message
where
  name (p : ParamIdx) : String := ((d.param? p).map (·.name)).getD "?"

/-- The number of arguments is at fault. -/
def isShape : Rejection → Bool
  | .tooManyArguments _ _ | .unbound _ => true
  | _ => false

def isConstraint : Rejection → Bool
  | .constraint _ => true
  | _ => false

def param? : Rejection → Option ParamIdx
  | .mismatch p | .unbound p | .default p _ => some p
  | .tooManyArguments _ _ | .constraint _ => none

def failure? : Rejection → Option Failure
  | .default _ f => some f
  | .constraint f => f
  | _ => none

end Rejection

inductive MatchMode
  /-- A request: the constraint is evaluated. -/
  | instantiate
  /-- Ranking with stand-ins: the constraint is skipped. -/
  | rank
  deriving DecidableEq, Inhabited, Repr

namespace Semantics

variable {σ : Type}

/-- Declares each parameter that has an argument. -/
def declareParams (sem : Semantics σ) (scope : ScopeId) : List Param → Bindings → StateM σ Unit
  | p :: ps, some a :: b => do
    sem.declareSymbol scope p.name a
    sem.declareParams scope ps b
  | _ :: ps, none :: b => sem.declareParams scope ps b
  | _, _ => pure ()

/-- Opens a scope in which every parameter bound so far has its name. -/
def paramScope (sem : Semantics σ) (d : Decl) (b : Bindings) : StateM σ ScopeId := do
  let scope ← sem.openScope d.scope
  sem.declareParams scope d.params b
  pure scope

/-- The default of a parameter with the bindings put in. There is none if it still mentions a
parameter. -/
def defaultArg (sem : Semantics σ) (k : ParamKind) (scope : ScopeId) (b : Bindings) :
    StateM σ (Except Failure (Option Arg)) :=
  match k with
  | .type p | .this p =>
    pure (.ok (((p.default.map (Ty.subst b)).filter fun t => !t.hasParams).map .type))
  | .value p =>
    match p.default with
    | some e => do pure ((← sem.evaluate e scope).map fun v => some (.ofValue v))
    | none => pure (.ok none)
  | .symbol p => do
    let s ← get
    pure (.ok (p.default.map fun x => .symbol (sem.canonicalSymbol s x)))
  | .tuple => pure (.ok none)

/-- What a parameter makes of an argument: nothing if it does not fit. -/
abbrev Fit := Option (Level × Bindings)

/-- The pattern binds first; the argument is what it bound the parameter itself to, if it did. A
pattern that mentions later parameters leaves the level to them. -/
def matchType (i : ParamIdx) (ps : List Param) (p : TypeParam) (a : Arg) (b : Bindings) :
    Fit :=
  match a with
  | .type t =>
    match p.spec with
    | none => (b.unify i (.type t)).map (.exact, ·)
    | some spec =>
      (Deduce.ty ps t spec b).bind fun (l, b) =>
        let pinsLater := spec.paramRefs.any fun r => i.index < r.index
        let own :=
          match b.get? i with
          | some (.type own) => own
          | _ => t
        (b.unify i (.type own)).map (if pinsLater then .exact else l, ·)
  | _ => none

/-- The value of the argument with the declared type. -/
def convert? (sem : Semantics σ) (s : σ) (p : ValueParam) (a : Arg) (b : Bindings) :
    Option (Level × Value) :=
  match a with
  | .value t c =>
    let declared := p.ty.subst b
    if declared.hasParams then none
    else
      let level := if t = declared then .exact else sem.conversion s t declared
      if level = .noMatch then none else some (level, ⟨declared, c⟩)
  | _ => none

/-- A value with a specialization must have its constant. -/
def matchValue (sem : Semantics σ) (i : ParamIdx) (d : Decl) (p : ValueParam) (a : Arg)
    (b : Bindings) : StateM σ Fit := do
  match sem.convert? (← get) p a b with
  | none => pure none
  | some (level, v) =>
    match p.spec with
    | none => pure ((b.unify i (.ofValue v)).map (level, ·))
    | some e =>
      let scope ← sem.paramScope d b
      match ← sem.evaluate e scope with
      | .ok expected =>
        if expected.const = v.const then pure ((b.unify i (.ofValue v)).map (level, ·))
        else pure none
      | .error _ => pure none

/-- A symbol must be the one that is asked for, and its type must fit. Stand-ins have no type. -/
def matchSymbol (sem : Semantics σ) (s : σ) (i : ParamIdx) (ps : List Param) (p : SymbolParam)
    (a : Arg) (b : Bindings) : Fit :=
  match a with
  | .symbol sym =>
    if p.specSymbol.any fun x => sem.canonicalSymbol s x ≠ sym then none
    else
      match p.specType with
      | none => (b.unify i (.symbol sym)).map (.exact, ·)
      | some pattern =>
        if sym.isPlaceholder then none
        else
          (sem.symbolType s sym).bind fun t =>
            (Deduce.ty ps t pattern b).bind fun (_, b) =>
              (b.unify i (.symbol sym)).map (.exact, ·)
  | _ => none

/-- No arguments fit a sequence that is bound already. -/
def matchTuple (i : ParamIdx) (rest : List Arg) (b : Bindings) : Fit :=
  if rest.isEmpty && (b.get? i).isSome then some (.exact, b)
  else (b.unify i (.ofList rest)).map (.exact, ·)

/-- Gives an argument to a parameter. -/
def matchArg (sem : Semantics σ) (d : Decl) (i : ParamIdx) (k : ParamKind) (a : Arg)
    (b : Bindings) : StateM σ Fit :=
  match k with
  | .type p | .this p => pure (matchType i d.params p a b)
  | .value p => sem.matchValue i d p a b
  | .symbol p => do pure (sem.matchSymbol (← get) i d.params p a b)
  | .tuple => pure (matchTuple i [a] b)

/-- The level and bindings after a parameter, or the reason to stop. -/
abbrev Visit := Except Rejection (Level × Bindings)

def visitArg (sem : Semantics σ) (d : Decl) (i : ParamIdx) (k : ParamKind) (a : Arg)
    (b : Bindings) : StateM σ Visit := do
  match ← sem.matchArg d i k a b with
  | some r => pure (.ok r)
  | none => pure (.error (.mismatch i))

/-- A parameter without an argument. -/
def visitMissing (sem : Semantics σ) (d : Decl) (i : ParamIdx) (k : ParamKind) (b : Bindings) :
    StateM σ Visit := do
  if (b.get? i).isSome then pure (.ok (.exact, b))
  else if !k.hasDefault then pure (.error (.unbound i))
  else
    let scope ← sem.paramScope d b
    match ← sem.defaultArg k scope b with
    | .error f => pure (.error (.default i f))
    | .ok none => pure (.error (.unbound i))
    | .ok (some a) => sem.visitArg d i k a b

/-- Visits a parameter with the arguments that are left, and says which are left after it. -/
def visitParam (sem : Semantics σ) (d : Decl) (receiver : Option Ty) (i : ParamIdx)
    (k : ParamKind) (args : List Arg) (b : Bindings) : StateM σ Visit × List Arg :=
  match k with
  | .tuple =>
    (pure (((matchTuple i args b).map .ok).getD (.error (.mismatch i))), [])
  | .this _ =>
    match receiver with
    | some t => (sem.visitArg d i k (.type t) b, args)
    | none => (sem.visitMissing d i k b, args)
  | .type _ | .value _ | .symbol _ =>
    match args with
    | a :: rest => (sem.visitArg d i k a b, rest)
    | [] => (sem.visitMissing d i k b, [])

/-- Visits the parameters from `i` on. Gives the worst level, the bindings and the arguments that no
parameter took. -/
def visitParams (sem : Semantics σ) (d : Decl) (receiver : Option Ty) :
    Nat → List Param → List Arg → Level → Bindings →
      StateM σ (Except Rejection (Level × Bindings × List Arg))
  | _, [], args, level, b => pure (.ok (level, b, args))
  | i, p :: ps, args, level, b => do
    let (visit, rest) := sem.visitParam d receiver ⟨i⟩ p.kind args b
    match ← visit with
    | .error why => pure (.error why)
    | .ok (l, b) => sem.visitParams d receiver (i + 1) ps rest (min level l) b

/-- The arguments of complete bindings, or the first parameter that is free. -/
def complete : Nat → Bindings → Except Rejection (List Arg)
  | _, [] => .ok []
  | i, some a :: b => (complete (i + 1) b).map (a :: ·)
  | i, none :: _ => .error (.unbound ⟨i⟩)

/-- Evaluates a constraint where every parameter has its argument. -/
def checkConstraint (sem : Semantics σ) (d : Decl) (e : ExprId) (args : List Arg) :
    StateM σ (Except Rejection Unit) := do
  let scope ← sem.paramScope d (.ofArgs args)
  match ← sem.evaluate e scope with
  | .error f => pure (.error (.constraint (some f)))
  | .ok v =>
    match v.toBool? with
    | some true => pure (.ok ())
    | some false => pure (.error (.constraint none))
    | none => pure (.error (.constraint (some ⟨"constraint is not a boolean", d.span⟩)))

/-- Matches resolved arguments, and a receiver for a `this` parameter, against a declaration. -/
def matchDecl (sem : Semantics σ) (d : Decl) (args : List Arg) (receiver : Option Ty)
    (mode : MatchMode) : StateM σ (Except Rejection Deduction) := do
  match ← sem.visitParams d receiver 0 d.params args .exact (.free d.params.length) with
  | .error why => pure (.error why)
  | .ok (level, b, rest) =>
    if !rest.isEmpty then
      pure (.error (.tooManyArguments (d.params.filter fun p => !p.isThis).length args.length))
    else
      match complete 0 b with
      | .error why => pure (.error why)
      | .ok deduced =>
        match mode, d.constraint with
        | .instantiate, some e => do
          match ← sem.checkConstraint d e deduced with
          | .error why => pure (.error why)
          | .ok () => pure (.ok ⟨level, deduced⟩)
        | _, _ => pure (.ok ⟨level, deduced⟩)

end Semantics
end Templates
