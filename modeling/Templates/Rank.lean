import Templates.Match

/-!
# Ranking by specialization

One declaration is at least as specialized as another if the other accepts stand-ins for the
parameters of the first. A stand-in equals only itself, so the other accepts it only where its own
pattern asks for no more.
-/

namespace Templates

/-- The outcome of comparing two declarations. -/
inductive Order
  /-- Neither accepts the stand-ins of the other. -/
  | incompatible
  | moreGeneral
  | moreSpecific
  /-- Each accepts the stand-ins of the other. -/
  | ambiguous
  deriving DecidableEq, Inhabited, Repr

namespace Order

def reverse : Order → Order
  | moreGeneral => moreSpecific
  | moreSpecific => moreGeneral
  | incompatible => incompatible
  | ambiguous => ambiguous

/-- The order of the first to the second, given which of the two fits into the other. -/
def ofFits (firstFits secondFits : Bool) : Order :=
  match firstFits, secondFits with
  | true, true => ambiguous
  | true, false => moreSpecific
  | false, true => moreGeneral
  | false, false => incompatible

@[simp] theorem reverse_reverse (o : Order) : o.reverse.reverse = o := by cases o <;> rfl

theorem reverse_ofFits (a b : Bool) : (ofFits a b).reverse = ofFits b a := by
  cases a <;> cases b <;> rfl

end Order

/-- A declaration that matched a request. -/
structure Candidate where
  id : DeclId
  decl : Decl
  level : Level
  deriving Inhabited

/-- The outcome of choosing among candidates, by their places in the list. -/
inductive Selection
  | unique (i : Nat)
  /-- Neither of the two beats the other. -/
  | ambiguous (i j : Nat)
  | empty
  deriving DecidableEq, Inhabited, Repr

namespace Semantics

variable {σ : Type}

/-- The value of a value specialization, where there is one and it can be evaluated. -/
def specValue (sem : Semantics σ) (scope : ScopeId) (k : ParamKind) : StateM σ (Option Value) :=
  match k with
  | .value ⟨_, some e, _⟩ => do
    match ← sem.evaluate e scope with
    | .ok v => pure (some v)
    | .error _ => pure none
  | _ => pure none

/-- The stand-ins for the parameters from `i` on, and the one for a `this` parameter. They end
before the first parameter that an earlier pattern gives, or the sequence. -/
def standIns (sem : Semantics σ) (id : DeclId) (scope : ScopeId) :
    Nat → List Param → StateM σ (List Arg × Option Ty)
  | _, [] => pure ([], none)
  | i, p :: ps => do
    if p.dependent || p.isTuple then pure ([], none)
    else
      let spec ← sem.specValue scope p.kind
      let a := p.kind.standIn ⟨id, ⟨i⟩⟩ spec
      let (args, receiver) ← sem.standIns id scope (i + 1) ps
      if p.isThis then pure (args, receiver.or a.toType?) else pure (a :: args, receiver)

/-- The level at which `b` accepts the stand-ins of `a`. A declaration of fixed arity does not
accept those of an open sequence. -/
def leastAsSpecialized (sem : Semantics σ) (a b : DeclId × Decl) : StateM σ Level := do
  let (args, receiver) ← sem.standIns a.1 a.2.scope 0 a.2.params
  let level :=
    match ← sem.matchDecl b.2 args receiver .rank with
    | .ok d => d.level
    | .error _ => .noMatch
  if .noMatch < level && a.2.isOpenVariadic && !b.2.isVariadic then pure .noMatch else pure level

/-- Compares two declarations by specialization. -/
def compare (sem : Semantics σ) (a b : DeclId × Decl) : StateM σ Order := do
  let l ← sem.leastAsSpecialized a b
  let m ← sem.leastAsSpecialized b a
  pure (.ofFits (.noMatch < l) (.noMatch < m))

/-- Some rival at another place is strictly more specialized. The search ends with the first. -/
def isBeaten (sem : Semantics σ) (i : Nat) (c : Candidate) :
    List (Candidate × Nat) → StateM σ Bool
  | [] => pure false
  | (r, j) :: rivals => do
    if j = i then sem.isBeaten i c rivals
    else if (← sem.compare (r.id, r.decl) (c.id, c.decl)) = .moreSpecific then pure true
    else sem.isBeaten i c rivals

/-- The places of the candidates that no rival beats. -/
def unbeaten (sem : Semantics σ) (rivals : List (Candidate × Nat)) :
    List (Candidate × Nat) → StateM σ (List Nat)
  | [] => pure []
  | (c, i) :: rest => do
    let beaten ← sem.isBeaten i c rivals
    let others ← sem.unbeaten rivals rest
    pure (if beaten then others else i :: others)

/-- The candidates of the best level, with their places. -/
def topCandidates (cs : List Candidate) : List (Candidate × Nat) :=
  let best := cs.foldl (fun l c => max l c.level) .noMatch
  cs.zipIdx.filter fun c => c.1.level = best

/-- Chooses the candidate of the best level that no other of that level beats. -/
def selectBest (sem : Semantics σ) (cs : List Candidate) : StateM σ Selection :=
  match topCandidates cs with
  | [] => pure .empty
  | [(_, i)] => pure (.unique i)
  | (c, i) :: (d, j) :: rest => do
    let top := (c, i) :: (d, j) :: rest
    match ← sem.unbeaten top top with
    | [w] => pure (.unique w)
    | v :: w :: _ => pure (.ambiguous v w)
    | [] => pure (.ambiguous i j)

end Semantics
end Templates
