import Templates.Engine.Basic
import Templates.Rank
import Templates.Print

/-!
# Choosing an overload

Every declaration of the set that the requesting module sees is matched, and the best of those that
match is chosen.
-/

namespace Templates

/-- Why no declaration was chosen. -/
inductive SelectError
  | noMatch (rejected : List (DeclId × Rejection))
  | ambiguous (first second : DeclId)
  deriving DecidableEq, Inhabited

/-- What became of the declarations of a set: those that match, with their arguments, and the
rest. -/
structure Matches where
  matched : List (Candidate × List Arg) := []
  rejected : List (DeclId × Rejection) := []

namespace Engine

variable {σ : Type}

/-- Matches the arguments against each declaration that is visible. -/
def matchOverloads (e : Engine) (sem : Semantics σ) (args : List Arg) (receiver : Option Ty)
    (m : ModuleId) : List DeclId → StateM σ Matches
  | [] => pure {}
  | id :: ids => do
    let d := e.decl id
    if !d.isVisibleFrom m then e.matchOverloads sem args receiver m ids
    else
      let result ← sem.matchDecl d args receiver .instantiate
      let rest ← e.matchOverloads sem args receiver m ids
      match result with
      | .ok ded => pure { rest with matched := (⟨id, d, ded.level⟩, ded.args) :: rest.matched }
      | .error why => pure { rest with rejected := (id, why) :: rest.rejected }

/-- Chooses the declaration of the overload set of `d` that fits the arguments best. -/
def select (e : Engine) (sem : Semantics σ) (d : DeclId) (args : List Arg) (receiver : Option Ty)
    (m : ModuleId) : StateM σ (Except SelectError (DeclId × Deduction)) := do
  let ms ← e.matchOverloads sem args receiver m (e.overloads d)
  match ← sem.selectBest (ms.matched.map (·.1)) with
  | .unique i =>
    match ms.matched[i]? with
    | some (c, deduced) => pure (.ok (c.id, ⟨c.level, deduced⟩))
    | none => pure (.error (.noMatch ms.rejected))
  | .ambiguous i j =>
    match ms.matched[i]?, ms.matched[j]? with
    | some c, some d => pure (.error (.ambiguous c.1.id d.1.id))
    | _, _ => pure (.error (.noMatch ms.rejected))
  | .empty => pure (.error (.noMatch ms.rejected))

/-- The error of a request for the set of `d` with the given arguments, when no declaration was
chosen. Constraints are blamed only if nothing else is at fault. -/
def selectionError (e : Engine) (p : Printer) (d : DeclId) (args : List Arg) (span : Span)
    (why : SelectError) : TemplateError :=
  let inst := p.inst (e.decl d).name args
  match why with
  | .ambiguous a b =>
    .ambiguousOverload inst (p.signature (e.decl a)) (p.signature (e.decl b)) (e.decl a).span
      (e.decl b).span span
  | .noMatch rejected =>
    let general : TemplateError :=
      .noMatchingOverload inst
        (rejected.map fun (c, r) => p.signature (e.decl c) ++ " (" ++ r.describe (e.decl c) ++ ")")
        span
    match rejected with
    | [] => general
    | (c, r) :: rest =>
      if (r :: rest.map (·.2)).all Rejection.isConstraint then
        .constraintFailed inst (p.signature (e.decl c)) (r.failure?.map (·.message)) span
      else if rest.isEmpty then
        .argumentMismatch (p.signature (e.decl c)) inst (r.describe (e.decl c)) span
      else general

end Engine
end Templates
