import Templates.Level
import Templates.Span
import Templates.Arg

/-!
# The front end as matching sees it

Matching asks the front end to fold expressions, to open scopes and declare names in them, and to
follow symbols. The front end has a state of its own. Questions that only read it are functions of
the state.
-/

namespace Templates

/-- A failure of the front end. -/
structure Failure where
  message : String
  span : Span := {}
  deriving DecidableEq, Inhabited, Repr

structure Semantics (σ : Type) where
  /-- Folds an expression to a constant in a scope. -/
  evaluate : ExprId → ScopeId → StateM σ (Except Failure Value)
  /-- Resolves a type that is written where a template is used. -/
  resolveType : Ty → ScopeId → StateM σ (Except Failure Ty) := fun t _ => pure (.ok t)
  /-- Opens a scope inside another. -/
  openScope : ScopeId → StateM σ ScopeId
  /-- Binds a name in a scope. -/
  declareSymbol : ScopeId → String → Arg → StateM σ Unit
  /-- Follows aliases to the symbol that they name. -/
  canonicalSymbol : σ → SymbolId → SymbolId := fun _ s => s
  /-- The type of a variable or function. -/
  symbolType : σ → SymbolId → Option Ty := fun _ _ => none
  /-- The scope of the function that a local symbol belongs to. -/
  localContext : σ → SymbolId → Option ScopeId := fun _ _ => none
  /-- How well a value of the first type converts to the second. -/
  conversion : σ → Ty → Ty → Level := fun _ a b => if a = b then .exact else .noMatch
  symbolName : σ → SymbolId → String

end Templates
