import Templates.Service

/-!
# The least front end

A front end that answers only what it must: an expression is its own number, scopes are counted, no
symbol has a name and no instance has members.
-/

namespace Templates.Plain

/-- The state is the last scope that was opened. -/
def service : Service Nat where
  evaluate e _ := pure (.ok (.int e.index))
  openScope _ := fun n => (⟨n + 1⟩, n + 1)
  declareSymbol _ _ _ := pure ()
  symbolName _ _ := ""
  elaborate _ _ := pure (.ok [])

/-- A declaration with a symbol, a type and a value of type `t`. -/
def sample (t : Ty) : Decl where
  name := "D"
  params :=
    [{ name := "a", kind := .symbol {} }, { name := "T", kind := .type {} },
      { name := "n", kind := .value { ty := t, default := some ⟨7⟩ } }]

/-- What follows the symbol and the type in each use of the sample. -/
def samples (t : Ty) : List (List SiteArg) :=
  [[], [.value (.int 7)], [.value (.bool true)], [.value ⟨t, .int 7⟩]]

/-- Makes requests one after the other and gives the instances. -/
def askAll : List Request → Program Nat (List (Except TemplateError (InstanceId × Instance)))
  | [] => pure []
  | r :: rs => do
    let a ←
      match ← Program.ask [] r with
      | .ok i => do pure (.ok (i, ← Program.made i))
      | .error err => pure (.error err)
    let rest ← askAll rs
    pure (a :: rest)

/-- Uses the sample in each way, if its declaration is taken. -/
def trial (source target : Ty) (s : SymbolId) :
    Program Nat (Option (List (Except TemplateError (InstanceId × Instance)))) := do
  match ← Program.perform (.declare (sample target)) with
  | .error _ => pure none
  | .ok d =>
    let requests := (samples source).map fun rest =>
      { decl := d, args := [.symbol s, .type source] ++ rest : Request }
    pure (some (← askAll requests))

def runTrial (source target : Ty) (s : SymbolId) :
    Except Halt (Option (List (Except TemplateError (InstanceId × Instance))) × Run Nat) :=
  service.run 2 (trial source target s) ⟨{}, 0⟩

end Templates.Plain
