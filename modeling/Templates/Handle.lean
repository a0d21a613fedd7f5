/-!
# Handles

Declarations and instances are numbered by the engine. Symbols, scopes, modules and expressions are
numbered by the front end; the engine only stores and compares them. Symbols with the top bit set
stand for symbol parameters while declarations are ranked.
-/

namespace Templates

/-- A template declaration of the engine. -/
structure DeclId where
  index : Nat
  deriving DecidableEq, Inhabited, Repr

/-- A template instance of the engine. -/
structure InstanceId where
  index : Nat
  deriving DecidableEq, Inhabited, Repr

/-- A symbol of the front end. -/
structure SymbolId where
  index : Nat
  deriving DecidableEq, Inhabited, Repr

/-- A lexical scope of the front end. -/
structure ScopeId where
  index : Nat
  deriving DecidableEq, Inhabited, Repr

/-- A module, the unit of compilation. -/
structure ModuleId where
  index : Nat
  deriving DecidableEq, Inhabited, Repr

/-- An unevaluated expression of the front end. -/
structure ExprId where
  index : Nat
  deriving DecidableEq, Inhabited, Repr

/-- The position of a parameter in its declaration. -/
structure ParamIdx where
  index : Nat
  deriving DecidableEq, Inhabited, Repr

/-- An opaque stand-in for a parameter of one declaration. It equals only itself. -/
structure Placeholder where
  decl : DeclId
  param : ParamIdx
  deriving DecidableEq, Inhabited, Repr

namespace SymbolId

/-- The bit that marks a symbol as a stand-in. -/
def placeholderBit : Nat := 0x80000000

/-- The symbol that stands for a symbol parameter: 23 bits of the declaration and 8 of the
parameter below the marking bit. -/
def placeholder (p : Placeholder) : SymbolId :=
  ⟨placeholderBit + p.decl.index % 0x800000 * 0x100 + p.param.index % 0x100⟩

def isPlaceholder (s : SymbolId) : Bool := s.index / placeholderBit % 2 = 1

@[simp] theorem isPlaceholder_placeholder (p : Placeholder) :
    (placeholder p).isPlaceholder = true := by
  have h : (placeholder p).index / placeholderBit % 2 = 1 := by
    simp only [placeholder, placeholderBit]
    omega
  simp [isPlaceholder, h]

theorem index_placeholder_mod (p : Placeholder) :
    (placeholder p).index % 0x100 = p.param.index % 0x100 := by
  simp only [placeholder, placeholderBit]
  omega

/-- The symbol keeps 23 bits of the declaration and 8 of the parameter, and no more. -/
theorem placeholder_eq_placeholder_iff {p q : Placeholder} : placeholder p = placeholder q ↔
    p.decl.index % 0x800000 = q.decl.index % 0x800000 ∧
      p.param.index % 0x100 = q.param.index % 0x100 := by
  simp only [placeholder, mk.injEq]
  omega

/-- The handle as a reader of a log sees it. -/
def text (s : SymbolId) : String := "SymbolId(" ++ toString s.index ++ ")"

end SymbolId

/-- The stand-in as a reader of a log sees it. -/
def Placeholder.text (p : Placeholder) : String :=
  "Placeholder \x7b decl: DeclId(" ++ toString p.decl.index ++ "), param: ParamIdx(" ++
    toString p.param.index ++ ") \x7d"

end Templates
