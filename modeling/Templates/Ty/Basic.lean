import Templates.Handle

/-!
# Types, constants and arguments

Types and template arguments contain each other: a type may be an instance `Name!(args)`, and an
argument may be a type. As an argument a type is resolved. As a pattern it may mention the
parameters of the declaration that owns it.
-/

namespace Templates

/-- The built-in scalar types. -/
inductive BasicTy
  | void
  | bool
  | byte
  | ubyte
  | short
  | ushort
  | int
  | uint
  | long
  | ulong
  | char
  | float
  | double
  deriving DecidableEq, Inhabited, Repr

namespace BasicTy

def all : List BasicTy :=
  [void, bool, byte, ubyte, short, ushort, int, uint, long, ulong, char, float, double]

def text : BasicTy → String
  | void => "void"
  | bool => "bool"
  | byte => "byte"
  | ubyte => "ubyte"
  | short => "short"
  | ushort => "ushort"
  | int => "int"
  | uint => "uint"
  | long => "long"
  | ulong => "ulong"
  | char => "char"
  | float => "float"
  | double => "double"

/-- The letter of the type in a mangled name. -/
def code : BasicTy → Char
  | void => 'v'
  | bool => 'b'
  | byte => 'g'
  | ubyte => 'h'
  | short => 's'
  | ushort => 't'
  | int => 'i'
  | uint => 'k'
  | long => 'l'
  | ulong => 'm'
  | char => 'a'
  | float => 'f'
  | double => 'd'

/-- The size in bytes. -/
def size : BasicTy → Nat
  | void => 0
  | bool | byte | ubyte | char => 1
  | short | ushort => 2
  | int | uint | float => 4
  | long | ulong | double => 8

/-- The types that hold a whole number of a fixed width. -/
def isInteger : BasicTy → Bool
  | byte | ubyte | short | ushort | int | uint | long | ulong => true
  | _ => false

def ofText? (s : String) : Option BasicTy := all.find? (·.text = s)

theorem mem_all (b : BasicTy) : b ∈ all := by cases b <;> decide

theorem ofText?_text (b : BasicTy) : ofText? b.text = some b := by cases b <;> decide

theorem code_injective {a b : BasicTy} (h : a.code = b.code) : a = b := by
  revert h
  cases a <;> cases b <;> decide

end BasicTy

/-- The length of a static array. Known lengths are 64-bit words. -/
inductive Dim
  | known (n : UInt64)
  | param (i : ParamIdx)
  | standIn (p : Placeholder)
  deriving DecidableEq, Inhabited, Repr

/-- The template named by an instance type. -/
inductive TemplateRef
  | symbol (s : SymbolId)
  | param (i : ParamIdx)
  deriving DecidableEq, Inhabited, Repr

/-- A constant without its type. -/
inductive Const
  | int (n : Int)
  | bool (b : Bool)
  | char (c : Char)
  | str (s : String)
  | null
  | standIn (p : Placeholder)
  deriving DecidableEq, Inhabited, Repr

mutual

inductive Ty
  | basic (b : BasicTy)
  /-- A nominal type. -/
  | named (s : SymbolId)
  | const (t : Ty)
  | ptr (t : Ty)
  /-- A dynamic array. -/
  | array (t : Ty)
  | staticArray (t : Ty) (d : Dim)
  /-- An instance of a template. -/
  | inst (r : TemplateRef) (args : List Arg)
  /-- A parameter of the declaration that owns the pattern. -/
  | param (i : ParamIdx)
  /-- Equal only to itself; stands for a type parameter while declarations are ranked. -/
  | standIn (p : Placeholder)
  /-- A type that failed to resolve. -/
  | error

/-- A resolved argument. -/
inductive Arg
  | type (t : Ty)
  | value (t : Ty) (c : Const)
  /-- A symbol, with its aliases already followed. -/
  | symbol (s : SymbolId)
  /-- A sequence. Sequences made by `Arg.ofList` hold no sequence. -/
  | tuple (elems : List Arg)

end

instance : Inhabited Ty := ⟨.error⟩
instance : Inhabited Arg := ⟨.type .error⟩

/-- A constant with its type. -/
structure Value where
  ty : Ty
  const : Const
  deriving Inhabited

namespace Ty

abbrev int : Ty := .basic .int
abbrev bool : Ty := .basic .bool
abbrev char : Ty := .basic .char
abbrev ulong : Ty := .basic .ulong

/-- `const(t)`; a type that is `const` already stays as it is. -/
def constant : Ty → Ty
  | .const t => .const t
  | t => .const t

/-- The type below an outer `const`. -/
def unqualified : Ty → Ty
  | .const t => t
  | t => t

def isError : Ty → Bool
  | .error => true
  | _ => false

@[simp] theorem constant_constant (t : Ty) : t.constant.constant = t.constant := by
  cases t <;> rfl

end Ty

/-! ## Equality -/

mutual

def Ty.beq : Ty → Ty → Bool
  | .basic a, .basic b => a = b
  | .named a, .named b => a = b
  | .const a, .const b => a.beq b
  | .ptr a, .ptr b => a.beq b
  | .array a, .array b => a.beq b
  | .staticArray a d, .staticArray b e => d = e && a.beq b
  | .inst r as, .inst q bs => r = q && Arg.beqList as bs
  | .param i, .param j => i = j
  | .standIn p, .standIn q => p = q
  | .error, .error => true
  | _, _ => false

def Arg.beq : Arg → Arg → Bool
  | .type a, .type b => a.beq b
  | .value a c, .value b d => c = d && a.beq b
  | .symbol a, .symbol b => a = b
  | .tuple as, .tuple bs => Arg.beqList as bs
  | _, _ => false

def Arg.beqList : List Arg → List Arg → Bool
  | [], [] => true
  | a :: as, b :: bs => a.beq b && Arg.beqList as bs
  | _, _ => false

end

mutual

theorem Ty.beq_iff_eq : (a b : Ty) → (a.beq b = true ↔ a = b)
  | .basic a, b => by cases b <;> simp [Ty.beq]
  | .named a, b => by cases b <;> simp [Ty.beq]
  | .const a, b => by cases b <;> simp [Ty.beq, Ty.beq_iff_eq a]
  | .ptr a, b => by cases b <;> simp [Ty.beq, Ty.beq_iff_eq a]
  | .array a, b => by cases b <;> simp [Ty.beq, Ty.beq_iff_eq a]
  | .staticArray a d, b => by cases b <;> simp [Ty.beq, Ty.beq_iff_eq a, and_comm]
  | .inst r as, b => by cases b <;> simp [Ty.beq, Arg.beqList_iff_eq as]
  | .param i, b => by cases b <;> simp [Ty.beq]
  | .standIn p, b => by cases b <;> simp [Ty.beq]
  | .error, b => by cases b <;> simp [Ty.beq]

theorem Arg.beq_iff_eq : (a b : Arg) → (a.beq b = true ↔ a = b)
  | .type a, b => by cases b <;> simp [Arg.beq, Ty.beq_iff_eq a]
  | .value a c, b => by cases b <;> simp [Arg.beq, Ty.beq_iff_eq a, and_comm]
  | .symbol a, b => by cases b <;> simp [Arg.beq]
  | .tuple as, b => by cases b <;> simp [Arg.beq, Arg.beqList_iff_eq as]

theorem Arg.beqList_iff_eq : (as bs : List Arg) → (Arg.beqList as bs = true ↔ as = bs)
  | [], bs => by cases bs <;> simp [Arg.beqList]
  | a :: as, bs => by
    cases bs <;> simp [Arg.beqList, Arg.beq_iff_eq a, Arg.beqList_iff_eq as]

end

instance : DecidableEq Ty := fun a b => decidable_of_iff _ (Ty.beq_iff_eq a b)
instance : DecidableEq Arg := fun a b => decidable_of_iff _ (Arg.beq_iff_eq a b)

deriving instance DecidableEq for Value

/-! ## Induction

One principle for types, arguments and lists of arguments together.
-/

theorem Ty.induct {P : Ty → Prop} {Q : Arg → Prop} {R : List Arg → Prop}
    (basic : ∀ b, P (.basic b)) (named : ∀ s, P (.named s))
    (const : ∀ t, P t → P (.const t)) (ptr : ∀ t, P t → P (.ptr t))
    (array : ∀ t, P t → P (.array t)) (staticArray : ∀ t d, P t → P (.staticArray t d))
    (inst : ∀ r args, R args → P (.inst r args)) (param : ∀ i, P (.param i))
    (standIn : ∀ p, P (.standIn p)) (error : P .error)
    (type : ∀ t, P t → Q (.type t)) (value : ∀ t c, P t → Q (.value t c))
    (symbol : ∀ s, Q (.symbol s)) (tuple : ∀ elems, R elems → Q (.tuple elems))
    (nil : R []) (cons : ∀ a as, Q a → R as → R (a :: as)) :
    (∀ t, P t) ∧ (∀ a, Q a) ∧ (∀ as, R as) :=
  ⟨fun t => Ty.rec (motive_1 := P) (motive_2 := Q) (motive_3 := R) basic named const ptr array
      staticArray inst param standIn error type value symbol tuple nil cons t,
    fun a => Arg.rec (motive_1 := P) (motive_2 := Q) (motive_3 := R) basic named const ptr array
      staticArray inst param standIn error type value symbol tuple nil cons a,
    fun as => by
      induction as with
      | nil => exact nil
      | cons a as ih =>
        exact cons a as (Arg.rec (motive_1 := P) (motive_2 := Q) (motive_3 := R) basic named const
          ptr array staticArray inst param standIn error type value symbol tuple nil cons a) ih⟩

end Templates
