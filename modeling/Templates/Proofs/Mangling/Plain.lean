import Templates.Mangle

/-!
# What a mangled name shows

A mangled name does not show everything. Sequences are spliced, truth values and characters look like
numbers, and parameters, stand-ins and errors look alike. `Arg.plainList` forgets the same things, and
it is the plain arguments that a name is made of (`Mangle.args_plain`).
-/

namespace Templates

/-! ## Plain arguments -/

def Dim.plain : Dim → Dim
  | .known n => .known n
  | .param _ | .standIn _ => .param ⟨0⟩

/-- A template without a name is not told from a parameter. -/
def TemplateRef.plain (names : SymbolId → String) : TemplateRef → TemplateRef
  | .symbol s => if names s = "" then .param ⟨0⟩ else .symbol s
  | .param _ => .param ⟨0⟩

def Const.plain : Const → Const
  | .bool b => .int (Mangle.bool b)
  | .char c => .int c.toNat
  | .standIn _ => .standIn default
  | c => c

mutual

/-- The type with what its mangled name shows. -/
def Ty.plain (names : SymbolId → String) : Ty → Ty
  | .basic b => .basic b
  | .named s => .named s
  | .const t => .const (t.plain names)
  | .ptr t => .ptr (t.plain names)
  | .array t => .array (t.plain names)
  | .staticArray t d => .staticArray (t.plain names) d.plain
  | .inst r as => .inst (r.plain names) (Arg.plainList names as)
  | .param _ | .standIn _ | .error => .error

def Arg.plain (names : SymbolId → String) : Arg → List Arg
  | .type t => [.type (t.plain names)]
  | .value t c => [.value (t.plain names) c.plain]
  | .symbol s => [.symbol s]
  | .tuple elems => Arg.plainList names elems

def Arg.plainList (names : SymbolId → String) : List Arg → List Arg
  | [] => []
  | a :: as => a.plain names ++ Arg.plainList names as

end

def Dim.isPlain (d : Dim) : Bool := d.plain = d

def TemplateRef.isPlain (names : SymbolId → String) (r : TemplateRef) : Bool := r.plain names = r

def Const.isPlain (c : Const) : Bool := c.plain = c

mutual

/-- Nothing in the type is hidden. -/
def Ty.isPlain (names : SymbolId → String) : Ty → Bool
  | .basic _ | .named _ | .error => true
  | .const t | .ptr t | .array t => t.isPlain names
  | .staticArray t d => t.isPlain names && d.isPlain
  | .inst r as => r.isPlain names && Arg.arePlain names as
  | .param _ | .standIn _ => false

def Arg.isPlain (names : SymbolId → String) : Arg → Bool
  | .type t => t.isPlain names
  | .value t c => t.isPlain names && c.isPlain
  | .symbol _ => true
  | .tuple _ => false

def Arg.arePlain (names : SymbolId → String) : List Arg → Bool
  | [] => true
  | a :: as => a.isPlain names && Arg.arePlain names as

end

variable {names : SymbolId → String}

@[simp] theorem Dim.isPlain_plain (d : Dim) : d.plain.isPlain = true := by
  cases d <;> simp [isPlain, plain]

@[simp] theorem TemplateRef.isPlain_plain (r : TemplateRef) :
    (r.plain names).isPlain names = true := by
  cases r with
  | symbol s => by_cases h : names s = "" <;> simp [isPlain, plain, h]
  | param => simp [isPlain, plain]

@[simp] theorem Const.isPlain_plain (c : Const) : c.plain.isPlain = true := by
  cases c <;> simp [isPlain, plain]

theorem Arg.arePlain_append (as bs : List Arg) :
    Arg.arePlain names (as ++ bs) = (Arg.arePlain names as && Arg.arePlain names bs) := by
  induction as with
  | nil => rfl
  | cons a as ih => rw [List.cons_append, arePlain, arePlain, ih, Bool.and_assoc]

/-- Plain types and arguments are plain. -/
theorem isPlain_plain : (∀ t : Ty, (t.plain names).isPlain names = true) ∧
    (∀ a : Arg, Arg.arePlain names (a.plain names) = true) ∧
    ∀ as : List Arg, Arg.arePlain names (Arg.plainList names as) = true := by
  apply Ty.induct
  case cons =>
    intro a as ha has
    rw [Arg.plainList, Arg.arePlain_append, ha, has]
    rfl
  all_goals
    intros
    simp_all [Ty.plain, Ty.isPlain, Arg.plain, Arg.plainList, Arg.arePlain, Arg.isPlain]

/-! ## Names of plain arguments -/

namespace Mangle

theorem args_append (as bs : List Arg) :
    args names (as ++ bs) = args names as ++ args names bs := by
  induction as with
  | nil => rfl
  | cons a as ih => rw [List.cons_append, args, args, ih, List.append_assoc]

theorem const_plain (c : Const) : const c.plain = const c := by
  cases c <;> simp [Const.plain, const, -Int.ofNat_eq_natCast]

theorem dim_plain (d : Dim) : dim d.plain = dim d := by cases d <;> rfl

theorem templateName_plain (r : TemplateRef) :
    templateName names (r.plain names) = templateName names r := by
  cases r with
  | symbol s => by_cases h : names s = "" <;> simp [TemplateRef.plain, templateName, h]
  | param => rfl

/-- A name shows no more than what is plain. -/
theorem args_plain : (∀ t : Ty, ty names (t.plain names) = ty names t) ∧
    (∀ a : Arg, args names (a.plain names) = arg names a) ∧
    ∀ as : List Arg, args names (Arg.plainList names as) = args names as := by
  apply Ty.induct
  case cons =>
    intro a as ha has
    rw [Arg.plainList, args_append, ha, has]
    rfl
  all_goals
    intros
    simp_all [Ty.plain, Arg.plain, Arg.plainList, ty, arg, args, const_plain, dim_plain,
      templateName_plain]

end Mangle

end Templates
