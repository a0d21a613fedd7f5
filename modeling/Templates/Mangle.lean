import Templates.Ty.Basic

/-!
# Mangled names

The name of an instance for the linker: `__T`, the template's name behind its length, an entry for
each argument and `Z`. An entry starts with `T` for a type, `V` for a value and `S` for a symbol; a
sequence gives the entries of its elements. Lengths count bytes.
-/

namespace Templates
namespace Mangle

/-- The number of bytes that the characters take. -/
def byteLength (cs : List Char) : Nat := cs.foldl (fun n c => n + c.utf8Size) 0

theorem byteLength_cons (c : Char) (cs : List Char) :
    byteLength (c :: cs) = c.utf8Size + byteLength cs := by
  have shift : ∀ (l : List Char) (a : Nat),
      l.foldl (fun n c => n + c.utf8Size) a = a + byteLength l := by
    intro l
    induction l with
    | nil => simp [byteLength]
    | cons d l ih =>
      intro a
      rw [byteLength, List.foldl_cons, List.foldl_cons, ih, ih (0 + _)]
      omega
  rw [byteLength, List.foldl_cons, shift, Nat.zero_add]

theorem byteLength_append (cs ds : List Char) :
    byteLength (cs ++ ds) = byteLength cs + byteLength ds := by
  induction cs with
  | nil => simp [byteLength]
  | cons c cs ih => rw [List.cons_append, byteLength_cons, byteLength_cons, ih, Nat.add_assoc]

def digits (n : Nat) : List Char := Nat.toDigits 10 n

/-- A name behind its length. -/
def counted (cs : List Char) : List Char := digits (byteLength cs) ++ cs

/-- A byte as two hexadecimal digits. -/
def hexByte (b : UInt8) : List Char := [(b.toNat / 16).digitChar, (b.toNat % 16).digitChar]

def bool (b : Bool) : Nat := if b then 1 else 0

def const : Const → List Char
  | .int n => if n < 0 then 'N' :: digits n.natAbs else 'i' :: digits n.natAbs
  | .bool b => 'i' :: digits (bool b)
  | .char c => 'i' :: digits c.toNat
  | .str s => 'a' :: digits s.utf8ByteSize ++ '_' :: s.toUTF8.data.toList.flatMap hexByte
  | .null => ['n']
  | .standIn _ => ['?']

def dim : Dim → List Char
  | .known n => digits n.toNat
  | .param _ | .standIn _ => ['?']

/-- A template that is not known yet has no name. -/
def templateName (names : SymbolId → String) : TemplateRef → List Char
  | .symbol s => (names s).toList
  | .param _ => []

/-- The name around the entries of the arguments. -/
def wrap (name entries : List Char) : List Char :=
  '_' :: '_' :: 'T' :: (counted name ++ (entries ++ ['Z']))

mutual

def ty (names : SymbolId → String) : Ty → List Char
  | .basic b => [b.code]
  | .named s => 'S' :: counted (names s).toList
  | .const t => 'x' :: ty names t
  | .ptr t => 'P' :: ty names t
  | .array t => 'A' :: ty names t
  | .staticArray t d => 'G' :: dim d ++ ty names t
  | .inst r as => 'S' :: counted (wrap (templateName names r) (args names as))
  | .param _ | .standIn _ | .error => ['?']

def arg (names : SymbolId → String) : Arg → List Char
  | .type t => 'T' :: ty names t
  | .value t c => 'V' :: ty names t ++ const c
  | .symbol s => 'S' :: counted (names s).toList
  | .tuple elems => args names elems

def args (names : SymbolId → String) : List Arg → List Char
  | [] => []
  | a :: as => arg names a ++ args names as

end

end Mangle

/-- The mangled name of the instance of `name` with the given arguments. -/
def mangle (names : SymbolId → String) (name : String) (args : List Arg) : String :=
  String.ofList (Mangle.wrap name.toList (Mangle.args names args))

end Templates
