import Templates.Decl
import Templates.Text.Escape

/-!
# Printing

Types, arguments, instances and declarations as they would be written in a source file. Symbols are
named by the front end. Nesting deeper than `Printer.maxNesting` prints as dots.
-/

namespace Templates

structure Printer where
  names : SymbolId → String
  /-- The parameters that patterns refer to. -/
  params : List Param := []

namespace Printer

def maxNesting : Nat := 16

def commaSep (xs : List String) : String := ", ".intercalate xs

def symbol (p : Printer) (s : SymbolId) : String := if s.isPlaceholder then "?" else p.names s

def paramName (p : Printer) (i : ParamIdx) : String :=
  match p.params[i.index]? with
  | some q => q.name
  | none => "?"

def const : Const → String
  | .int n => toString n
  | .bool b => if b then "true" else "false"
  | .char c => "'" ++ Text.escape (.singleton c) ++ "'"
  | .str s => "\"" ++ Text.escape s ++ "\""
  | .null => "null"
  | .standIn _ => "?"

def dim (p : Printer) : Dim → String
  | .known n => "[" ++ toString n.toNat ++ "]"
  | .param i => "[" ++ p.paramName i ++ "]"
  | .standIn _ => "[?]"

def templateRef (p : Printer) : TemplateRef → String
  | .symbol s => p.symbol s
  | .param i => p.paramName i

/-- The text of a type at a nesting depth. -/
def cut (depth : Nat) (text : String) : String := if maxNesting < depth then "..." else text

mutual

def tyAt (p : Printer) (depth : Nat) : Ty → String
  | .basic b => cut depth b.text
  | .named s => cut depth (p.symbol s)
  | .const t => cut depth ("const(" ++ p.tyAt (depth + 1) t ++ ")")
  | .ptr t => cut depth (p.tyAt (depth + 1) t ++ "*")
  | .array t => cut depth (p.tyAt (depth + 1) t ++ "[]")
  | .staticArray t d => cut depth (p.tyAt (depth + 1) t ++ p.dim d)
  | .inst r args =>
    cut depth (p.templateRef r ++ "!(" ++ commaSep (p.argsAt (depth + 1) args) ++ ")")
  | .param i => cut depth (p.paramName i)
  | .standIn _ => cut depth "?"
  | .error => cut depth "__error"

def argAt (p : Printer) (depth : Nat) : Arg → String
  | .type t => p.tyAt depth t
  | .value _ c => const c
  | .symbol s => p.symbol s
  | .tuple elems => "(" ++ commaSep (p.argsAt depth elems) ++ ")"

def argsAt (p : Printer) (depth : Nat) : List Arg → List String
  | [] => []
  | a :: as => p.argAt depth a :: p.argsAt depth as

end

def ty (p : Printer) (t : Ty) : String := p.tyAt 0 t

def arg (p : Printer) (a : Arg) : String := p.argAt 0 a

/-- An instance of the template `name`, such as `Foo!(int, 3)`. -/
def inst (p : Printer) (name : String) (args : List Arg) : String :=
  name ++ "!(" ++ commaSep (p.argsAt 0 args) ++ ")"

mutual

/-- A nested sequence prints its elements in place, an empty one as nothing. -/
def siteArg (p : Printer) : SiteArg → String
  | .type t => p.ty t
  | .value v => const v.const
  | .expr e => "expr#" ++ toString e.index
  | .symbol s => p.symbol s
  | .tuple elems => commaSep (p.siteArgs elems)

def siteArgs (p : Printer) : List SiteArg → List String
  | [] => []
  | a :: as => p.siteArg a :: p.siteArgs as

end

/-- Like `Printer.inst`, for arguments as they are written. -/
def request (p : Printer) (name : String) (args : List SiteArg) : String :=
  name ++ "!(" ++ commaSep (p.siteArgs args) ++ ")"

/-- `mark` and then what is there, or nothing. -/
def clause (mark : String) (x : Option String) : String := (x.map (mark ++ ·)).getD ""

def param (p : Printer) (q : Param) : String :=
  match q.kind with
  | .type k => q.name ++ clause " : " (k.spec.map p.ty) ++ clause " = " (k.default.map p.ty)
  | .this k =>
    "this " ++ q.name ++ clause " : " (k.spec.map p.ty) ++ clause " = " (k.default.map p.ty)
  | .value k =>
    p.ty k.ty ++ " " ++ q.name ++ clause " : " (k.spec.map fun _ => "...") ++
      clause " = " (k.default.map fun _ => "...")
  | .symbol k =>
    "alias " ++ q.name ++ clause " : " ((k.specSymbol.map p.symbol).or (k.specType.map p.ty)) ++
      clause " = " (k.default.map p.symbol)
  | .tuple => q.name ++ "..."

/-- A declaration with its parameters, such as `Foo(T : T[], int n = ...)`. -/
def signature (p : Printer) (d : Decl) : String :=
  let q : Printer := { p with params := d.params }
  d.name ++ "(" ++ commaSep (d.params.map q.param) ++ ")" ++
    (if d.constraint.isSome then " if (...)" else "")

end Printer
end Templates
