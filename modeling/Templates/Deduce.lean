import Templates.Level
import Templates.Param

/-!
# Deduction

A resolved type is taken apart along a pattern, and what stands in the place of a parameter becomes
its binding. A parameter that is bound already takes an equal argument only. The bindings of a
failed deduction are of no use, so they are dropped.
-/

namespace Templates

/-- Binds parameter `i`, or compares with what it is bound to. -/
def Bindings.unify (b : Bindings) (i : ParamIdx) (a : Arg) : Option Bindings :=
  match b[i.index]? with
  | none => none
  | some none => some (b.set i.index (some a))
  | some (some old) => if old = a then some b else none

namespace Deduce

/-- The kind of parameter `i`. -/
def kind? (ps : List Param) (i : ParamIdx) : Option ParamKind := (ps[i.index]?).map (·.kind)

/-- The type of the value that a length gives to a parameter: the declared one if it is closed. -/
def lengthTy (p : ValueParam) : Ty := if p.ty.hasParams then .ulong else p.ty

/-- The constant that a length stands for. -/
def lengthConst? : Dim → Option Const
  | .known n => some (.int n.toNat)
  | .standIn p => some (.standIn p)
  | .param _ => none

def dim (ps : List Param) (arg pat : Dim) (b : Bindings) : Option Bindings :=
  match pat with
  | .param i =>
    match kind? ps i, lengthConst? arg with
    | some (.value p), some c => b.unify i (.value (lengthTy p) c)
    | _, _ => none
  | .known n => if arg = .known n then some b else none
  | .standIn p => if arg = .standIn p then some b else none

def templateRef (ps : List Param) (arg pat : TemplateRef) (b : Bindings) : Option Bindings :=
  match arg, pat with
  | .symbol s, .symbol t => if s = t then some b else none
  | .symbol s, .param i =>
    match kind? ps i with
    | some (.symbol _) => b.unify i (.symbol s)
    | _ => none
  | .param _, _ => none

/-- Binds a type or `this` parameter to a type. -/
def tyParam (ps : List Param) (i : ParamIdx) (t : Ty) (b : Bindings) : Option Bindings :=
  match kind? ps i with
  | some (.type _) | some (.this _) => b.unify i (.type t)
  | _ => none

/-- A parameter in the place of an argument takes an argument of its own kind. -/
def argParam (ps : List Param) (i : ParamIdx) (a : Arg) (b : Bindings) : Option Bindings :=
  match kind? ps i, a with
  | some (.type _), .type _ | some (.this _), .type _ | some (.value _), .value _ _
  | some (.symbol _), .symbol _ => b.unify i a
  | _, _ => none

/-- The sequence parameter that the pattern of an argument names. -/
def soaking? (ps : List Param) : Arg → Option ParamIdx
  | .type (.param i) =>
    match kind? ps i with
    | some .tuple => some i
    | _ => none
  | _ => none

/-- A sequence parameter takes the rest of the arguments. No pattern may follow it. -/
def soak (i : ParamIdx) (args patsAfter : List Arg) (b : Bindings) : Option (Level × Bindings) :=
  if patsAfter.isEmpty then (b.unify i (.ofList args)).map (.exact, ·) else none

mutual

/-- Deduces along the pattern of a type. A `const` argument fits a pattern without `const` one level
lower. -/
def ty (ps : List Param) : (arg pat : Ty) → Bindings → Option (Level × Bindings)
  | t, .param i, b => (tyParam ps i t b).map (.exact, ·)
  | .const t, .const p, b => ty ps t p b
  | _, .const _, _ => none
  | .const t, p, b => (ty ps t p b).map fun (l, b) => (min l .constant, b)
  | .basic x, .basic y, b => if x = y then some (.exact, b) else none
  | .named x, .named y, b => if x = y then some (.exact, b) else none
  | .standIn x, .standIn y, b => if x = y then some (.exact, b) else none
  | .ptr t, .ptr p, b => ty ps t p b
  | .array t, .array p, b => ty ps t p b
  | .staticArray t d, .staticArray p e, b =>
    (ty ps t p b).bind fun (l, b) => (dim ps d e b).map (l, ·)
  | .inst r as, .inst q pats, b => (templateRef ps r q b).bind fun b => args ps as pats b
  | _, _, _ => none

/-- Deduces along the pattern of an argument of an instance. -/
def arg (ps : List Param) : (a pat : Arg) → Bindings → Option (Level × Bindings)
  | a, .type (.param i), b => (argParam ps i a b).map (.exact, ·)
  | .type t, .type p, b => ty ps t p b
  | .value _ c, .value _ d, b => if c = d then some (.exact, b) else none
  | .symbol s, .symbol t, b => if s = t then some (.exact, b) else none
  | .tuple as, .tuple pats, b => if as = pats then some (.exact, b) else none
  | _, _, _ => none

/-- Deduces along the patterns of the arguments of an instance, left to right. -/
def args (ps : List Param) : (as pats : List Arg) → Bindings → Option (Level × Bindings)
  | [], [], b => some (.exact, b)
  | [], p :: pats, b => (soaking? ps p).bind fun i => soak i [] pats b
  | _ :: _, [], _ => none
  | a :: as, p :: pats, b =>
    match soaking? ps p with
    | some i => soak i (a :: as) pats b
    | none =>
      (arg ps a p b).bind fun (l, b) => (args ps as pats b).map fun (m, b) => (min l m, b)

end

end Deduce
end Templates
