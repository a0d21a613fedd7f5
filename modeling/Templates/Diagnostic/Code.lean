/-!
# Error codes

Each kind of failure has a stable code. Codes `E4…` belong to instantiation, `E9…` to limits.
-/

namespace Templates

inductive ErrorCode
  | argumentMismatch
  | noOverload
  | ambiguous
  | constraintFailed
  | recursiveExpansion
  | nestingLimit
  | elaborationFailed
  | mixinOnly
  | unevaluated
  | parameterList
  | tooManyErrors
  deriving DecidableEq, Inhabited, Repr

namespace ErrorCode

/-- Every code, in the order of their numbers. -/
def all : List ErrorCode :=
  [argumentMismatch, noOverload, ambiguous, constraintFailed, recursiveExpansion, nestingLimit,
    elaborationFailed, mixinOnly, unevaluated, parameterList, tooManyErrors]

def text : ErrorCode → String
  | argumentMismatch => "E4001"
  | noOverload => "E4002"
  | ambiguous => "E4003"
  | constraintFailed => "E4004"
  | recursiveExpansion => "E4005"
  | nestingLimit => "E4006"
  | elaborationFailed => "E4007"
  | mixinOnly => "E4008"
  | unevaluated => "E4009"
  | parameterList => "E4010"
  | tooManyErrors => "E9002"

def description : ErrorCode → String
  | argumentMismatch => "template argument mismatch"
  | noOverload => "no matching template overload"
  | ambiguous => "ambiguous template instance"
  | constraintFailed => "template constraint failed"
  | recursiveExpansion => "recursive template expansion"
  | nestingLimit => "template nesting limit exceeded"
  | elaborationFailed => "template instance has errors"
  | mixinOnly => "mixin template used as instance"
  | unevaluated => "cannot evaluate template argument"
  | parameterList => "invalid template parameter list"
  | tooManyErrors => "too many errors"

/-- The code reports an expansion that does not end. -/
def isRecursion : ErrorCode → Bool
  | recursiveExpansion | nestingLimit => true
  | _ => false

/-- The code comes from choosing among overloads. -/
def isSelection : ErrorCode → Bool
  | argumentMismatch | noOverload | ambiguous | constraintFailed => true
  | _ => false

/-- Reads a code; the case of ASCII letters does not matter. -/
def ofText? (s : String) : Option ErrorCode :=
  all.find? fun c => c.text.map Char.toLower = s.map Char.toLower

/-- The place of a code in `all`. -/
def number (c : ErrorCode) : Nat := all.idxOf c

theorem mem_all (c : ErrorCode) : c ∈ all := by cases c <;> decide

end ErrorCode
end Templates
