import Templates.Span
import Templates.Diagnostic.Code

/-!
# Diagnostics

A diagnostic has a code, a severity, a message, labelled spans and trailing notes.
-/

namespace Templates

inductive Severity
  | error
  | warning
  | note
  deriving DecidableEq, Inhabited, Repr

def Severity.text : Severity → String
  | .error => "error"
  | .warning => "warning"
  | .note => "note"

/-- A span with a text of its own. -/
structure Label where
  span : Span
  message : String
  isPrimary : Bool
  deriving DecidableEq, Inhabited, Repr

def Label.text (l : Label) : String :=
  "\n  " ++ (if l.isPrimary then "-->" else ":::") ++ " " ++ l.span.text ++ ": " ++ l.message

structure Diagnostic where
  code : ErrorCode
  severity : Severity := .error
  message : String := ""
  labels : List Label := []
  notes : List String := []
  deriving DecidableEq, Inhabited, Repr

namespace Diagnostic

/-- The span of the first primary label. -/
def primarySpan? (d : Diagnostic) : Option Span := (d.labels.find? (·.isPrimary)).map (·.span)

def isError (d : Diagnostic) : Bool := d.severity = .error

def text (d : Diagnostic) : String :=
  d.severity.text ++ "[" ++ d.code.text ++ "]: " ++ d.message ++
    String.join (d.labels.map Label.text) ++ String.join (d.notes.map ("\n  = note: " ++ ·))

end Diagnostic
end Templates
