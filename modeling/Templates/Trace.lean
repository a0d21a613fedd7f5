import Templates.Span
import Templates.Handle

/-!
# Traces

A trace says where each instance was asked for, innermost first. A long trace is shortened: entries
of one declaration at one place fold into one line, and if that is not enough only the two ends
stay.
-/

namespace Templates

structure TraceEntry where
  decl : DeclId
  name : String
  span : Span
  deriving DecidableEq, Inhabited, Repr

namespace TraceEntry

def text (e : TraceEntry) : String :=
  e.span.text ++ ": instantiated from here: `" ++ e.name ++ "`"

/-- The line of `n` entries in a row that begin with `e`. -/
def runText (e : TraceEntry) (n : Nat) : String :=
  if n = 1 then e.text
  else
    e.span.text ++ ": " ++ toString n ++ " recursive instantiations from here: `" ++ e.name ++ "`"

/-- The same declaration at the same place. -/
def sameSite (e f : TraceEntry) : Bool := e.decl = f.decl && e.span = f.span

end TraceEntry

namespace Trace

/-- Folds entries in a row at the site of the first, with their number. -/
def runsFrom (e : TraceEntry) (n : Nat) : List TraceEntry → List (TraceEntry × Nat)
  | [] => [(e, n)]
  | f :: fs => if e.sameSite f then runsFrom e (n + 1) fs else (e, n) :: runsFrom f 1 fs

def runs : List TraceEntry → List (TraceEntry × Nat)
  | [] => []
  | e :: es => runsFrom e 1 es

def skippedText (n : Nat) : String := "... (" ++ toString n ++ " instantiations, -v to show) ..."

/-- The two ends of a trace. The inner end has the odd line. -/
def ends (es : List TraceEntry) (max : Nat) : List String :=
  let inner := (max + 1) / 2
  let outer := max / 2
  (es.take inner).map TraceEntry.text ++ [skippedText (es.length - inner - outer)] ++
    (es.drop (es.length - outer)).map TraceEntry.text

/-- The lines of a trace. At most `max` of them stand for entries. -/
def lines (es : List TraceEntry) (max : Nat) : List String :=
  if es.length ≤ max then es.map TraceEntry.text
  else if (runs es).length ≤ max then (runs es).map fun r => r.1.runText r.2
  else ends es max

end Trace
end Templates
