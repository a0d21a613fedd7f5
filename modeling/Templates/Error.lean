import Templates.Semantics
import Templates.Decl
import Templates.Diagnostic.Basic

/-!
# Errors of instantiation

An error says why a request or a declaration failed. Names in it are printed when it is made,
because printing needs the front end.
-/

namespace Templates

inductive TemplateError
  | argumentMismatch (template inst reason : String) (span : Span)
  | noMatchingOverload (inst : String) (candidates : List String) (span : Span)
  /-- With the places where the two declarations stand. -/
  | ambiguousOverload (inst first second : String) (firstSpan secondSpan span : Span)
  | constraintFailed (inst template : String) (reason : Option String) (span : Span)
  | recursiveExpansion (inst : String) (span : Span)
  | nestingDepthExceeded (inst : String) (limit : Nat) (span : Span)
  /-- Without a reason the failure was reported earlier. -/
  | memberElaborationFailed (id : InstanceId) (name : String) (reason : Option String) (span : Span)
  | mixinOnly (template : String) (span : Span)
  | semantic (failure : Failure)
  | invalidParameterList (template : String) (reason : ParamListError) (span : Span)
  deriving DecidableEq, Inhabited

namespace TemplateError

def message : TemplateError → String
  | argumentMismatch template inst reason _ =>
    "template `" ++ template ++ "` cannot be instantiated as `" ++ inst ++ "`: " ++ reason
  | noMatchingOverload inst _ _ => "`" ++ inst ++ "` does not match any template declaration"
  | ambiguousOverload inst first second _ _ _ =>
    "`" ++ inst ++ "` matches more than one template declaration: `" ++ first ++ "` and `" ++
      second ++ "`"
  | constraintFailed inst template _ _ =>
    "template instance `" ++ inst ++ "` does not satisfy the constraint of `" ++ template ++ "`"
  | recursiveExpansion inst _ => "recursive template expansion for `" ++ inst ++ "`"
  | nestingDepthExceeded inst limit _ =>
    "template instance `" ++ inst ++ "` recursive expansion exceeded allowed nesting limit of " ++
      toString limit
  | memberElaborationFailed _ name _ _ => "template instance `" ++ name ++ "` error instantiating"
  | mixinOnly template _ =>
    "mixin template `" ++ template ++ "` cannot be instantiated as a plain instance"
  | semantic f => "cannot resolve template argument: " ++ f.message
  | invalidParameterList template reason _ =>
    "invalid parameter list for template `" ++ template ++ "`: " ++ reason.message

def code : TemplateError → ErrorCode
  | argumentMismatch .. => .argumentMismatch
  | noMatchingOverload .. => .noOverload
  | ambiguousOverload .. => .ambiguous
  | constraintFailed .. => .constraintFailed
  | recursiveExpansion .. => .recursiveExpansion
  | nestingDepthExceeded .. => .nestingLimit
  | memberElaborationFailed .. => .elaborationFailed
  | mixinOnly .. => .mixinOnly
  | semantic _ => .unevaluated
  | invalidParameterList .. => .parameterList

def span : TemplateError → Span
  | argumentMismatch _ _ _ s | noMatchingOverload _ _ s | ambiguousOverload _ _ _ _ _ s
  | constraintFailed _ _ _ s | recursiveExpansion _ s | nestingDepthExceeded _ _ s
  | memberElaborationFailed _ _ _ s | mixinOnly _ s | invalidParameterList _ _ s => s
  | semantic f => f.span

/-- The instance that failed. -/
def inst? : TemplateError → Option InstanceId
  | memberElaborationFailed id _ _ _ => some id
  | _ => none

/-- The text at the place of the error. -/
def label : TemplateError → String
  | argumentMismatch .. => "wrong template arguments"
  | noMatchingOverload .. => "no matching declaration"
  | ambiguousOverload .. => "ambiguous instance"
  | constraintFailed .. => "constraint failed"
  | recursiveExpansion .. => "expands to itself"
  | nestingDepthExceeded .. => "nested too deeply"
  | memberElaborationFailed .. => "instantiated here"
  | mixinOnly .. => "used as a plain instance"
  | semantic _ => "cannot be evaluated"
  | invalidParameterList .. => "declared here"

/-- Other places that belong to the error. -/
def related : TemplateError → List Label
  | ambiguousOverload _ _ _ s t _ =>
    [⟨s, "candidate declared here", false⟩, ⟨t, "candidate declared here", false⟩]
  | _ => []

/-- The notes that stand before the trace. -/
def notes : TemplateError → List String
  | noMatchingOverload _ candidates _ => candidates.map ("candidate: " ++ ·)
  | constraintFailed _ _ reason _ | memberElaborationFailed _ _ reason _ => reason.toList
  | _ => []

def toDiagnostic (e : TemplateError) (trace : List String) : Diagnostic where
  code := e.code
  message := e.message
  labels := ⟨e.span, e.label, true⟩ :: e.related
  notes := e.notes ++ trace

/-- An error of a nested request is a failure of the body that made it. -/
def toFailure (e : TemplateError) : Failure := ⟨e.message, e.span⟩

@[simp] theorem isError_toDiagnostic (e : TemplateError) (trace : List String) :
    (e.toDiagnostic trace).isError = true := rfl

@[simp] theorem primarySpan?_toDiagnostic (e : TemplateError) (trace : List String) :
    (e.toDiagnostic trace).primarySpan? = some e.span := rfl

end TemplateError
end Templates
