import FrontEnd.Source.Span

/-!
# Diagnostics

Every stage reports problems as diagnostics: a message at a span, perhaps a second message at a
related span, perhaps help below. Only errors stop the stages that follow; warnings do not.
-/

namespace FrontEnd

/-- Whether a diagnostic stops the stages that follow. -/
inductive Severity where
  | error
  | warning
deriving DecidableEq, Inhabited

/-- The word a severity is announced with. -/
def Severity.label : Severity → String
  | error => "error"
  | warning => "warning"

/-- A positioned message to the user. -/
inductive Diagnostic where
  /-- A message that points at one span. -/
  | message (severity : Severity) (text : String) (span : Span)
  /-- A message together with a second one at a related span. -/
  | linked (severity : Severity) (text : String) (span : Span) (linkText : String) (link : Span)
  /-- Another diagnostic, followed by help. -/
  | helped (inner : Diagnostic) (help : String)
deriving DecidableEq, Inhabited

namespace Diagnostic

/-- An error at a span. -/
def error (text : String) (span : Span) : Diagnostic := message .error text span

/-- A warning at a span. -/
def warning (text : String) (span : Span) : Diagnostic := message .warning text span

/-- Point a second message at a related span, in place of an earlier link. Help stays last. -/
def withLink (linkText : String) (link : Span) : Diagnostic → Diagnostic
  | message severity text span => linked severity text span linkText link
  | linked severity text span _ _ => linked severity text span linkText link
  | helped inner help => helped (inner.withLink linkText link) help

/-- Add help below. -/
def withHelp (d : Diagnostic) (help : String) : Diagnostic := helped d help

/-- Add help below when there is some. -/
def withHelp? (d : Diagnostic) : Option String → Diagnostic
  | some help => d.withHelp help
  | none => d

/-- The severity of the innermost message. -/
def severity : Diagnostic → Severity
  | message severity _ _ => severity
  | linked severity _ _ _ _ => severity
  | helped inner _ => inner.severity

/-- Whether the diagnostic is an error. -/
def isError (d : Diagnostic) : Bool := d.severity == .error

/-- The text of the innermost message. -/
def text : Diagnostic → String
  | message _ text _ => text
  | linked _ text _ _ _ => text
  | helped inner _ => inner.text

/-- The span of the innermost message. -/
def span : Diagnostic → Span
  | message _ _ span => span
  | linked _ _ span _ _ => span
  | helped inner _ => inner.span

/-- The outermost help. -/
def help? : Diagnostic → Option String
  | helped _ help => some help
  | _ => none

/-- How many of some diagnostics are errors. -/
def errorCount (ds : List Diagnostic) : Nat := ds.countP isError

/-- Whether some diagnostic of a list is an error. -/
def anyError (ds : List Diagnostic) : Bool := ds.any isError

/-- What is said when errors stop the stages that follow. -/
def haltMessage : String := "Stop due to errors above"

/-- A list holds an error exactly when it has an error count. -/
theorem anyError_iff (ds : List Diagnostic) : anyError ds = true ↔ 0 < errorCount ds := by
  simp [anyError, errorCount, List.countP_pos_iff]

end Diagnostic

end FrontEnd
