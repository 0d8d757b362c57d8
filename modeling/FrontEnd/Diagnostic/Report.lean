import FrontEnd.Diagnostic.Basic
import FrontEnd.Diagnostic.Json
import FrontEnd.Source.Registry

/-!
# Diagnostics for other programs

A report lists the diagnostics of one stage in JSON.
-/

namespace FrontEnd

namespace Report

/-- Where a span starts, counted from one, and its length in bytes. -/
def location (sources : Sources) (span : Span) : Json :=
  let path := ((sources.get? span.file).map (·.path)).getD "<unknown>"
  let (line, col) := (sources.lineCol? span).getD (1, 0)
  .object [("file", .string path), ("line", .number line), ("column", .number (col + 1)),
    ("length", .number span.len)]

/-- The word for a severity in reports. -/
def severity : Severity → String
  | .error => "error"
  | .warning => "warn"

/-- The link of a diagnostic, if it has one. -/
def link? (sources : Sources) : Diagnostic → Option Json
  | .message .. => none
  | .linked _ _ _ text span =>
    some (.object [("message", .string text), ("location", location sources span)])
  | .helped inner _ => link? sources inner

/-- A diagnostic of a report. Of several helps the outermost is kept. -/
def entry (sources : Sources) (d : Diagnostic) : Json :=
  .object ([("kind", .string (severity d.severity)), ("message", .string d.text),
      ("location", location sources d.span)]
    ++ ((link? sources d).map (("link", ·))).toList
    ++ (d.help?.map fun help => ("help", .string help)).toList)

/-- The report of a stage. -/
def report (stage : String) (sources : Sources) (ds : List Diagnostic) : Json :=
  let errors := Diagnostic.errorCount ds
  .object [("version", .number 1), ("stage", .string stage), ("success", .bool (errors == 0)),
    ("error_count", .number errors), ("warning_count", .number (ds.length - errors)),
    ("suggestions", .list (ds.map (entry sources)))]

end Report

end FrontEnd
