import FrontEnd.Dump.Leaves
import FrontEnd.Scope.Basic

/-!
# Broken invariants

A defect means that one part of the front end was used against its rules by another. No program
text should cause one, and none is shown as a diagnostic.
-/

namespace FrontEnd

/-- The rules that can be broken. -/
inductive Defect where
  /-- Spans of two files were merged. -/
  | differentFiles (a b : FileId)
  /-- Text was attached to a file that is not registered. -/
  | unknownFile (file : FileId)
  /-- A slot was written twice. -/
  | slotTaken (held refused : Target)
  /-- A path has no names. -/
  | emptyPath (span : Span)
  /-- An error stub was to be resolved. -/
  | errorStmt (span : Span)
  | errorExpr (span : Span)
  | errorType (span : Span)
  /-- The module scope was to be left. -/
  | outermostScope (kind : ScopeKind)
  /-- Scopes were left open at the end of the module. -/
  | openScopes (count : Nat)
deriving DecidableEq, Inhabited

/-- What was broken. -/
def Defect.detail : Defect → String
  | differentFiles a b =>
    "cannot merge spans of files " ++ a.dump.inline ++ " and " ++ b.dump.inline
  | unknownFile file => "set_source on unknown file " ++ file.dump.inline
  | slotTaken held refused =>
    "resolution already set to " ++ (Dump.option (some held.dump)).inline
      ++ ", refusing to overwrite with " ++ refused.dump.inline
  | emptyPath span => "path without segments at " ++ span.dump.inline
  | errorStmt span => "error statement reached name resolution at " ++ span.dump.inline
  | errorExpr span => "error expression reached name resolution at " ++ span.dump.inline
  | errorType span => "error type reached name resolution at " ++ span.dump.inline
  | outermostScope kind => "tried to exit the " ++ kind.label ++ " rib"
  | openScopes count => "unbalanced ribs: " ++ toString count ++ " left open"

/-- The message of a defect. -/
def Defect.message (d : Defect) : String := "internal compiler error: " ++ d.detail

/-- The union of two spans of the same file. -/
def Span.merge (a b : Span) : Except Defect Span :=
  if a.file = b.file then .ok (a.cover b) else .error (.differentFiles a.file b.file)

/-- Write a slot that is still empty. -/
def Slot.set (s : Slot) (target : Target) : Except Defect Slot :=
  match s.target? with
  | none => .ok ⟨some target⟩
  | some held => .error (.slotTaken held target)

end FrontEnd
