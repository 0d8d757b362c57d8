import FrontEnd.Defect
import FrontEnd.Source.Lines

/-!
# Registered source files

Files are registered by path first and get their text later, together with the line table that
scanning it produced. A file without text is empty.
-/

namespace FrontEnd

/-- A registered file. -/
structure SourceFile where
  /-- Its path as given. -/
  path : String
  /-- Its text. -/
  text : String
  /-- Where its lines start. -/
  lines : LineTable
deriving DecidableEq, Inhabited

/-- The registered files by number. -/
structure Sources where
  /-- The files in the order of their registration. -/
  files : List SourceFile
deriving DecidableEq, Inhabited

namespace Sources

/-- No files. -/
def empty : Sources := ⟨[]⟩

/-- One file with its text. -/
def single (path text : String) (lines : LineTable) : Sources := ⟨[⟨path, text, lines⟩]⟩

/-- Register a path; the result holds its number. -/
def add (s : Sources) (path : String) : FileId × Sources :=
  (⟨s.files.length⟩, ⟨s.files ++ [⟨path, "", .single⟩]⟩)

/-- A registered file. -/
def get? (s : Sources) (file : FileId) : Option SourceFile := s.files[file.index]?

/-- Attach a text and its line table to a registered file. -/
def setText (s : Sources) (file : FileId) (text : String) (lines : LineTable) :
    Except Defect Sources :=
  match s.get? file with
  | some f => .ok ⟨s.files.set file.index { f with text := text, lines := lines }⟩
  | none => .error (.unknownFile file)

/-- The number of lines of a file; a file that is not registered has none. -/
def lineCount (s : Sources) (file : FileId) : Nat := ((s.get? file).map (·.lines.count)).getD 0

/-- The text of a line, which are counted from one. -/
def lineText? (s : Sources) (file : FileId) (line : Nat) : Option String := do
  let f ← s.get? file
  f.lines.text? f.text line

/-- Line and column at which a span starts. -/
def lineCol? (s : Sources) (span : Span) : Option (Nat × Nat) :=
  (s.get? span.file).map (·.lines.lineCol span.pos)

/-- The text of a span. -/
def snippet? (s : Sources) (span : Span) : Option String := do
  let f ← s.get? span.file
  return String.ofList (← Text.slice? f.text.toList span.pos span.stop)

end Sources

end FrontEnd
