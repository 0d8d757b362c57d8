import FrontEnd.Source.Text

/-!
# Line tables

A line table holds the byte offset at which each line of a text starts. The first line always
starts at zero, so only the later starts are stored. Lines are numbered from one and columns
from zero, in bytes. A table may belong to another text than the one it is asked about: ranges
are read off the table, and whether they can be cut out of the text is a separate question.
-/

namespace FrontEnd

/-- The starts of all lines but the first, which starts at zero. -/
structure LineTable where
  /-- Offsets just after each line feed, strictly increasing. -/
  later : List Nat
deriving DecidableEq, Inhabited

namespace LineTable

/-- The table of a text without line feeds. -/
def single : LineTable := ⟨[]⟩

/-- All line starts, the first included. -/
def starts (t : LineTable) : List Nat := 0 :: t.later

/-- Record that one more line starts at `offset`. -/
def addLine (t : LineTable) (offset : Nat) : LineTable := ⟨t.later ++ [offset]⟩

/-- The offsets just after each line feed of some characters that begin at byte `pos`. -/
def startsFrom (pos : Nat) : List Char → List Nat
  | [] => []
  | c :: cs =>
    let next := pos + c.utf8Size
    if c = '\n' then next :: startsFrom next cs else startsFrom next cs

/-- The table of a text. -/
def scan (text : String) : LineTable := ⟨startsFrom 0 text.toList⟩

/-- Number of lines. -/
def count (t : LineTable) : Nat := t.starts.length

/-- The line, from one, and the byte column, from zero, of an offset: the last line that starts
at or before it. Offsets past the end of the text fall on the last line. -/
def lineCol (t : LineTable) (offset : Nat) : Nat × Nat :=
  let before := t.later.takeWhile (· ≤ offset)
  (before.length + 1, offset - before.getLastD 0)

/-- Byte range of a line without its line break. The break is the line feed before the next
start, together with a carriage return in front of it; the last line may end in a carriage
return of its own. -/
def range? (t : LineTable) (text : String) (line : Nat) : Option (Nat × Nat) := do
  guard (0 < line)
  let start ← t.starts[line - 1]?
  let stop := (t.starts[line]?.map (· - 1)).getD text.utf8ByteSize
  if start < stop ∧ Text.charAt? text.toList (stop - 1) = some '\r' then
    return (start, stop - 1)
  return (start, stop)

/-- The text of a line without its line break. -/
def text? (t : LineTable) (text : String) (line : Nat) : Option String := do
  let (start, stop) ← t.range? text line
  return String.ofList (← Text.slice? text.toList start stop)

/-- Scanning two texts in turn is scanning their concatenation. -/
theorem startsFrom_append (pos : Nat) (as bs : List Char) :
    startsFrom pos (as ++ bs) = startsFrom pos as ++ startsFrom (pos + Text.byteSize as) bs := by
  induction as generalizing pos with
  | nil => simp [startsFrom]
  | cons a as ih =>
    have hs : pos + Text.byteSize (a :: as) = pos + a.utf8Size + Text.byteSize as := by
      rw [Text.byteSize_cons, Nat.add_assoc]
    rw [hs]
    simp only [List.cons_append, startsFrom, ih]
    split <;> simp

end LineTable

end FrontEnd
