import FrontEnd.Diagnostic.Basic
import FrontEnd.Diagnostic.Style
import FrontEnd.Source.Registry

/-!
# Diagnostics as text

Each message is shown below the source line it points at. Carets mark the span, and the message
takes the first place where it fits within the width: before the carets, behind them, or on
lines of its own below a dashed line that leads to the carets. A gutter as wide as the largest
line number keeps source and message apart from the numbers.
-/

namespace FrontEnd

/-- How diagnostics are laid out. -/
structure LayoutConfig where
  /-- The largest width of a line, the gutter included. -/
  wrapLen : Nat
  /-- Whether text is styled. -/
  color : Bool
deriving DecidableEq, Inhabited

namespace Layout

/-- Some blanks. -/
def blanks (n : Nat) : String := "".pushn ' ' n

/-- A text with blanks in front of it up to some width. -/
def padLeft (width : Nat) (text : String) : String := blanks (width - text.length) ++ text

/-- A text with blanks behind it up to some width. -/
def padRight (width : Nat) (text : String) : String := text ++ blanks (width - text.length)

/-- The characters of a text with a line break whenever `room` is used up, and then after each
`width` characters. -/
def wrapFrom (width : Nat) : Nat → List Char → List Char
  | _, [] => []
  | 0, c :: cs => '\n' :: c :: wrapFrom width (width - 1) cs
  | room + 1, c :: cs => c :: wrapFrom width room cs

/-- Break a text into lines of `width` characters, wherever that is. -/
def hardWrap (text : String) (width : Nat) : String :=
  if width = 0 then text else String.ofList (wrapFrom width width text.toList)

/-- The first `width` characters of a text. -/
def clip (text : String) (width : Nat) : String := String.ofList (text.toList.take width)

/-- The lines of a text. -/
def lines (text : String) : List String := (Text.lines text.toList).map String.ofList

/-- A line behind the gutter. -/
def indented (indent width : Nat) (text : String) : String :=
  blanks indent ++ clip text width ++ "\n"

/-- Carets under a span of `len` characters from column `col` on. -/
def carets (len : Nat) : String := "".pushn '^' len

/-- A dashed line of at least `width` characters with carets under the span. -/
def pointerLine (width col len : Nat) : String :=
  String.ofList ((List.range (max width (col + len))).map fun i =>
    if col ≤ i ∧ i < col + len then '^' else '-')

/-- The line between a message and the carets it belongs to. -/
def connector : String := "---"

/-- The room the connector needs, with the caret it leads to. -/
def connectorLen : Nat := 4

/-- The width of the gutter: the largest line number and a bar between blanks. -/
def gutter (sources : Sources) (file : FileId) : Nat :=
  (toString (max (sources.lineCount file) 1)).length + 3

/-- The column and the number of characters that a span takes on its line. Bytes stand in for
characters where the span does not start between two characters. -/
def extent (line : String) (byteCol byteLen : Nat) : Nat × Nat :=
  let cs := line.toList
  let col := ((Text.splitAt? cs byteCol).map (·.1.length)).getD byteCol
  let stop := min (byteCol + byteLen) line.utf8ByteSize
  let len := ((Text.slice? cs byteCol stop).map (·.length)).getD 0
  (col, max len 1)

/-- The lines that show a message next to the carets, given the width behind the gutter. -/
def messageLines (width col len : Nat) (message : String) : List String :=
  let messageLen := message.length
  let needed := messageLen + connectorLen
  if needed ≤ col then [padLeft (col - 3) message ++ connector ++ carets len]
  else if col + len < width ∧ needed ≤ width - (col + len) then
    [blanks col ++ carets len ++ connector ++ message]
  else if width < messageLen then
    pointerLine width col len :: lines (hardWrap message width)
  else pointerLine messageLen col len :: lines message

/-- A source line with its number. -/
def sourceLine (config : LayoutConfig) (number indent width : Nat) (line : String) : String :=
  Style.boldBlue.paint config.color (padLeft (indent - 3) (toString number)) ++ " "
    ++ Style.blue.paint config.color "|" ++ " " ++ clip line width ++ "\n"

/-- A message below the source line it points at. -/
def point (config : LayoutConfig) (sources : Sources) (message : String) (span : Span) : String :=
  let indent := gutter sources span.file
  let width := config.wrapLen - indent
  match sources.get? span.file with
  | none => indented indent width message
  | some file =>
    let (number, byteCol) := file.lines.lineCol span.pos
    let line := (file.lines.text? file.text number).getD ""
    let (col, len) := extent line byteCol span.len
    sourceLine config number indent width line
      ++ String.join ((messageLines width col len message).map (indented indent width))

/-- The word in front of help. -/
def helpLabel : String := "help: "

/-- The blanks in front of help. -/
def helpIndent : Nat := 4

/-- Help, wrapped, with its label on the first line. -/
def help (config : LayoutConfig) (text : String) : String :=
  let label := Style.boldCyan.paint config.color helpLabel
  let line (front body : String) := blanks helpIndent ++ front ++ body ++ "\n"
  match lines (hardWrap text (config.wrapLen - helpLabel.length)) with
  | [] => ""
  | first :: rest =>
    line label first ++ String.join (rest.map (line (blanks helpLabel.length)))

/-- What stands below the header of a diagnostic. -/
def body (config : LayoutConfig) (sources : Sources) : Diagnostic → String
  | .message _ text span => point config sources text span
  | .linked _ text span linkText link =>
    point config sources text span ++ point config sources linkText link
  | .helped inner text => body config sources inner ++ help config text

/-- The style of a severity. -/
def severityStyle : Severity → Style
  | .error => .boldRed
  | .warning => .boldYellow

/-- The first line of a diagnostic: its severity and where it is. -/
def header (config : LayoutConfig) (sources : Sources) (d : Diagnostic) : String :=
  let label := (severityStyle d.severity).paint config.color d.severity.label
  match sources.get? d.span.file with
  | some file =>
    let (line, col) := file.lines.lineCol d.span.pos
    label ++ ": " ++ file.path ++ ":" ++ toString line ++ ":" ++ toString (col + 1) ++ "\n"
  | none => label ++ ":\n"

/-- Diagnostics as text, with an empty line after each. -/
def render (config : LayoutConfig) (sources : Sources) (ds : List Diagnostic) : String :=
  String.join (ds.map fun d => header config sources d ++ body config sources d ++ "\n")

end Layout

end FrontEnd
