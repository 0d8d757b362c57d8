import FrontEnd.Diagnostic.Basic

/-!
# Errors of the scanner

Scanning a text stops at its first error.
-/

namespace FrontEnd

/-- Why a text cannot be cut into tokens. -/
inductive LexProblem where
  /-- A character that begins no token, blank or comment. -/
  | unexpectedChar (char : Char)
  /-- A string without its closing quote. -/
  | unterminatedString
  /-- A block comment without its end mark. -/
  | unterminatedComment
deriving DecidableEq, Inhabited

/-- A problem and where it stands. -/
structure LexError where
  /-- What is wrong. -/
  problem : LexProblem
  /-- The offending character, the string up to the end of the text, or the opening mark of the
  comment. -/
  span : Span
deriving DecidableEq, Inhabited

namespace LexError

/-- The error message. -/
def message (e : LexError) : String :=
  match e.problem with
  | .unexpectedChar c => "Unexpected character '" ++ c.toString ++ "'"
  | .unterminatedString => "Unterminated string literal"
  | .unterminatedComment => "Unterminated block comment"

/-- Advice on common slips. -/
def hint? (e : LexError) : Option String :=
  match e.problem with
  | .unexpectedChar '#' => some "comments start with '//'"
  | .unexpectedChar '\x60' => some "strings use '\"' or '''"
  | .unexpectedChar _ => none
  | .unterminatedString => some "add a closing quote to end the string"
  | .unterminatedComment => some "close the comment with '*/'"

/-- The error as a diagnostic, with its hint as help. -/
def toDiagnostic (e : LexError) : Diagnostic :=
  (Diagnostic.error e.message e.span).withHelp? e.hint?

end LexError

end FrontEnd
