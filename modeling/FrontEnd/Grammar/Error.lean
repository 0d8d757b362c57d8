import FrontEnd.Diagnostic.Basic
import FrontEnd.Token.Basic

/-!
# Syntax errors

What can be wrong with a sequence of tokens, how it is said, and what advice goes with it. An
error is fatal when reading cannot go on after it: at the end of the text, after too many
errors, or should the parser fail to advance.
-/

namespace FrontEnd

/-- What is wrong with the tokens. -/
inductive SyntaxProblem where
  /-- Another token stands where something was expected. -/
  | expected (what : String) (found : TokenKind)
  /-- A closing brace outside all blocks. -/
  | strayBrace
  /-- A name between two operands. -/
  | customOperator
  /-- A constructor outside a class. -/
  | misplacedInit
  /-- Reading was given up. -/
  | tooManyErrors
  /-- The parser did not advance. -/
  | stalled
deriving DecidableEq, Inhabited

/-- A problem and the token it was met at. -/
structure SyntaxError where
  /-- What is wrong. -/
  problem : SyntaxProblem
  /-- Where it is wrong. -/
  span : Span
deriving DecidableEq, Inhabited

/-- Advice for a token that stands where something was expected. -/
def expectationHint? (what : String) (found : TokenKind) : Option String :=
  match what, found with
  | "':'", .symbol .assign => some "use ':' for types, '=' for values"
  | "':'", _ => some "syntax: name: Type"
  | "'\x7b'", _ => some "blocks start with '\x7b'"
  | "'\x7d'", _ => some "every '\x7b' needs a matching '\x7d'"
  | "')'", .eof => some "add ')' to close the parenthesis"
  | "']'", .eof => some "add ']' to close the bracket"
  | "'>'", _ => some "close the generic parameter list with '>'"
  | "'=>'", _ => some "`when` entries look like `a, b => body`"
  | "'in'", _ => some "syntax: for x in items \x7b ... \x7d"
  | "'catch'", _ => some "every `try` block needs a `catch name \x7b ... \x7d`"
  | "expression", .symbol .assign => some "put the value after '='"
  | "expression", .newline => some "statement is incomplete"
  | "expression", .symbol .semi => some "statement is incomplete"
  | "expression", _ => some "try a value, variable, or function call"
  | "a name", .literal .decimal _ => some "names can't start with a number"
  | "a name", _ => some "names start with a letter or '_'"
  | "type", _ => some "try a type like 'int', 'str', or a class name"
  | "';' or new-line", _ =>
    some "put each statement on its own line or separate them with ';'"
  | what, _ =>
    if "declaration".toList.isPrefixOf what.toList then
      some "start with 'func', 'class', 'struct', 'enum', 'trait', 'type' or 'object'"
    else none

namespace SyntaxError

/-- The error message. -/
def message (e : SyntaxError) : String :=
  match e.problem with
  | .expected what found => "Expected " ++ what ++ ", found " ++ found.describe
  | .strayBrace => "Unexpected '\x7d' with no block to close"
  | .customOperator => "Custom infix operators feature is reserved, but not implemented"
  | .misplacedInit => "`init` is only allowed inside a class"
  | .tooManyErrors => "Too many errors, stopping"
  | .stalled => "Reading does not advance"

/-- The advice that goes with the error. -/
def hint? (e : SyntaxError) : Option String :=
  match e.problem with
  | .expected what found => expectationHint? what found
  | _ => none

/-- Whether reading cannot go on after the error. -/
def isFatal (e : SyntaxError) : Bool :=
  match e.problem with
  | .expected _ found => found == .eof
  | .tooManyErrors | .stalled => true
  | _ => false

/-- The error as a diagnostic, with its advice as help. -/
def toDiagnostic (e : SyntaxError) : Diagnostic :=
  (Diagnostic.error e.message e.span).withHelp? e.hint?

end SyntaxError

end FrontEnd
