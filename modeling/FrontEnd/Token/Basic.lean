import FrontEnd.Source.Span
import FrontEnd.Token.Keyword
import FrontEnd.Token.Symbol

/-!
# Tokens

A token is a kind together with the span of text it was read from. Kinds with a lexeme carry
it: string lexemes without their quotes, numbers in a base with their base mark, lifetimes
without their quote.
-/

namespace FrontEnd

/-- The forms of literal tokens. -/
inductive LiteralForm where
  | decimal
  | binary
  | octal
  | hexadecimal
  | float
  /-- A string between single quotes. -/
  | single
  /-- A string between double quotes. -/
  | double
deriving DecidableEq, Inhabited

/-- What a token is. -/
inductive TokenKind where
  /-- The end of the text. -/
  | eof
  /-- A line break that is not part of a string or comment. -/
  | newline
  | literal (form : LiteralForm) (lexeme : String)
  | ident (name : String)
  | lifetime (name : String)
  | keyword (word : Keyword)
  | symbol (mark : Symbol)
deriving DecidableEq, Inhabited

/-- A kind and where it was read. -/
structure Token where
  /-- What was read. -/
  kind : TokenKind
  /-- The text it was read from. -/
  span : Span
deriving DecidableEq, Inhabited

/-- The label of a literal form in token dumps. -/
def LiteralForm.label : LiteralForm → String
  | decimal => "DecLiteral"
  | binary => "BinLiteral"
  | octal => "OctLiteral"
  | hexadecimal => "HexLiteral"
  | float => "FloatLiteral"
  | single => "SQStringLiteral"
  | double => "DQStringLiteral"

namespace TokenKind

/-- The label of a kind in token dumps. -/
def label : TokenKind → String
  | eof => "Eof"
  | newline => "Nl"
  | literal form _ => form.label
  | ident _ => "Id"
  | lifetime _ => "Lifetime"
  | keyword k => k.label
  | symbol s => s.label

/-- The text of a token: what stands in the source, with marks for the two kinds that have no
visible text. -/
def text : TokenKind → String
  | eof => "[EOF]"
  | newline => "[NL]"
  | literal .single s => "'" ++ s ++ "'"
  | literal .double s => "\"" ++ s ++ "\""
  | literal _ s => s
  | ident s => s
  | lifetime s => "'" ++ s
  | keyword k => k.spelling
  | symbol s => s.spelling

/-- The name of a kind in error messages. -/
def describe : TokenKind → String
  | eof => "end of file"
  | newline => "end of line"
  | ident name => "name '" ++ name ++ "'"
  | literal .float _ => "float"
  | literal .single _ => "string"
  | literal .double _ => "string"
  | literal _ _ => "integer"
  | lifetime name => "lifetime '" ++ name
  | kind => "'" ++ kind.text ++ "'"

/-- Literals other than the truth values, which are keywords. -/
def isLiteral : TokenKind → Bool
  | literal _ _ => true
  | _ => false

/-- Plain and compound assignment operators. -/
def isAssignment : TokenKind → Bool
  | symbol s => s.isAssignment
  | _ => false

/-- Names, whatever they are. -/
def isIdent : TokenKind → Bool
  | ident _ => true
  | _ => false

/-- Two kinds agree when they differ at most in their lexemes. -/
def sameSort : TokenKind → TokenKind → Bool
  | literal f _, literal g _ => f == g
  | ident _, ident _ => true
  | lifetime _, lifetime _ => true
  | a, b => a == b

end TokenKind

end FrontEnd
