import FrontEnd.Source.Lines
import FrontEnd.Token.Basic
import FrontEnd.Token.Error

/-!
# The scanner

A text is cut into lexemes: blanks, comments and tokens. Each lexeme is the longest one that
begins at its place. The only context a lexeme depends on is the token before it and the number
of angle brackets left open on the line, which together tell a lifetime from a string.

The scanner walks over the text character by character. At the start of a lexeme it classifies
the text that follows and emits its token; over the remaining characters of the lexeme it only
counts down.
-/

namespace FrontEnd

namespace Lexer

/-- Characters that may begin a name: ASCII letters and the underscore. -/
def isNameStart (c : Char) : Bool := c.isAlpha || c == '_'

/-- Characters that may continue a name: ASCII letters, digits and the underscore. -/
def isNamePart (c : Char) : Bool := c.isAlphanum || c == '_'

/-- Blanks between tokens. The line feed is a token of its own. -/
def isBlank (c : Char) : Bool := c == ' ' || c == '\t' || c == '\r'

/-- Binary digits. -/
def isBinDigit (c : Char) : Bool := c == '0' || c == '1'

/-- Octal digits. -/
def isOctDigit (c : Char) : Bool := '0' ≤ c && c ≤ '7'

/-- Hexadecimal digits, in both cases. -/
def isHexDigit (c : Char) : Bool :=
  c.isDigit || ('a' ≤ c && c ≤ 'f') || ('A' ≤ c && c ≤ 'F')

/-- Characters that belong together: a token, a blank or a comment. -/
structure Lexeme where
  /-- The token kind; blanks and comments have none. -/
  kind? : Option TokenKind
  /-- The characters, at least one. -/
  chars : List Char

/-- The state of the scanner at the start of a lexeme. -/
structure Context where
  /-- The file that is scanned. -/
  file : FileId
  /-- Byte offset of the lexeme. -/
  pos : Nat
  /-- The token before it. -/
  last? : Option TokenKind
  /-- Opening angle brackets on this line that no closing one has matched. -/
  openAngles : Nat

namespace Context

/-- The state at the start of a text. -/
def start (file : FileId) : Context := ⟨file, 0, none, 0⟩

/-- The next `len` bytes. -/
def span (ctx : Context) (len : Nat) : Span := ⟨ctx.pos, len, ctx.file⟩

/-- How a token changes the number of open angle brackets: lines, semicolons and braces close
them all. -/
def anglesAfter (openAngles : Nat) : TokenKind → Nat
  | .symbol .lAngle => openAngles + 1
  | .symbol .rAngle => openAngles - 1
  | .symbol .shr => openAngles - 2
  | .newline | .symbol .semi | .symbol .lBrace | .symbol .rBrace => 0
  | _ => openAngles

/-- The state after a lexeme. -/
def after (ctx : Context) (l : Lexeme) : Context :=
  let moved := { ctx with pos := ctx.pos + Text.byteSize l.chars }
  match l.kind? with
  | some kind => { moved with last? := some kind, openAngles := anglesAfter ctx.openAngles kind }
  | none => moved

end Context

/-- The digits of a base named by the letter after a zero. -/
def base? : Char → Option (LiteralForm × (Char → Bool))
  | 'b' | 'B' => some (.binary, isBinDigit)
  | 'o' | 'O' => some (.octal, isOctDigit)
  | 'x' | 'X' => some (.hexadecimal, isHexDigit)
  | _ => none

/-- A decimal number: a point belongs to it only when a digit follows. -/
def decimal (cs : List Char) : LiteralForm × List Char :=
  let whole := cs.takeWhile Char.isDigit
  match cs.dropWhile Char.isDigit with
  | '.' :: d :: rest =>
    if d.isDigit then (.float, whole ++ '.' :: (d :: rest).takeWhile Char.isDigit)
    else (.decimal, whole)
  | _ => (.decimal, whole)

/-- The number at the start of a text that begins with a digit. -/
def number : List Char → LiteralForm × List Char
  | '0' :: mark :: rest =>
    match base? mark with
    | some (form, isDigit) => (form, '0' :: mark :: rest.takeWhile isDigit)
    | none => decimal ('0' :: mark :: rest)
  | cs => decimal cs

/-- The characters of a string up to its closing quote, which is left out. A backslash takes
the character after it along. `none` if the quote is missing. -/
def stringBody? (quote : Char) : List Char → Option (List Char)
  | [] => none
  | '\\' :: c :: cs => (stringBody? quote cs).map fun body => '\\' :: c :: body
  | c :: cs => if c = quote then some [] else (stringBody? quote cs).map (c :: ·)

/-- The characters of a block comment after its opening mark, through the first end mark. -/
def commentBody? : List Char → Option (List Char)
  | [] => none
  | '*' :: '/' :: _ => some ['*', '/']
  | c :: cs => (commentBody? cs).map (c :: ·)

/-- The token of a word. The word `as` with a question mark behind it is the safe cast. -/
def word (cs : List Char) : Lexeme :=
  let chars := cs.takeWhile isNamePart
  let name := String.ofList chars
  if name = "as" ∧ (cs.dropWhile isNamePart).head? = some '?' then
    ⟨some (.keyword .asSafe), chars ++ ['?']⟩
  else
    match Keyword.ofWord? name with
    | some k => ⟨some (.keyword k), chars⟩
    | none => ⟨some (.ident name), chars⟩

/-- The name of a lifetime, given the text after a single quote. A lifetime stands directly
after `<` or `,` inside open angle brackets, and no quote closes it. -/
def lifetime? (ctx : Context) (cs : List Char) : Option (List Char) :=
  let afterListStart :=
    ctx.last? = some (.symbol .lAngle) ∨ ctx.last? = some (.symbol .comma)
  let startsName := cs.head?.any isNameStart
  if 0 < ctx.openAngles ∧ afterListStart ∧ startsName
      ∧ (cs.dropWhile isNamePart).head? ≠ some '\x27' then
    some (cs.takeWhile isNamePart)
  else none

/-- Whether a symbol begins a text. The two that end in a word must not run on into a name. -/
def fits (cs : List Char) (s : Symbol) : Bool :=
  let chars := s.spelling.toList
  chars.isPrefixOf cs &&
    (if s = .notIs ∨ s = .notIn then !(cs.drop chars.length).head?.any isNamePart else true)

/-- The longest symbol that begins a text. -/
def symbol? (cs : List Char) : Option Symbol := Symbol.table.find? (fits cs)

/-- A string between quotes, given the text after the opening one. -/
def stringLexeme (ctx : Context) (quote : Char) (form : LiteralForm) (cs : List Char) :
    Except LexError Lexeme :=
  match stringBody? quote cs with
  | some body => .ok ⟨some (.literal form (String.ofList body)), quote :: body ++ [quote]⟩
  | none => .error ⟨.unterminatedString, ctx.span (Text.byteSize (quote :: cs))⟩

/-- The lexeme at the start of a text of at least one character. -/
def lexeme (ctx : Context) : (c : Char) → (cs : List Char) → Except LexError Lexeme
  | '\n', _ => .ok ⟨some .newline, ['\n']⟩
  | '\x27', cs =>
    match lifetime? ctx cs with
    | some name => .ok ⟨some (.lifetime (String.ofList name)), '\x27' :: name⟩
    | none => stringLexeme ctx '\x27' .single cs
  | '"', cs => stringLexeme ctx '"' .double cs
  | '/', '/' :: cs => .ok ⟨none, '/' :: '/' :: cs.takeWhile (· ≠ '\n')⟩
  | '/', '*' :: cs =>
    match commentBody? cs with
    | some body => .ok ⟨none, '/' :: '*' :: body⟩
    | none => .error ⟨.unterminatedComment, ctx.span 2⟩
  | c, cs =>
    if isBlank c then .ok ⟨none, [c]⟩
    else if c.isDigit || (c == '.' && cs.head?.any Char.isDigit) then
      let (form, chars) := number (c :: cs)
      .ok ⟨some (.literal form (String.ofList chars)), chars⟩
    else if isNameStart c then .ok (word (c :: cs))
    else
      match symbol? (c :: cs) with
      | some s => .ok ⟨some (.symbol s), s.spelling.toList⟩
      | none => .error ⟨.unexpectedChar c, ctx.span c.utf8Size⟩

/-- The token of a lexeme, if it has one. -/
def Lexeme.tokens (ctx : Context) (l : Lexeme) : List Token :=
  l.kind?.toList.map fun kind => ⟨kind, ctx.span (Text.byteSize l.chars)⟩

/-- The line starts inside a string, given the place and the text behind its opening quote: a line
feed begins a line, also one that a backslash takes along. -/
def stringStarts (quote : Char) : Nat → List Char → List Nat
  | _, [] => []
  | pos, '\\' :: c :: cs =>
    if c = '\n' then (pos + 2) :: stringStarts quote (pos + 2) cs
    else stringStarts quote (pos + 1 + c.utf8Size) cs
  | pos, c :: cs =>
    if c = quote then []
    else if c = '\n' then (pos + 1) :: stringStarts quote (pos + 1) cs
    else stringStarts quote (pos + c.utf8Size) cs

/-- The line starts inside a block comment, given the place and the text behind its opening mark. -/
def commentStarts : Nat → List Char → List Nat
  | _, [] => []
  | _, '*' :: '/' :: _ => []
  | pos, c :: cs =>
    if c = '\n' then (pos + 1) :: commentStarts (pos + 1) cs
    else commentStarts (pos + c.utf8Size) cs

/-- The line starts met while a lexeme is read, given the text behind its first character. Line
feeds stand alone, in strings and in block comments; no other lexeme looks for them. -/
def Lexeme.starts (ctx : Context) (cs : List Char) (l : Lexeme) : List Nat :=
  match l.kind? with
  | some .newline => [ctx.pos + 1]
  | some (.literal .single _) => stringStarts '\x27' (ctx.pos + 1) cs
  | some (.literal .double _) => stringStarts '"' (ctx.pos + 1) cs
  | some _ => []
  | none =>
    match l.chars with
    | '/' :: '*' :: _ => commentStarts (ctx.pos + 2) cs.tail
    | _ => []

/-- The tokens of a text and the line starts met on the way. The first argument counts the
characters that still belong to the lexeme at hand. -/
def scan : Nat → Context → List Char → Except LexError (List Token × List Nat)
  | _, ctx, [] => .ok ([⟨.eof, ctx.span 0⟩], [])
  | inside + 1, ctx, _ :: cs => scan inside ctx cs
  | 0, ctx, c :: cs => do
    let l ← lexeme ctx c cs
    let (tokens, starts) ← scan (l.chars.length - 1) (ctx.after l) cs
    return (l.tokens ctx ++ tokens, l.starts ctx cs ++ starts)

end Lexer

/-- The outcome of scanning a text. -/
structure Lexed where
  /-- The tokens in order; the last one is the end of the text. -/
  tokens : List Token
  /-- The line table collected on the way. -/
  lines : LineTable

/-- Cut a text into tokens. -/
def lex (file : FileId) (text : String) : Except LexError Lexed := do
  let (tokens, starts) ← Lexer.scan 0 (Lexer.Context.start file) text.toList
  return ⟨tokens, starts.foldl LineTable.addLine .single⟩

end FrontEnd
