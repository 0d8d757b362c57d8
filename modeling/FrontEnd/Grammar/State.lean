import FrontEnd.Grammar.Error
import FrontEnd.Syntax.Tree

/-!
# The state of the parser

Reading a program consumes a list of tokens from the front. The state also keeps what the
meaning of the next token depends on: the groups that are open, whether a brace may start a
struct value, and whether one half of a `>>` has been used up as a closing angle bracket.
Problems that do not stop the parser are collected in the state, so they survive a failure.
-/

namespace FrontEnd

/-- An open pair of delimiters. -/
structure Group where
  /-- Whether line breaks inside have no meaning. -/
  ignoresNewlines : Bool
  /-- Whether a brace could start a struct value just outside. -/
  outerAllowsBrace : Bool
deriving DecidableEq, Inhabited

/-- The state of the parser. -/
structure ParserState where
  /-- The tokens that are still to be read, without the end of the text. -/
  rest : List Token
  /-- The token at the end of the text. -/
  final : Token
  /-- The span of the token read last. -/
  lastSpan : Span
  /-- The groups that are open, innermost first. -/
  groups : List Group
  /-- Whether a brace after a path starts a struct value. -/
  allowsBrace : Bool
  /-- Whether the first half of the `>>` at hand has been used up. -/
  halfShift : Bool
  /-- The problems found so far, oldest first. -/
  diagnostics : List Diagnostic
  /-- The number of the next node. -/
  nextId : Nat

/-- A parser of some part of a program. When it fails, the state shows how far it came. -/
abbrev Parser := EStateM SyntaxError ParserState

namespace ParserState

/-- The state before the first token. Tokens from the end mark on are not read; without an end
mark the text ends after its last token. -/
def start (file : FileId) (tokens : List Token) : ParserState where
  rest := tokens.takeWhile (·.kind ≠ .eof)
  final := (tokens.find? (·.kind = .eof)).getD
    ⟨.eof, (tokens.getLast?.map (·.span.stop)).getD 0, 0, file⟩
  lastSpan := ⟨0, 0, file⟩
  groups := []
  allowsBrace := true
  halfShift := false
  diagnostics := []
  nextId := 0

/-- The token at hand. -/
def current (s : ParserState) : Token := s.rest.head?.getD s.final

/-- The kind of the token at hand. -/
def kind (s : ParserState) : TokenKind := s.current.kind

/-- The kind of the token after the one at hand. -/
def nextKind (s : ParserState) : TokenKind := (s.rest[1]?.getD s.final).kind

/-- The kind of the first token that is no line break. -/
def kindAfterNewlines (s : ParserState) : TokenKind :=
  ((s.rest.dropWhile (·.kind = .newline)).head?.getD s.final).kind

/-- Step over the token at hand. The end of the text stays. -/
def bump (s : ParserState) : ParserState :=
  match s.rest with
  | [] => s
  | t :: rest => { s with rest := rest, lastSpan := t.span }

/-- Step over tokens as long as they are of some kind. -/
def skipWhile (p : TokenKind → Bool) (s : ParserState) : ParserState :=
  { s with
    rest := s.rest.dropWhile (p ·.kind)
    lastSpan := ((s.rest.takeWhile (p ·.kind)).getLast?.map (·.span)).getD s.lastSpan }

/-- Step over line breaks. -/
def skipNewlines (s : ParserState) : ParserState := s.skipWhile (· = .newline)

/-- Step over the token at hand, and over line breaks after it where they have no meaning. -/
def advance (s : ParserState) : ParserState :=
  let moved := s.bump
  if s.groups.head?.any (·.ignoresNewlines) then moved.skipNewlines else moved

/-- Enter a group. Braces may start struct values in it. -/
def openGroup (ignoresNewlines : Bool) (s : ParserState) : ParserState :=
  let inside :=
    { s with groups := ⟨ignoresNewlines, s.allowsBrace⟩ :: s.groups, allowsBrace := true }
  if ignoresNewlines then inside.skipNewlines else inside

/-- Leave the innermost group. -/
def closeGroup (s : ParserState) : ParserState :=
  match s.groups with
  | [] => s
  | g :: groups => { s with groups := groups, allowsBrace := g.outerAllowsBrace }

/-- Add to the problems found. -/
def report (d : Diagnostic) (s : ParserState) : ParserState :=
  { s with diagnostics := s.diagnostics ++ [d] }

/-- Add an error to the problems found. -/
def record (e : SyntaxError) (s : ParserState) : ParserState := s.report e.toDiagnostic

/-- The number of errors found so far. -/
def errorCount (s : ParserState) : Nat := Diagnostic.errorCount s.diagnostics

/-- That something else was expected at the token at hand. -/
def expectedError (s : ParserState) (what : String) : SyntaxError :=
  ⟨.expected what s.kind, s.current.span⟩

/-- The text from `start` through the token read last; only `start` if nothing was read since. -/
def spanFrom (s : ParserState) (start : Span) : Span :=
  if s.lastSpan.pos < start.pos then start else start.cover s.lastSpan

end ParserState

namespace Parse

/-- The token at hand. -/
def current : Parser Token := ParserState.current <$> get

/-- The kind of the token at hand. -/
def kind : Parser TokenKind := ParserState.kind <$> get

/-- The span of the token at hand. -/
def here : Parser Span := (·.current.span) <$> get

/-- Whether the token at hand is of some kind. -/
def at? (k : TokenKind) : Parser Bool := (·.kind == k) <$> get

/-- Whether the token at hand is a symbol. -/
def atSymbol (mark : Symbol) : Parser Bool := at? (.symbol mark)

/-- Whether all tokens are read. -/
def atEnd : Parser Bool := at? .eof

/-- Step over the token at hand. -/
def advance : Parser Unit := modify ParserState.advance

/-- Step over line breaks. -/
def skipNewlines : Parser Unit := modify ParserState.skipNewlines

/-- Step over line breaks and semicolons. -/
def skipTerminators : Parser Unit :=
  modify (ParserState.skipWhile fun k => k = .newline ∨ k = .symbol .semi)

/-- Step over line breaks, semicolons and commas. -/
def skipSeparators : Parser Unit :=
  modify (ParserState.skipWhile fun k => k = .newline ∨ k = .symbol .semi ∨ k = .symbol .comma)

/-- Enter a group. -/
def openGroup (ignoresNewlines : Bool) : Parser Unit :=
  modify (ParserState.openGroup ignoresNewlines)

/-- Leave the innermost group. -/
def closeGroup : Parser Unit := modify ParserState.closeGroup

/-- Fail because something else was expected. -/
def failExpected {α : Type} (what : String) : Parser α := do
  throw ((← get).expectedError what)

/-- How an expected token is called. -/
def quoted (k : TokenKind) : String := "'" ++ k.text ++ "'"

/-- Step over the token at hand if it is of some kind, and tell whether it was. -/
def accept (k : TokenKind) : Parser Bool := do
  if ← at? k then
    advance
    return true
  return false

/-- Step over a symbol if it is at hand, and tell whether it was. -/
def acceptSymbol (mark : Symbol) : Parser Bool := accept (.symbol mark)

/-- Step over a token that has to be at hand; its span is the result. -/
def expect (k : TokenKind) : Parser Span := do
  if ← at? k then
    let span ← here
    advance
    return span
  failExpected (quoted k)

/-- Step over a symbol that has to be at hand. -/
def expectSymbol (mark : Symbol) : Parser Span := expect (.symbol mark)

/-- Step over a keyword that has to be at hand. -/
def expectKeyword (word : Keyword) : Parser Span := expect (.keyword word)

/-- Step over a name that has to be at hand. -/
def expectIdent : Parser Ident := do
  match ← current with
  | ⟨.ident name, span⟩ =>
    advance
    return ⟨name, span⟩
  | _ => failExpected "a name"

/-- Record an error and go on. -/
def record (e : SyntaxError) : Parser Unit := modify (ParserState.record e)

/-- Record that something else was expected and go on, unless the text ends here. -/
def reportExpected (what : String) : Parser Unit := do
  let e := (← get).expectedError what
  if e.isFatal then throw e
  record e

/-- Leave the innermost group through its closing symbol. A missing one is recorded, and the
result tells whether it was there. -/
def close (mark : Symbol) : Parser Bool := do
  closeGroup
  if ← acceptSymbol mark then return true
  reportExpected (quoted (.symbol mark))
  return false

/-- Leave the innermost group through its closing symbol, which has to be there. -/
def closeStrict (mark : Symbol) : Parser Unit := do
  closeGroup
  discard <| expectSymbol mark

/-- The text from `start` through the token read last. -/
def spanFrom (start : Span) : Parser Span := (·.spanFrom start) <$> get

/-- A number for a new node. -/
def freshId : Parser NodeId :=
  modifyGet fun s => (⟨s.nextId⟩, { s with nextId := s.nextId + 1 })

/-- Number and place of a new node. -/
def origin (span : Span) : Parser Origin := return ⟨← freshId, span⟩

/-- A new expression. -/
def newExpr (form : ExprForm) (span : Span) : Parser Expr := return .expr (← origin span) form

/-- A new type. -/
def newType (form : TypeForm) (span : Span) : Parser TypeExpr := return .type (← origin span) form

/-- Give up because nothing was consumed. -/
def stalled {α : Type} : Parser α := do throw ⟨.stalled, ← here⟩

/-- Elements between commas, up to a token that closes the list and is left standing; `gap` is
run after each comma. The flag of the result tells whether the last element has a comma behind
it. -/
def commaList {α : Type} (closes : TokenKind → Bool) (gap : Parser Unit) (element : Parser α) :
    Nat → Bool → Parser (List α × Bool)
  | 0, _ => stalled
  | n + 1, afterComma => do
    let k ← kind
    if closes k ∨ k = .eof then return ([], afterComma)
    let x ← element
    if ← acceptSymbol .comma then
      gap
      let (xs, trailing) ← commaList closes gap element n true
      return (x :: xs, trailing)
    return ([x], false)

/-- Elements between commas up to a closing symbol, which is left standing. -/
def commaListTo {α : Type} (n : Nat) (mark : Symbol) (element : Parser α) : Parser (List α) :=
  Prod.fst <$> commaList (· = .symbol mark) (pure ()) element n false

end Parse

end FrontEnd
