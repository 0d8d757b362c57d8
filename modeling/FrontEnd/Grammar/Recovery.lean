import FrontEnd.Grammar.State

/-!
# Going on after errors

A statement or member that cannot be read is abandoned: its errors are recorded, the groups it
left open are forgotten, and reading goes on at the next boundary between statements. A file
with too many errors is given up.
-/

namespace FrontEnd

/-- The number of errors after which a file is given up. -/
def maxErrors : Nat := 50

/-- Keywords and marks that begin a statement or declaration wherever they stand. -/
def TokenKind.beginsStatement : TokenKind → Bool
  | .keyword .val | .keyword .var | .keyword .func | .keyword .class_ | .keyword .struct
  | .keyword .enum | .keyword .trait | .keyword .object | .keyword .for_ | .keyword .while_
  | .symbol .at_ => true
  | _ => false

/-- Opening delimiters. -/
def TokenKind.isOpening : TokenKind → Bool
  | .symbol .lBrace | .symbol .lParen | .symbol .lBracket => true
  | _ => false

/-- Closing delimiters. -/
def TokenKind.isClosing : TokenKind → Bool
  | .symbol .rBrace | .symbol .rParen | .symbol .rBracket => true
  | _ => false

namespace ParserState

/-- How many of some tokens come before the next boundary between statements: a line break or
semicolon, which is stepped over, a closing brace, or the beginning of a statement, all outside
the delimiters opened on the way. Closing delimiters that match nothing are passed over. -/
def boundary : Nat → List Token → Nat
  | _, [] => 0
  | depth, t :: rest =>
    if t.kind.isOpening then boundary (depth + 1) rest + 1
    else if depth = 0 ∧ (t.kind = .newline ∨ t.kind = .symbol .semi) then 1
    else if depth = 0 ∧ (t.kind = .symbol .rBrace ∨ t.kind.beginsStatement) then 0
    else if t.kind.isClosing then boundary (depth - 1) rest + 1
    else boundary depth rest + 1

/-- Step over some tokens. -/
def bumpBy : Nat → ParserState → ParserState
  | 0, s => s
  | n + 1, s => bumpBy n s.bump

/-- Step over tokens up to the next boundary between statements, and over at least one token
since `before`. -/
def synchronize (s before : ParserState) : ParserState :=
  let moved := if s.rest.length = before.rest.length then s.bump else s
  moved.bumpBy (boundary 0 moved.rest)

/-- Forget the groups opened since `before`, with all they changed. -/
def restore (s before : ParserState) : ParserState :=
  { s with
    groups := s.groups.drop (s.groups.length - before.groups.length)
    allowsBrace := before.allowsBrace
    halfShift := false }

/-- The state after the end of a statement: terminators are stepped over, and only a closing
brace or the end of the text can stand in for them. -/
def terminate (s before : ParserState) : ParserState :=
  if s.kind = .newline ∨ s.kind = .symbol .semi then
    s.skipWhile fun k => k = .newline ∨ k = .symbol .semi
  else if s.kind = .eof ∨ s.kind = .symbol .rBrace then s
  else (s.record (s.expectedError "';' or new-line")).synchronize before

/-- The state after a statement that was begun in the state `before`, from the state in which
its parser stopped. A missing terminator is only reported when nothing else was. -/
def settle (s before : ParserState) : ParserState :=
  if before.errorCount < s.errorCount then (s.restore before).synchronize before
  else s.terminate before

end ParserState

namespace Parse

/-- Read one statement or member up to and including its terminator. After errors reading goes
on at the next boundary; `none` means that the construct was abandoned. -/
def recovering {α : Type} (p : Parser α) : Parser (Option α) := fun before =>
  let finish (result : Option α) (s : ParserState) :
      EStateM.Result SyntaxError ParserState (Option α) :=
    let settled := s.settle before
    if maxErrors ≤ settled.errorCount then .error ⟨.tooManyErrors, settled.current.span⟩ settled
    else .ok result settled
  match p before with
  | .ok a s => finish (some a) s
  | .error e s => if e.isFatal then .error e s else finish none (s.record e)

end Parse

end FrontEnd
