import FrontEnd.Grammar.Item

/-!
# Statements and whole files

A file is a list of statements. Here the parsers of the nonterminals are tied together, each
given the parsers for one token less.
-/

namespace FrontEnd

/-- Tokens that begin a declaration. -/
def TokenKind.beginsItem : TokenKind → Bool
  | .symbol .at_ | .keyword .pub | .keyword .pri | .keyword .static | .keyword .mut_
  | .keyword .move | .keyword .const | .keyword .infix_ | .keyword .func | .keyword .class_
  | .keyword .struct | .keyword .enum | .keyword .trait | .keyword .type | .keyword .object
  | .keyword .init => true
  | _ => false

namespace Parse

/-- A variable, given its kind. -/
def variableDecl (g : Grammar) (kind : VarKind) : Parser StmtForm := do
  advance
  let name ← expectIdent
  let type ← if ← acceptSymbol .colon then
      skipNewlines
      pure (.present (← g .type))
    else pure .absent
  let init ← if ← acceptSymbol .assign then
      skipNewlines
      pure (.present (← g .expr))
    else pure .absent
  return .varStmt kind name type init

/-- A loop over the elements of a value. -/
def forLoop (g : Grammar) : Parser StmtForm := do
  discard <| expectKeyword .for_
  let binding ← expectIdent
  discard <| expectKeyword .in_
  let source ← headExpr g
  return .forStmt binding source (← block g)

/-- A loop as long as a condition holds. -/
def whileLoop (g : Grammar) : Parser StmtForm := do
  discard <| expectKeyword .while_
  let condition ← headExpr g
  return .whileStmt condition (← block g)

/-- What a statement says. -/
def stmtForm (n : Nat) (g : Grammar) : Parser StmtForm := do
  let k ← kind
  match VarKind.ofToken? k with
  | some kind => variableDecl g kind
  | none =>
    if k = .keyword .for_ then forLoop g
    else if k = .keyword .while_ then whileLoop g
    else if k.beginsItem then return .itemStmt (← item n g)
    else return .exprStmt (← expr n g)

/-- A statement. -/
def stmt (n : Nat) (g : Grammar) : Parser Stmt := do
  let start ← here
  let form ← stmtForm n g
  return .stmt ⟨← freshId, ← spanFrom start⟩ form

/-- A statement with its terminator, or an error stub in its place. -/
def stmtOrStub (n : Nat) (g : Grammar) : Parser Stmt := do
  let start ← here
  match ← recovering (stmt n g) with
  | some s => return s
  | none =>
    let span ← spanFrom start
    return .stmt (← origin span) .errorStmt

/-- Statements up to a closing brace, which is left standing. -/
def stmtList (bound : Nat) (g : Grammar) : Nat → Parser (List Stmt)
  | 0 => stalled
  | n + 1 => do
    if (← atSymbol .rBrace) ∨ (← atEnd) then return []
    let s ← stmtOrStub bound g
    skipTerminators
    return s :: (← stmtList bound g n)

/-- Statements up to a closing brace, after any terminators. -/
def stmts (n : Nat) (g : Grammar) : Parser (Node (.many .stmt)) := do
  skipTerminators
  return .ofList (← stmtList n g n)

/-- The parser of a nonterminal for fewer than `n` remaining tokens, from the parsers of all
nonterminals. -/
def rule (n : Nat) (g : Grammar) : {c : Category} → Nonterminal c → Parser (Node c)
  | _, .expr => expr n g
  | _, .power => power n g
  | _, .operand => operand n g
  | _, .cond => cond g
  | _, .type => type n g
  | _, .stmts => stmts n g
  | _, .members inClass => members n g inClass

/-- The parsers of the nonterminals for fewer than `n` remaining tokens. -/
def grammar : Nat → Grammar
  | 0, _, _ => stalled
  | n + 1, _, x => rule (n + 1) (grammar n) x

/-- The statements of a file. A closing brace outside all blocks is reported and passed over. -/
def fileStmts (bound : Nat) : Nat → Parser (List Stmt)
  | 0 => stalled
  | n + 1 => do
    if ← atEnd then return []
    if ← atSymbol .rBrace then
      record ⟨.strayBrace, ← here⟩
      modify ParserState.bump
      skipTerminators
      fileStmts bound n
    else
      let s ← stmtOrStub bound (grammar bound)
      skipTerminators
      return s :: (← fileStmts bound n)

/-- A whole file. -/
def file (n : Nat) : Parser (List Stmt) := do
  skipTerminators
  fileStmts n n

end Parse

/-- A file that was read to its end. -/
structure Parsed where
  /-- Its statements, with stubs for those that could not be read. -/
  stmts : List Stmt
  /-- Errors and warnings in the order in which they were found. -/
  diagnostics : List Diagnostic

/-- A file that was given up. -/
structure ParseAbort where
  /-- The fatal error. -/
  error : SyntaxError
  /-- Errors and warnings in the order in which they were found, the fatal error last. -/
  diagnostics : List Diagnostic

/-- Read a file from its tokens. Syntax errors become diagnostics and error stubs; only a text
that ends inside a construct, or one with too many errors, is given up. -/
def parse (file : FileId) (tokens : List Token) : Except ParseAbort Parsed :=
  match Parse.file (tokens.length + 1) (ParserState.start file tokens) with
  | .ok stmts s => .ok ⟨stmts, s.diagnostics⟩
  | .error e s => .error ⟨e, s.diagnostics ++ [e.toDiagnostic]⟩

end FrontEnd
