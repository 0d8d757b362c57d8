import FrontEnd.Grammar.Type

/-!
# Expressions

Binary operators are read by levels, from the loosest to the tightest; all of them group to the
left. Tighter still are powers, which group to the right, then casts, the operators in front of
an operand and those behind it. Assignments are looser than every level and group to the right.
-/

namespace FrontEnd

/-- A level of binary operators that bind equally tight. -/
inductive Level where
  /-- The operators written with tokens of their own. -/
  | operators (ops : List BinaryOp)
  /-- Any name between two operands. -/
  | customNames

namespace Level

/-- The levels from the loosest to the tightest. -/
def all : List Level :=
  [.operators [.pipe],
    .operators [.or],
    .operators [.and],
    .operators [.bitOr],
    .operators [.xor],
    .operators [.bitAnd],
    .operators [.eq, .notEq, .refEq, .refNotEq],
    .operators [.lt, .gt, .le, .ge],
    .operators [.spaceship],
    .operators [.is, .notIs, .in_, .notIn],
    .operators [.nullCoalesce],
    .operators [.shl, .shr],
    .customNames,
    .operators [.range, .rangeRightOpen, .rangeInclusive, .rangeLeftOpen, .rangeOpen],
    .operators [.add, .sub],
    .operators [.mul, .div, .mod]]

/-- The operator of a level that a token stands for. -/
def op? (t : Token) : Level → Option BinaryOp
  | operators ops => ops.find? (·.token = t.kind)
  | customNames =>
    match t.kind with
    | .ident name => some (.custom ⟨name, t.span⟩)
    | _ => none

end Level

/-- The operator in front of an operand that a token stands for; a borrow is one of two by the
token that follows. -/
def PrefixOp.ofTokens? : TokenKind → TokenKind → Option PrefixOp
  | .symbol .sub, _ => some neg
  | .symbol .not, _ => some not
  | .symbol .inv, _ => some inv
  | .symbol .mul, _ => some deref
  | .symbol .inc, _ => some inc
  | .symbol .dec, _ => some dec
  | .symbol .ampersand, .keyword .mut_ => some borrowMut
  | .symbol .ampersand, _ => some borrow
  | _, _ => none

/-- Whether a value can follow: everything but separators, closing delimiters and the end. -/
def TokenKind.canStartValue : TokenKind → Bool
  | .eof | .newline | .symbol .semi | .symbol .comma | .symbol .rParen | .symbol .rBracket
  | .symbol .rBrace => false
  | _ => true

/-- The warning about parentheses that change nothing. -/
def uselessParens? : ExprForm → Option String
  | .paren _ => some "Useless double-wrapped parenthesized expression"
  | .literal _ | .name .. | .pathExpr _ | .this_ | .super =>
    some "Useless parentheses around simple expression"
  | _ => none

namespace Parse

/-- An expression after which a brace starts the body that follows. -/
def headExpr (g : Grammar) : Parser Expr := fun s =>
  match g .expr { s with allowsBrace := false } with
  | .ok e s' => .ok e { s' with allowsBrace := s.allowsBrace }
  | .error e s' => .error e { s' with allowsBrace := s.allowsBrace }

/-- A name and a colon in front of a value, if both are there. -/
def label? : Parser (Option Ident) := do
  let s ← get
  if s.kind.isIdent ∧ s.nextKind = .symbol .colon then
    let name ← expectIdent
    advance
    return some name
  return none

/-- A value with an optional name. -/
def argument (g : Grammar) : Parser (Node .argument) := do
  let start ← here
  let name? ← label?
  let value ← g .expr
  return .argument name? value (start.cover value.span)

/-- Arguments up to a closing parenthesis, which is left standing. -/
def arguments (n : Nat) (g : Grammar) : Parser (Node (.many .argument)) :=
  .ofList <$> commaListTo n .rParen (argument g)

/-- Expressions up to a closing bracket, which is left standing. -/
def items (n : Nat) (g : Grammar) : Parser (Node (.many .expr)) :=
  .ofList <$> commaListTo n .rBracket (g .expr)

/-- A field of a struct value. -/
def fieldInit (g : Grammar) : Parser (Node .fieldInit) := do
  if ← acceptSymbol .spread then return .baseField (← g .expr)
  match ← label? with
  | some name => return .namedField name (← g .expr)
  | none => return .shorthandField (← g .expr)

/-- The fields of a struct value, from the opening brace on. -/
def construct (n : Nat) (g : Grammar) (p : Path) : Parser Expr := do
  let start := p.pathSpan
  advance
  openGroup true
  let fields ← commaListTo n .rBrace (fieldInit g)
  if !(← close .rBrace) then return ← newExpr .errorExpr start
  newExpr (.construct p (.ofList fields)) (← spanFrom start)

/-- A name, a path or a struct value. -/
def pathOrConstruct (n : Nat) (g : Grammar) : Parser Expr := do
  let p ← path n g false
  if (← get).allowsBrace ∧ (← atSymbol .lBrace) then return ← construct n g p
  match p.simpleName? with
  | some ident => newExpr (.name ident .empty) p.pathSpan
  | none => newExpr (.pathExpr p) p.pathSpan

/-- The elements of a tuple after its first one. -/
def tupleRest (g : Grammar) : Nat → Parser (List (Node .argument))
  | 0 => stalled
  | n + 1 => do
    if !(← acceptSymbol .comma) then return []
    if ← atSymbol .rParen then return []
    let x ← argument g
    return x :: (← tupleRest g n)

/-- Warn about parentheses that change nothing. -/
def checkParens (inner : Expr) (span : Span) : Parser Unit := do
  if let some text := uselessParens? inner.form then
    modify (ParserState.report (.warning text span))

/-- An expression that starts with a parenthesis: unit, an expression in parentheses, or a
tuple. -/
def parenExpr (n : Nat) (g : Grammar) : Parser Expr := do
  let start ← here
  advance
  openGroup true
  if ← atSymbol .rParen then
    closeGroup
    advance
    return ← newExpr .unit (← spanFrom start)
  let first ← argument g
  match first with
  | .argument none inner _ =>
    if !(← atSymbol .comma) then
      if !(← close .rParen) then return ← newExpr .errorExpr start
      let span ← spanFrom start
      checkParens inner span
      return ← newExpr (.paren inner) span
  | _ => pure ()
  let others ← tupleRest g n
  if !(← close .rParen) then return ← newExpr .errorExpr start
  newExpr (.tuple (.ofList (first :: others))) (← spanFrom start)

/-- A list of values. -/
def listExpr (n : Nat) (g : Grammar) : Parser Expr := do
  let start ← here
  advance
  openGroup true
  let values ← items n g
  if !(← close .rBracket) then return ← newExpr .errorExpr start
  newExpr (.list values) (← spanFrom start)

/-- The second branch of a condition, if there is one. -/
def elseBranch? (g : Grammar) : Parser (Node (.maybe .expr)) := do
  match (← get).kindAfterNewlines with
  | .keyword .elif =>
    skipNewlines
    return .present (← g .cond)
  | .keyword .else_ =>
    skipNewlines
    advance
    if ← at? (.keyword .if_) then return .present (← g .cond)
    let start ← here
    let body ← block g
    return .present (← newExpr (.blockExpr body) (← spanFrom start))
  | _ => return .absent

/-- A condition with its branches. -/
def cond (g : Grammar) : Parser Expr := do
  let start ← here
  advance
  let condition ← headExpr g
  let positive ← block g
  let negative ← elseBranch? g
  newExpr (.cond condition positive negative) (← spanFrom start)

/-- The conditions of an entry of a choice. -/
def entryConditions (g : Grammar) : Nat → Parser (List Expr)
  | 0 => stalled
  | n + 1 => do
    let x ← g .expr
    if !(← acceptSymbol .comma) then return [x]
    skipNewlines
    return x :: (← entryConditions g n)

/-- An entry of a choice. -/
def selectEntry (n : Nat) (g : Grammar) : Parser (Node .selectEntry) := do
  let start ← here
  let conditions ← if ← accept (.keyword .else_) then pure [] else entryConditions g n
  discard <| expectSymbol .doubleArrow
  skipNewlines
  let body ← g .expr
  let span ← spanFrom start
  return .selectEntry (← origin span) (.ofList conditions) body

/-- The entries of a choice up to a closing brace, which is left standing. -/
def selectEntries (bound : Nat) (g : Grammar) : Nat → Parser (List (Node .selectEntry))
  | 0 => stalled
  | n + 1 => do
    if (← atSymbol .rBrace) ∨ (← atEnd) then return []
    let entry ← selectEntry bound g
    skipSeparators
    return entry :: (← selectEntries bound g n)

/-- A choice between entries. -/
def select (n : Nat) (g : Grammar) : Parser Expr := do
  let start ← here
  advance
  let subject ← headExpr g
  discard <| expectSymbol .lBrace
  openGroup false
  skipSeparators
  let entries ← selectEntries n g n
  closeStrict .rBrace
  newExpr (.select subject (.ofList entries)) (← spanFrom start)

/-- A parameter of a lambda. -/
def lambdaParam (g : Grammar) : Parser (Node .lambdaParam) := do
  let name ← expectIdent
  let type ← if ← acceptSymbol .colon then
      skipNewlines
      pure (.present (← g .type))
    else pure .absent
  return .lambdaParam (← freshId) name type

/-- The parameters of a lambda between bars; two bars in a row are one token. -/
def lambdaParams (n : Nat) (g : Grammar) : Parser (List (Node .lambdaParam)) := do
  if ← acceptSymbol .bitOr then
    skipNewlines
    let (params, _) ← commaList (· = .symbol .bitOr) skipNewlines (lambdaParam g) n false
    discard <| expectSymbol .bitOr
    return params
  discard <| expectSymbol .or
  return []

/-- A lambda. -/
def lambda (n : Nat) (g : Grammar) : Parser Expr := do
  let start ← here
  let params ← lambdaParams n g
  let result ← if ← acceptSymbol .arrow then pure (.present (← g .type)) else pure .absent
  skipNewlines
  let body ← g .expr
  newExpr (.lambda (.ofList params) result body) (start.cover body.span)

/-- A block with the handler of its exceptions. -/
def tryCatch (g : Grammar) : Parser Expr := do
  let start ← here
  advance
  let body ← block g
  if (← get).kindAfterNewlines = .keyword .catch_ then skipNewlines
  discard <| expectKeyword .catch_
  let binding ← expectIdent
  let handling ← block g
  let handler := .handler (← freshId) binding handling
  newExpr (.tryCatch body handler) (← spanFrom start)

/-- A value that may be left out at the end of a statement. -/
def value? (g : Grammar) : Parser (Node (.maybe .expr)) := do
  if (← kind).canStartValue then return .present (← g .expr)
  return .absent

/-- The form of an expression that starts with the token at hand and is given by it, together
with the parts that follow; `none` if the token starts no such expression. -/
def simpleForm? (g : Grammar) : Parser (Option ExprForm) := do
  let k ← kind
  if let some literal := Literal.ofToken? k then
    advance
    return some (.literal literal)
  match k with
  | .keyword .this_ =>
    advance
    return some .this_
  | .keyword .super =>
    advance
    return some .super
  | .symbol .lBrace => return some (.blockExpr (← block g))
  | .keyword .loop =>
    advance
    return some (.loop (← block g))
  | .keyword .break_ =>
    advance
    return some (.break_ (← value? g))
  | .keyword .continue_ =>
    advance
    return some .continue_
  | .keyword .return_ =>
    advance
    return some (.return_ (← value? g))
  | .keyword .throw =>
    advance
    return some (.throw (← g .expr))
  | .symbol .spread =>
    advance
    return some (.spread (← g .operand))
  | _ => return none

/-- An expression without operators. Anything that cannot start one is reported and left
standing. -/
def primary (n : Nat) (g : Grammar) : Parser Expr := do
  match ← kind with
  | .ident _ | .symbol .path => pathOrConstruct n g
  | .symbol .lParen => parenExpr n g
  | .symbol .lBracket => listExpr n g
  | .keyword .if_ => cond g
  | .keyword .when => select n g
  | .symbol .bitOr | .symbol .or => lambda n g
  | .keyword .try_ => tryCatch g
  | _ =>
    let start ← here
    match ← simpleForm? g with
    | some form => newExpr form (← spanFrom start)
    | none =>
      reportExpected "expression"
      newExpr .errorExpr (← here)

/-- The operators behind an operand, calls, indices and members. A line break ends them, unless
a member follows. -/
def suffixes (bound : Nat) (g : Grammar) : Nat → Expr → Parser Expr
  | 0, _ => stalled
  | n + 1, e => do
    let after := (← get).kindAfterNewlines
    if after = .symbol .dot ∨ after = .symbol .safeCall then skipNewlines
    let start := e.span
    let k ← kind
    match k with
    | .symbol .lParen =>
      advance
      openGroup true
      let args ← arguments bound g
      if !(← close .rParen) then return ← newExpr .errorExpr start
      suffixes bound g n (← newExpr (.call e args) (← spanFrom start))
    | .symbol .lBracket =>
      advance
      openGroup true
      let indices ← items bound g
      if !(← close .rBracket) then return ← newExpr .errorExpr start
      suffixes bound g n (← newExpr (.index e indices) (← spanFrom start))
    | .symbol .dot | .symbol .safeCall =>
      advance
      skipNewlines
      let field ← expectIdent
      let safe := k == .symbol .safeCall
      suffixes bound g n (← newExpr (.member e field safe) (start.cover field.span))
    | _ =>
      match PostfixOp.ofToken? k with
      | some op =>
        let span := start.cover (← here)
        advance
        suffixes bound g n (← newExpr (.suffixed op e) span)
      | none => return e

/-- An operand with the operators in front of it and behind it. -/
def operand (n : Nat) (g : Grammar) : Parser Expr := do
  let s ← get
  let start := s.current.span
  match PrefixOp.ofTokens? s.kind s.nextKind with
  | some op =>
    if op = .borrowMut then advance
    advance
    let inner ← g .operand
    newExpr (.unary op inner) (start.cover inner.span)
  | none => suffixes n g n (← primary n g)

/-- The casts behind an operand. -/
def casts (g : Grammar) : Nat → Expr → Parser Expr
  | 0, _ => stalled
  | n + 1, e => do
    let k ← kind
    if k = .keyword .as_ ∨ k = .keyword .asSafe then
      advance
      let type ← g .type
      casts g n (← newExpr (.cast e type (k == .keyword .asSafe)) (e.span.cover type.typeSpan))
    else return e

/-- A chain of powers. -/
def power (n : Nat) (g : Grammar) : Parser Expr := do
  let left ← casts g n (← operand n g)
  if !(← acceptSymbol .power) then return left
  skipNewlines
  let right ← g .power
  newExpr (.binary left .power right) (left.span.cover right.span)

/-- The operators of one level behind an operand, with their right operands. -/
def chain (level : Level) (tighter : Parser Expr) : Nat → Expr → Parser Expr
  | 0, _ => stalled
  | n + 1, left => do
    let t ← current
    match level.op? t with
    | none => return left
    | some op =>
      advance
      skipNewlines
      if let .customNames := level then record ⟨.customOperator, t.span⟩
      let right ← tighter
      chain level tighter n (← newExpr (.binary left op right) (left.span.cover right.span))

/-- An expression whose operators all belong to some levels. -/
def binary (n : Nat) (g : Grammar) : List Level → Parser Expr
  | [] => power n g
  | level :: levels => do chain level (binary n g levels) n (← binary n g levels)

/-- An expression. -/
def expr (n : Nat) (g : Grammar) : Parser Expr := do
  let target ← binary n g Level.all
  match AssignOp.ofToken? (← kind) with
  | none => return target
  | some op =>
    advance
    skipNewlines
    let value ← g .expr
    newExpr (.assign target op value) (target.span.cover value.span)

end Parse

end FrontEnd
