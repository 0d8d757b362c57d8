import FrontEnd.Grammar.Nonterminal

/-!
# Paths, types and generic parameters

Paths are read in two ways: type arguments follow a name directly inside types, and after `::`
inside expressions. The closing `>>` of two nested argument lists is one token; the inner list
uses up its first half and leaves the token to the outer one.
-/

namespace FrontEnd.Parse

/-- Step over one closing angle bracket, which may be half of a `>>`. -/
def closeAngle : Parser Unit := do
  let s ← get
  if s.kind = .symbol .rAngle then advance
  else if s.kind = .symbol .shr then
    if s.halfShift then
      modify ({ · with halfShift := false })
      advance
    else modify ({ · with halfShift := true })
  else failExpected "'>'"

/-- Tokens that close a list in angle brackets. -/
def closesAngles (k : TokenKind) : Bool := k = .symbol .rAngle ∨ k = .symbol .shr

/-- Type arguments between angle brackets. -/
def typeArgs (n : Nat) (g : Grammar) : Parser (List TypeExpr) := do
  discard <| expectSymbol .lAngle
  skipNewlines
  let (args, _) ← commaList closesAngles skipNewlines (g .type) n false
  closeAngle
  return args

/-- The segments of a path from a name on. -/
def segments (bound : Nat) (g : Grammar) (inType : Bool) : Nat → Parser (List (Node .segment))
  | 0 => stalled
  | n + 1 => do
    let ident ← expectIdent
    let direct ← if inType ∧ (← atSymbol .lAngle) then typeArgs bound g else pure []
    if !(← acceptSymbol .path) then return [.segment ident (.ofList direct)]
    if !inType ∧ (← atSymbol .lAngle) then
      let args ← typeArgs bound g
      let segment := .segment ident (.ofList args)
      if ← acceptSymbol .path then return segment :: (← segments bound g inType n)
      return [segment]
    return .segment ident (.ofList direct) :: (← segments bound g inType n)

/-- A path of names. -/
def path (n : Nat) (g : Grammar) (inType : Bool) : Parser Path := do
  let start ← here
  let global ← acceptSymbol .path
  let names ← segments n g inType n
  return .path global (.ofList names) (← spanFrom start) .empty

/-- What some types between parentheses form when no arrow follows. -/
def parenForm (items : List TypeExpr) (trailing : Bool) : TypeForm :=
  match items, trailing with
  | [], _ => .unitType
  | [inner], false => .parenType inner
  | items, _ => .tupleType (.ofList items)

/-- A type that starts with a parenthesis: unit, a type in parentheses, a tuple, or the type of
functions. -/
def parenType (n : Nat) (g : Grammar) : Parser TypeExpr := do
  let start ← here
  advance
  openGroup true
  let (items, trailing) ← commaList (· = .symbol .rParen) (pure ()) (g .type) n false
  if !(← close .rParen) then return ← newType .errorType start
  if ← acceptSymbol .arrow then
    let result ← g .type
    newType (.funcType (.ofList items) result) (start.cover result.typeSpan)
  else newType (parenForm items trailing) (← spanFrom start)

/-- A type that starts with a bracket: an array or a slice. -/
def bracketType (g : Grammar) : Parser TypeExpr := do
  let start ← here
  advance
  openGroup true
  let item ← g .type
  let form ← if ← acceptSymbol .semi then pure (.arrayType item (← g .expr))
    else pure (.sliceType item)
  if !(← close .rBracket) then return ← newType .errorType start
  newType form (← spanFrom start)

/-- A type. Anything that cannot start one is reported and left standing. -/
def type (n : Nat) (g : Grammar) : Parser TypeExpr := do
  match ← kind with
  | .ident _ | .symbol .path =>
    let p ← path n g true
    newType (.pathType p) p.pathSpan
  | .symbol .lParen => parenType n g
  | .symbol .lBracket => bracketType g
  | _ =>
    reportExpected "type"
    newType .errorType (← here)

/-- A type after a colon, if there is one. -/
def typeAfterColon? (g : Grammar) : Parser (Node (.maybe .type)) := do
  if ← acceptSymbol .colon then return .present (← g .type)
  return .absent

/-- A value after an equality sign, if there is one. -/
def defaultValue? (g : Grammar) : Parser (Node (.maybe .expr)) := do
  if ← acceptSymbol .assign then return .present (← g .expr)
  return .absent

/-- Name and form of a generic parameter. -/
def genericForm (g : Grammar) : Parser (Ident × Node .genericForm) := do
  match ← current with
  | ⟨.lifetime name, span⟩ =>
    advance
    return (⟨name, span⟩, .lifetimeGeneric)
  | _ =>
    if ← accept (.keyword .const) then
      let name ← expectIdent
      discard <| expectSymbol .colon
      let type ← g .type
      return (name, .constGeneric type (← defaultValue? g))
    let name ← expectIdent
    return (name, .typeGeneric (← typeAfterColon? g))

/-- A generic parameter. -/
def generic (g : Grammar) : Parser (Node .generic) := do
  let start ← here
  let (name, form) ← genericForm g
  let span ← spanFrom start
  return .generic (← origin span) name form

/-- Generic parameters between angle brackets, if there are any. -/
def generics (n : Nat) (g : Grammar) : Parser (Node (.many .generic)) := do
  if !(← acceptSymbol .lAngle) then return .nil
  skipNewlines
  let (params, _) ← commaList closesAngles skipNewlines (generic g) n false
  closeAngle
  return .ofList params

end FrontEnd.Parse
