import FrontEnd.Grammar.Expr
import FrontEnd.Grammar.Recovery

/-!
# Declarations

A declaration is preceded by attributes and modifiers. The members of a class, struct, trait,
object or enumeration are fields and declarations; one that cannot be read is dropped.
-/

namespace FrontEnd.Parse

/-- An attribute. -/
def attr (n : Nat) (g : Grammar) : Parser (Node .attr) := do
  let start ← here
  advance
  let name ← expectIdent
  let args ← if ← acceptSymbol .lParen then
      openGroup true
      let args ← arguments n g
      closeStrict .rParen
      pure args
    else pure .nil
  return .attr name args (← spanFrom start)

/-- The attributes in front of a declaration. -/
def attrs (bound : Nat) (g : Grammar) : Nat → Parser (List (Node .attr))
  | 0 => stalled
  | n + 1 => do
    if !(← atSymbol .at_) then return []
    let x ← attr bound g
    skipTerminators
    return x :: (← attrs bound g n)

/-- The modifiers in front of a declaration. -/
def modifiers : Nat → Parser (List Modifier)
  | 0 => stalled
  | n + 1 => do
    match Modifier.ofToken? (← kind) with
    | some m =>
      advance
      return m :: (← modifiers n)
    | none => return []

/-- A parameter of a function. -/
def param (g : Grammar) : Parser (Node .param) := do
  let start ← here
  let name ← expectIdent
  discard <| expectSymbol .colon
  let type ← g .type
  let default ← defaultValue? g
  let span ← spanFrom start
  return .param (← origin span) name type default

/-- The parameters of a function between parentheses. -/
def params (n : Nat) (g : Grammar) : Parser (Node (.many .param)) := do
  discard <| expectSymbol .lParen
  openGroup true
  let ps ← commaListTo n .rParen (param g)
  closeStrict .rParen
  return .ofList ps

/-- The body of a function, if it has one. -/
def funcBody? (g : Grammar) : Parser (Node (.maybe .funcBody)) := do
  match ← kind with
  | .symbol .lBrace => return .present (.blockBody (← block g))
  | .symbol .doubleArrow =>
    advance
    skipNewlines
    return .present (.exprBody (← g .expr))
  | _ => return .absent

/-- A function. -/
def func (n : Nat) (g : Grammar) : Parser ItemForm := do
  discard <| expectKeyword .func
  let name ← expectIdent
  let generics ← generics n g
  let params ← params n g
  let result ← typeAfterColon? g
  return .funcItem name generics params result (← funcBody? g)

/-- Supertypes, given the text after the colon or a comma. -/
def superTypes (g : Grammar) : Nat → Parser (List TypeExpr)
  | 0 => stalled
  | n + 1 => do
    skipNewlines
    let t ← g .type
    if !(← acceptSymbol .comma) then return [t]
    return t :: (← superTypes g n)

/-- The supertypes of a declaration, if it has any. -/
def supers (n : Nat) (g : Grammar) : Parser (Node (.many .type)) := do
  if !(← acceptSymbol .colon) then return .nil
  return .ofList (← superTypes g n)

/-- Members between braces. -/
def memberBlock (g : Grammar) (inClass : Bool) : Parser (Node (.many .item)) := do
  discard <| expectSymbol .lBrace
  openGroup false
  let members ← g (.members inClass)
  closeStrict .rBrace
  return members

/-- A class or struct; only classes have supertypes. -/
def classDecl (n : Nat) (g : Grammar) : Parser ItemForm := do
  let isStruct ← at? (.keyword .struct)
  advance
  let name ← expectIdent
  let generics ← generics n g
  let supers ← if isStruct then pure .nil else supers n g
  return .classItem isStruct name generics supers (← memberBlock g true)

/-- A trait. -/
def traitDecl (n : Nat) (g : Grammar) : Parser ItemForm := do
  discard <| expectKeyword .trait
  let name ← expectIdent
  let generics ← generics n g
  let supers ← supers n g
  return .traitItem name generics supers (← memberBlock g false)

/-- An object. -/
def objectDecl (n : Nat) (g : Grammar) : Parser ItemForm := do
  discard <| expectKeyword .object
  let name ← expectIdent
  let supers ← supers n g
  return .objectItem name supers (← memberBlock g false)

/-- A second name for a type. -/
def aliasDecl (n : Nat) (g : Grammar) : Parser ItemForm := do
  discard <| expectKeyword .type
  let name ← expectIdent
  let generics ← generics n g
  discard <| expectSymbol .assign
  skipNewlines
  return .aliasItem name generics (← g .type)

/-- A constructor. -/
def initDecl (n : Nat) (g : Grammar) : Parser ItemForm := do
  discard <| expectKeyword .init
  let params ← params n g
  return .initItem params (← block g)

/-- A named value of an entry of an enumeration. -/
def entryField (g : Grammar) : Parser (Node .entryField) := do
  let name ← expectIdent
  discard <| expectSymbol .colon
  return .entryField name (← g .type)

/-- What an entry of an enumeration holds. -/
def enumEntryForm (n : Nat) (g : Grammar) : Parser (Node .enumEntryForm) := do
  match ← kind with
  | .symbol .assign =>
    advance
    return .valueEntry (← g .expr)
  | .symbol .lParen =>
    advance
    openGroup true
    let types ← commaListTo n .rParen (g .type)
    closeStrict .rParen
    return .tupleEntry (.ofList types)
  | .symbol .lBrace =>
    advance
    openGroup true
    let fields ← commaListTo n .rBrace (entryField g)
    closeStrict .rBrace
    return .structEntry (.ofList fields)
  | _ => return .bareEntry

/-- An entry of an enumeration. -/
def enumEntry (n : Nat) (g : Grammar) : Parser (Node .enumEntry) := do
  let start ← here
  let name ← expectIdent
  let form ← enumEntryForm n g
  let span ← spanFrom start
  return .enumEntry (← origin span) name form

/-- Commas and line breaks, which separate the entries of an enumeration. -/
def separatesEntries (k : TokenKind) : Bool := k = .symbol .comma ∨ k = .newline

/-- The entries of an enumeration. -/
def enumEntries (bound : Nat) (g : Grammar) : Nat → Parser (List (Node .enumEntry))
  | 0 => stalled
  | n + 1 => do
    if !(← kind).isIdent then return []
    let entry ← enumEntry bound g
    if !separatesEntries (← kind) then return [entry]
    modify (ParserState.skipWhile separatesEntries)
    return entry :: (← enumEntries bound g n)

/-- An enumeration; a semicolon separates its entries from its members. -/
def enumDecl (n : Nat) (g : Grammar) : Parser ItemForm := do
  discard <| expectKeyword .enum
  let name ← expectIdent
  let generics ← generics n g
  discard <| expectSymbol .lBrace
  openGroup false
  skipSeparators
  let entries ← enumEntries n g n
  let members ← if ← acceptSymbol .semi then g (.members false) else pure .nil
  closeGroup
  skipTerminators
  discard <| expectSymbol .rBrace
  return .enumItem name generics (.ofList entries) members

/-- The declaration after attributes and modifiers. -/
def itemForm (n : Nat) (g : Grammar) (inClass : Bool) : Parser ItemForm := do
  match ← kind with
  | .keyword .func => func n g
  | .keyword .class_ | .keyword .struct => classDecl n g
  | .keyword .enum => enumDecl n g
  | .keyword .trait => traitDecl n g
  | .keyword .type => aliasDecl n g
  | .keyword .object => objectDecl n g
  | .keyword .init =>
    if !inClass then record ⟨.misplacedInit, ← here⟩
    initDecl n g
  | _ => failExpected "declaration after attributes or modifiers"

/-- A declaration with attributes and modifiers, which come after those already read. -/
def itemAfter (n : Nat) (g : Grammar) (inClass : Bool) (start : Span)
    (earlierAttrs : List (Node .attr)) (earlierModifiers : List Modifier) : Parser Item := do
  let attrs ← attrs n g n
  let modifiers ← modifiers n
  let form ← itemForm n g inClass
  return .item ⟨← freshId, ← spanFrom start⟩ (.ofList (earlierAttrs ++ attrs))
    (earlierModifiers ++ modifiers) form

/-- A declaration. -/
def item (n : Nat) (g : Grammar) : Parser Item := do itemAfter n g false (← here) [] []

/-- A field of a class, struct, enumeration, trait or object. -/
def field (g : Grammar) : Parser ItemForm := do
  let kind? := VarKind.ofToken? (← kind)
  if kind?.isSome then advance
  let name ← expectIdent
  discard <| expectSymbol .colon
  skipNewlines
  let type ← g .type
  let default ← if ← acceptSymbol .assign then
      skipNewlines
      pure (.present (← g .expr))
    else pure .absent
  return .fieldItem kind? name type default

/-- A field or declaration inside another declaration. -/
def member (n : Nat) (g : Grammar) (inClass : Bool) : Parser Item := do
  let start ← here
  let attrs ← attrs n g n
  let modifiers ← modifiers n
  let k ← kind
  if k.isIdent ∨ (VarKind.ofToken? k).isSome then
    let form ← field g
    let span ← spanFrom start
    return .item (← origin span) (.ofList attrs) modifiers form
  itemAfter n g inClass start attrs modifiers

/-- Members up to a closing brace, which is left standing. -/
def memberList (bound : Nat) (g : Grammar) (inClass : Bool) : Nat → Parser (List Item)
  | 0 => stalled
  | n + 1 => do
    if (← atSymbol .rBrace) ∨ (← atEnd) then return []
    let member? ← recovering (member bound g inClass)
    skipTerminators
    return member?.toList ++ (← memberList bound g inClass n)

/-- Members up to a closing brace, after any terminators. -/
def members (n : Nat) (g : Grammar) (inClass : Bool) : Parser (Node (.many .item)) := do
  skipTerminators
  return .ofList (← memberList n g inClass n)

end FrontEnd.Parse
