import FrontEnd.Syntax.Name
import FrontEnd.Token.Basic

/-!
# Operators, literals and modifiers

The leaves of the syntax tree other than names.
-/

namespace FrontEnd

/-- Binary operators. -/
inductive BinaryOp where
  | pipe
  | or
  | and
  | bitOr
  | xor
  | bitAnd
  | eq
  | notEq
  | refEq
  | refNotEq
  | lt
  | gt
  | le
  | ge
  | spaceship
  | is
  | notIs
  | in_
  | notIn
  | nullCoalesce
  | shl
  | shr
  /-- A name between two operands. -/
  | custom (ident : Ident)
  | range
  | rangeRightOpen
  | rangeInclusive
  | rangeLeftOpen
  | rangeOpen
  | add
  | sub
  | mul
  | div
  | mod
  | power
deriving DecidableEq, Inhabited

/-- The token a binary operator is written with. -/
def BinaryOp.token : BinaryOp → TokenKind
  | pipe => .symbol .pipe
  | or => .symbol .or
  | and => .symbol .and
  | bitOr => .symbol .bitOr
  | xor => .symbol .xor
  | bitAnd => .symbol .ampersand
  | eq => .symbol .eq
  | notEq => .symbol .notEq
  | refEq => .symbol .refEq
  | refNotEq => .symbol .refNotEq
  | lt => .symbol .lAngle
  | gt => .symbol .rAngle
  | le => .symbol .le
  | ge => .symbol .ge
  | spaceship => .symbol .spaceship
  | is => .keyword .is
  | notIs => .symbol .notIs
  | in_ => .keyword .in_
  | notIn => .symbol .notIn
  | nullCoalesce => .symbol .nullCoalesce
  | shl => .symbol .shl
  | shr => .symbol .shr
  | custom ident => .ident ident.name
  | range => .symbol .range
  | rangeRightOpen => .symbol .rangeRightOpen
  | rangeInclusive => .symbol .rangeInclusive
  | rangeLeftOpen => .symbol .rangeLeftOpen
  | rangeOpen => .symbol .rangeOpen
  | add => .symbol .add
  | sub => .symbol .sub
  | mul => .symbol .mul
  | div => .symbol .div
  | mod => .symbol .mod
  | power => .symbol .power

/-- How a binary operator is written. -/
def BinaryOp.spelling (op : BinaryOp) : String := op.token.text

/-- Plain assignment and the operators it is combined with. -/
inductive AssignOp where
  | assign
  | add
  | sub
  | mul
  | div
  | mod
  | power
  | shl
  | shr
  | bitAnd
  | bitOr
  | xor
  | nullish
deriving DecidableEq, Inhabited

/-- The assignment operator of a token. -/
def AssignOp.ofToken? : TokenKind → Option AssignOp
  | .symbol .assign => some assign
  | .symbol .addAssign => some add
  | .symbol .subAssign => some sub
  | .symbol .mulAssign => some mul
  | .symbol .divAssign => some div
  | .symbol .modAssign => some mod
  | .symbol .powerAssign => some power
  | .symbol .shlAssign => some shl
  | .symbol .shrAssign => some shr
  | .symbol .bitAndAssign => some bitAnd
  | .symbol .bitOrAssign => some bitOr
  | .symbol .xorAssign => some xor
  | .symbol .nullishAssign => some nullish
  | _ => none

/-- The label of an assignment operator in dumps. -/
def AssignOp.label : AssignOp → String
  | assign => "Assign"
  | add => "Add"
  | sub => "Sub"
  | mul => "Mul"
  | div => "Div"
  | mod => "Mod"
  | power => "Power"
  | shl => "Shl"
  | shr => "Shr"
  | bitAnd => "BitAnd"
  | bitOr => "BitOr"
  | xor => "Xor"
  | nullish => "Nullish"

/-- Operators in front of their operand. -/
inductive PrefixOp where
  | neg
  | not
  | inv
  | borrow
  | borrowMut
  | deref
  | inc
  | dec
deriving DecidableEq, Inhabited

/-- The label of an operator in front of its operand in dumps. -/
def PrefixOp.label : PrefixOp → String
  | neg => "Neg"
  | not => "Not"
  | inv => "Inv"
  | borrow => "Borrow"
  | borrowMut => "BorrowMut"
  | deref => "Deref"
  | inc => "Inc"
  | dec => "Dec"

/-- Operators behind their operand. -/
inductive PostfixOp where
  | inc
  | dec
  | quest
deriving DecidableEq, Inhabited

/-- The operator behind its operand that a token stands for. -/
def PostfixOp.ofToken? : TokenKind → Option PostfixOp
  | .symbol .inc => some inc
  | .symbol .dec => some dec
  | .symbol .quest => some quest
  | _ => none

/-- The label of an operator behind its operand in dumps. -/
def PostfixOp.label : PostfixOp → String
  | inc => "Inc"
  | dec => "Dec"
  | quest => "Quest"

/-- The kinds of literals: the literal tokens and the two truth values. -/
inductive LiteralKind where
  | form (form : LiteralForm)
  | bool
deriving DecidableEq, Inhabited

/-- The label of a kind of literals in dumps. -/
def LiteralKind.label : LiteralKind → String
  | form .decimal => "Dec"
  | form .binary => "Bin"
  | form .octal => "Oct"
  | form .hexadecimal => "Hex"
  | form .float => "Float"
  | form .single => "SQString"
  | form .double => "DQString"
  | bool => "Bool"

/-- A literal with its lexeme. -/
structure Literal where
  /-- What kind of literal it is. -/
  kind : LiteralKind
  /-- Its lexeme; strings stand without their quotes. -/
  value : String
deriving DecidableEq, Inhabited

/-- The literal of a token. -/
def Literal.ofToken? : TokenKind → Option Literal
  | .literal form lexeme => some ⟨.form form, lexeme⟩
  | .keyword .true_ => some ⟨.bool, "true"⟩
  | .keyword .false_ => some ⟨.bool, "false"⟩
  | _ => none

/-- Whether a variable can be assigned again. -/
inductive VarKind where
  | var
  | val
deriving DecidableEq, Inhabited

/-- The label of a kind of variables in dumps. -/
def VarKind.label : VarKind → String
  | var => "Var"
  | val => "Val"

/-- The kind of variables a keyword declares. -/
def VarKind.ofToken? : TokenKind → Option VarKind
  | .keyword .var => some var
  | .keyword .val => some val
  | _ => none

/-- Words in front of a declaration. -/
inductive Modifier where
  | pub
  | pri
  | static
  | mutable
  | move
  | const
  /-- The function may be used as a custom operator. -/
  | infixFn
deriving DecidableEq, Inhabited

/-- The modifier of a token. -/
def Modifier.ofToken? : TokenKind → Option Modifier
  | .keyword .pub => some pub
  | .keyword .pri => some pri
  | .keyword .static => some static
  | .keyword .mut_ => some mutable
  | .keyword .move => some move
  | .keyword .const => some const
  | .keyword .infix_ => some infixFn
  | _ => none

/-- The label of a modifier in dumps. -/
def Modifier.label : Modifier → String
  | pub => "Pub"
  | pri => "Pri"
  | static => "Static"
  | mutable => "Mut"
  | move => "Move"
  | const => "Const"
  | infixFn => "Infix"

end FrontEnd
