import FrontEnd.Dump.Value
import FrontEnd.Syntax.Operator

/-!
# Dumps of positions, names and tokens
-/

namespace FrontEnd

/-- The dump of a file number. -/
def FileId.dump (f : FileId) : Dump := .tuple "FileId" [.nat f.index]

/-- The dump of a span. -/
def Span.dump (s : Span) : Dump :=
  .record "Span" [("pos", .nat s.pos), ("len", .nat s.len), ("file", s.file.dump)]

/-- The dump of a node number. -/
def NodeId.dump (id : NodeId) : Dump := .tuple "NodeId" [.nat id.index]

/-- The dump of a name. -/
def Ident.dump (i : Ident) : Dump :=
  .record "Ident" [("name", .string i.name), ("span", i.span.dump)]

/-- The dump of what a name stands for. -/
def Target.dump : Target → Dump
  | declared kind id => .tuple "Def" [.atom kind.label, id.dump]
  | primitive name => .tuple "PrimType" [.string name]
  | builtin name => .tuple "Builtin" [.string name]

/-- The dump of a slot. -/
def Slot.dump (s : Slot) : Dump :=
  .tuple "ResSlot" [.tuple "OnceCell" [(s.target?.map Target.dump).getD (.atom "<uninit>")]]

/-- The dump of a token kind. -/
def TokenKind.dump (k : TokenKind) : Dump :=
  match k with
  | literal _ lexeme => .tuple k.label [.string lexeme]
  | ident name => .tuple k.label [.string name]
  | lifetime name => .tuple k.label [.string name]
  | _ => .atom k.label

/-- The dump of a literal. -/
def Literal.dump (l : Literal) : Dump :=
  .record "Literal" [("kind", .atom l.kind.label), ("value", .string l.value)]

/-- The label of a binary operator in dumps. -/
def BinaryOp.label : BinaryOp → String
  | pipe => "Pipe"
  | or => "Or"
  | and => "And"
  | bitOr => "BitOr"
  | xor => "Xor"
  | bitAnd => "BitAnd"
  | eq => "Eq"
  | notEq => "NotEq"
  | refEq => "RefEq"
  | refNotEq => "RefNotEq"
  | lt => "Lt"
  | gt => "Gt"
  | le => "Le"
  | ge => "Ge"
  | spaceship => "Spaceship"
  | is => "Is"
  | notIs => "NotIs"
  | in_ => "In"
  | notIn => "NotIn"
  | nullCoalesce => "NullCoalesce"
  | shl => "Shl"
  | shr => "Shr"
  | custom _ => "Custom"
  | range => "Range"
  | rangeRightOpen => "RangeRE"
  | rangeInclusive => "RangeInc"
  | rangeLeftOpen => "RangeLE"
  | rangeOpen => "RangeBothE"
  | add => "Add"
  | sub => "Sub"
  | mul => "Mul"
  | div => "Div"
  | mod => "Mod"
  | power => "Power"

/-- The dump of a binary operator. -/
def BinaryOp.dump (op : BinaryOp) : Dump :=
  match op with
  | custom ident => .tuple op.label [ident.dump]
  | _ => .atom op.label

end FrontEnd
