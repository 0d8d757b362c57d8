import FrontEnd.Source.Span

/-!
# Names and what they stand for

Every node of a syntax tree has a number of its own. A name in the tree stands for the
declaration with some node number, or for something the language provides. What a name stands
for is kept in a slot of the node that uses it, and a slot is written at most once.
-/

namespace FrontEnd

/-- The number of a node of the syntax tree. -/
structure NodeId where
  /-- Nodes are numbered from zero in the order in which they are completed. -/
  index : Nat
deriving DecidableEq, Inhabited

/-- The text of a node number. -/
def NodeId.text (id : NodeId) : String := "#" ++ toString id.index

/-- A name and where it is written. -/
structure Ident where
  /-- The name itself. -/
  name : String
  /-- The token it was read from. -/
  span : Span
deriving DecidableEq, Inhabited

/-- The kinds of declarations. -/
inductive DeclKind where
  | localVar
  | param
  | func
  | class_
  | struct
  | enum
  | trait
  | typeAlias
  | object
  | field
  | typeParam
  | constParam
deriving DecidableEq, Inhabited

/-- The kind of a declaration in messages. -/
def DeclKind.describe : DeclKind → String
  | localVar => "local variable"
  | param => "parameter"
  | func => "function"
  | class_ => "class"
  | struct => "struct"
  | enum => "enum"
  | trait => "trait"
  | typeAlias => "type alias"
  | object => "object"
  | field => "field"
  | typeParam => "type parameter"
  | constParam => "const parameter"

/-- The label of a kind of declarations in dumps. -/
def DeclKind.label : DeclKind → String
  | localVar => "Local"
  | param => "Param"
  | func => "Func"
  | class_ => "Class"
  | struct => "Struct"
  | enum => "Enum"
  | trait => "Trait"
  | typeAlias => "TypeAlias"
  | object => "Object"
  | field => "Field"
  | typeParam => "TypeParam"
  | constParam => "ConstParam"

/-- What a name stands for. -/
inductive Target where
  /-- A declaration of the program, by the number of its node. -/
  | declared (kind : DeclKind) (id : NodeId)
  /-- A primitive type. -/
  | primitive (name : String)
  /-- A builtin function. -/
  | builtin (name : String)
deriving DecidableEq, Inhabited

/-- The text of a target. -/
def Target.text : Target → String
  | declared kind id => kind.describe ++ " " ++ id.text
  | primitive name => "primitive type `" ++ name ++ "`"
  | builtin name => "builtin `" ++ name ++ "`"

/-- The place of a node that holds what its name stands for. -/
structure Slot where
  /-- The target, once it is known. -/
  target? : Option Target
deriving DecidableEq, Inhabited

/-- A slot before name resolution. -/
def Slot.empty : Slot := ⟨none⟩

end FrontEnd
