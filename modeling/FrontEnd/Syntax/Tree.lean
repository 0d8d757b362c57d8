import FrontEnd.Syntax.Operator

/-!
# Syntax trees

The nodes of a syntax tree form one family, indexed by their category: expressions, types,
statements, declarations and their parts. Sequences and optional parts are categories too, so a
walk over trees is a single recursion and a proof about trees a single induction.

Nodes of the main categories carry their origin, a number and the span of text they were read
from, and hold a form that says what is written. Error forms stand for parts that could not be
read; they occur only next to a reported error. Uses of names carry a slot, empty until names
are resolved.
-/

namespace FrontEnd

/-- The categories of syntax nodes. -/
inductive Category where
  | expr
  | exprForm
  | type
  | typeForm
  | stmt
  | stmtForm
  | item
  | itemForm
  | block
  | path
  | segment
  | argument
  | fieldInit
  | selectEntry
  | lambdaParam
  | handler
  | attr
  | funcBody
  | param
  | generic
  | genericForm
  | enumEntry
  | enumEntryForm
  | entryField
  /-- Sequences of nodes of a category. -/
  | many (c : Category)
  /-- Nodes of a category that may be missing. -/
  | maybe (c : Category)
deriving DecidableEq, Inhabited

/-- The category of the elements of a sequence. -/
def Category.element : Category → Category
  | many c => c
  | c => c

/-- Number and place of a node. -/
structure Origin where
  /-- The number of the node. -/
  id : NodeId
  /-- The text it was read from. -/
  span : Span
deriving DecidableEq, Inhabited

open Category in
/-- The syntax nodes of each category. -/
inductive Node : Category → Type where
  /-- The empty sequence. -/
  | nil {c : Category} : Node (many c)
  /-- A sequence of at least one node. -/
  | cons {c : Category} (head : Node c) (tail : Node (many c)) : Node (many c)
  /-- A part that is not written. -/
  | absent {c : Category} : Node (maybe c)
  /-- An optional part that is written. -/
  | present {c : Category} (node : Node c) : Node (maybe c)
  /-- An expression. -/
  | expr (origin : Origin) (form : Node exprForm) : Node expr
  /-- Plain or compound assignment. -/
  | assign (target : Node expr) (op : AssignOp) (value : Node expr) : Node exprForm
  /-- A single name. -/
  | name (ident : Ident) (slot : Slot) : Node exprForm
  /-- A path of several segments, a global path, or one with type arguments. -/
  | pathExpr (path : Node path) : Node exprForm
  /-- A literal value. -/
  | literal (literal : Literal) : Node exprForm
  /-- A binary operation. -/
  | binary (left : Node expr) (op : BinaryOp) (right : Node expr) : Node exprForm
  /-- An operator in front of its operand. -/
  | unary (op : PrefixOp) (operand : Node expr) : Node exprForm
  /-- An operator behind its operand. -/
  | suffixed (op : PostfixOp) (operand : Node expr) : Node exprForm
  /-- A call with its arguments. -/
  | call (callee : Node expr) (args : Node (many argument)) : Node exprForm
  /-- An access by indices. -/
  | index (target : Node expr) (indices : Node (many expr)) : Node exprForm
  /-- A field; `safe` for the access that passes over a missing target. -/
  | member (target : Node expr) (field : Ident) (safe : Bool) : Node exprForm
  /-- A list of values. -/
  | list (items : Node (many expr)) : Node exprForm
  /-- A tuple, whose elements may have names. -/
  | tuple (items : Node (many argument)) : Node exprForm
  /-- The empty tuple. -/
  | unit : Node exprForm
  /-- A value of a struct, given by its fields. -/
  | construct (path : Node path) (fields : Node (many fieldInit)) : Node exprForm
  /-- A block as an expression. -/
  | blockExpr (block : Node block) : Node exprForm
  /-- A condition; a chained condition is nested in the second branch. -/
  | cond (condition : Node expr) (positive : Node block) (negative : Node (maybe expr)) :
      Node exprForm
  /-- An endless loop. -/
  | loop (body : Node block) : Node exprForm
  /-- A choice between entries by the value of the subject. -/
  | select (subject : Node expr) (entries : Node (many selectEntry)) : Node exprForm
  /-- A function without a name. -/
  | lambda (params : Node (many lambdaParam)) (result : Node (maybe type)) (body : Node expr) :
      Node exprForm
  /-- Leave a loop, perhaps with a value. -/
  | break_ (value : Node (maybe expr)) : Node exprForm
  /-- Go on with the next round of a loop. -/
  | continue_ : Node exprForm
  /-- Leave a function, perhaps with a value. -/
  | return_ (value : Node (maybe expr)) : Node exprForm
  /-- Raise an exception. -/
  | throw (value : Node expr) : Node exprForm
  /-- A block whose exceptions are handled. -/
  | tryCatch (body : Node block) (handler : Node handler) : Node exprForm
  /-- Parentheses around one expression. -/
  | paren (inner : Node expr) : Node exprForm
  /-- The elements of a value, in place of the value. -/
  | spread (inner : Node expr) : Node exprForm
  /-- A cast; `safe` for the one that may fail. -/
  | cast (inner : Node expr) (type : Node type) (safe : Bool) : Node exprForm
  /-- The value a member belongs to. -/
  | this_ : Node exprForm
  /-- The same value, seen as its supertype. -/
  | super : Node exprForm
  /-- An expression that could not be read. -/
  | errorExpr : Node exprForm
  /-- A path of names, global when it starts at the module. -/
  | path (global : Bool) (segments : Node (many segment)) (span : Span) (slot : Slot) : Node path
  /-- A name of a path with its type arguments. -/
  | segment (ident : Ident) (generics : Node (many type)) : Node segment
  /-- An element of an argument list or a tuple, perhaps with a name. -/
  | argument (name? : Option Ident) (value : Node expr) (span : Span) : Node argument
  /-- A field of a struct value with its name. -/
  | namedField (name : Ident) (value : Node expr) : Node fieldInit
  /-- A field of a struct value whose name stands for its value. -/
  | shorthandField (value : Node expr) : Node fieldInit
  /-- The value the remaining fields are taken from. -/
  | baseField (value : Node expr) : Node fieldInit
  /-- Statements between braces. -/
  | block (origin : Origin) (stmts : Node (many stmt)) : Node block
  /-- An entry of a choice; the one without conditions is for all other values. -/
  | selectEntry (origin : Origin) (conditions : Node (many expr)) (body : Node expr) :
      Node selectEntry
  /-- A parameter of a function without a name. -/
  | lambdaParam (id : NodeId) (name : Ident) (type : Node (maybe type)) : Node lambdaParam
  /-- The handler of the exceptions of a block. -/
  | handler (id : NodeId) (binding : Ident) (body : Node block) : Node handler
  /-- A type. -/
  | type (origin : Origin) (form : Node typeForm) : Node type
  /-- A named type. -/
  | pathType (path : Node path) : Node typeForm
  /-- A tuple of types. -/
  | tupleType (items : Node (many type)) : Node typeForm
  /-- The type of functions. -/
  | funcType (params : Node (many type)) (result : Node type) : Node typeForm
  /-- An array of some size. -/
  | arrayType (item : Node type) (size : Node expr) : Node typeForm
  /-- A part of an array. -/
  | sliceType (item : Node type) : Node typeForm
  /-- Parentheses around one type. -/
  | parenType (inner : Node type) : Node typeForm
  /-- The type of the empty tuple. -/
  | unitType : Node typeForm
  /-- A type that could not be read. -/
  | errorType : Node typeForm
  /-- A statement. -/
  | stmt (origin : Origin) (form : Node stmtForm) : Node stmt
  /-- An expression as a statement. -/
  | exprStmt (expr : Node expr) : Node stmtForm
  /-- A variable; the statement is its declaring node. -/
  | varStmt (kind : VarKind) (name : Ident) (type : Node (maybe type))
      (init : Node (maybe expr)) : Node stmtForm
  /-- A loop over the elements of a value. -/
  | forStmt (binding : Ident) (source : Node expr) (body : Node block) : Node stmtForm
  /-- A loop as long as a condition holds. -/
  | whileStmt (condition : Node expr) (body : Node block) : Node stmtForm
  /-- A declaration as a statement. -/
  | itemStmt (item : Node item) : Node stmtForm
  /-- A statement that could not be read. -/
  | errorStmt : Node stmtForm
  /-- A declaration with what stands in front of it. -/
  | item (origin : Origin) (attrs : Node (many attr)) (modifiers : List Modifier)
      (form : Node itemForm) : Node item
  /-- A function; one without a body is only a signature. -/
  | funcItem (name : Ident) (generics : Node (many generic)) (params : Node (many param))
      (result : Node (maybe type)) (body : Node (maybe funcBody)) : Node itemForm
  /-- A class or struct. -/
  | classItem (isStruct : Bool) (name : Ident) (generics : Node (many generic))
      (supers : Node (many type)) (members : Node (many item)) : Node itemForm
  /-- An enumeration. -/
  | enumItem (name : Ident) (generics : Node (many generic)) (entries : Node (many enumEntry))
      (members : Node (many item)) : Node itemForm
  /-- A trait. -/
  | traitItem (name : Ident) (generics : Node (many generic)) (supers : Node (many type))
      (members : Node (many item)) : Node itemForm
  /-- A second name for a type. -/
  | aliasItem (name : Ident) (generics : Node (many generic)) (type : Node type) : Node itemForm
  /-- The single value of a type of its own. -/
  | objectItem (name : Ident) (supers : Node (many type)) (members : Node (many item)) :
      Node itemForm
  /-- A field of a class, struct, enumeration, trait or object. -/
  | fieldItem (kind? : Option VarKind) (name : Ident) (type : Node type)
      (default : Node (maybe expr)) : Node itemForm
  /-- A constructor. -/
  | initItem (params : Node (many param)) (body : Node block) : Node itemForm
  /-- An attribute with its arguments. -/
  | attr (name : Ident) (args : Node (many argument)) (span : Span) : Node attr
  /-- A function body between braces. -/
  | blockBody (block : Node block) : Node funcBody
  /-- A function body that is one expression. -/
  | exprBody (expr : Node expr) : Node funcBody
  /-- A parameter of a function. -/
  | param (origin : Origin) (name : Ident) (type : Node type) (default : Node (maybe expr)) :
      Node param
  /-- A generic parameter. -/
  | generic (origin : Origin) (name : Ident) (form : Node genericForm) : Node generic
  /-- A parameter for types, perhaps with a bound. -/
  | typeGeneric (bound : Node (maybe type)) : Node genericForm
  /-- A parameter for lifetimes. -/
  | lifetimeGeneric : Node genericForm
  /-- A parameter for values. -/
  | constGeneric (type : Node type) (default : Node (maybe expr)) : Node genericForm
  /-- An entry of an enumeration. -/
  | enumEntry (origin : Origin) (name : Ident) (form : Node enumEntryForm) : Node enumEntry
  /-- An entry that is only a name. -/
  | bareEntry : Node enumEntryForm
  /-- An entry with its number. -/
  | valueEntry (value : Node expr) : Node enumEntryForm
  /-- An entry that holds values by position. -/
  | tupleEntry (types : Node (many type)) : Node enumEntryForm
  /-- An entry that holds values by name. -/
  | structEntry (fields : Node (many entryField)) : Node enumEntryForm
  /-- A named value of an entry. -/
  | entryField (name : Ident) (type : Node type) : Node entryField

/-- Expressions. -/
abbrev Expr := Node .expr

/-- What an expression says. -/
abbrev ExprForm := Node .exprForm

/-- Types. -/
abbrev TypeExpr := Node .type

/-- What a type says. -/
abbrev TypeForm := Node .typeForm

/-- Statements. -/
abbrev Stmt := Node .stmt

/-- What a statement says. -/
abbrev StmtForm := Node .stmtForm

/-- Declarations. -/
abbrev Item := Node .item

/-- What a declaration says. -/
abbrev ItemForm := Node .itemForm

/-- Statements between braces. -/
abbrev Block := Node .block

/-- Paths of names. -/
abbrev Path := Node .path

namespace Node

/-- The sequence of some nodes. -/
def ofList {c : Category} : List (Node c) → Node (.many c)
  | [] => nil
  | n :: ns => cons n (ofList ns)

/-- The nodes of a sequence; other nodes are no sequences and have none. -/
def elements : {c : Category} → Node c → List (Node c.element)
  | _, cons n ns => n :: ns.elements
  | _, _ => []

/-- The nodes of a sequence. -/
def toList {c : Category} (ns : Node (.many c)) : List (Node c) := ns.elements

/-- An optional part. -/
def ofOption {c : Category} : Option (Node c) → Node (.maybe c)
  | none => absent
  | some n => present n

/-- The node of an optional part. -/
def toOption {c : Category} : Node (.maybe c) → Option (Node c)
  | absent => none
  | present n => some n

/-- Reading a sequence back gives its nodes. -/
@[simp] theorem toList_ofList {c : Category} (ns : List (Node c)) : (ofList ns).toList = ns := by
  induction ns with
  | nil => rfl
  | cons n ns ih => exact congrArg (n :: ·) ih

/-- Reading an optional part back gives its node. -/
@[simp] theorem toOption_ofOption {c : Category} (n : Option (Node c)) :
    (ofOption n).toOption = n := by
  cases n <;> rfl

/-- The span of an expression. -/
def span : Expr → Span
  | expr origin _ => origin.span

/-- What an expression says. -/
def form : Expr → ExprForm
  | expr _ form => form

/-- The span of a type. -/
def typeSpan : TypeExpr → Span
  | type origin _ => origin.span

/-- The number of a statement. -/
def stmtId : Stmt → NodeId
  | stmt origin _ => origin.id

/-- The span of a path. -/
def pathSpan : Path → Span
  | path _ _ span _ => span

/-- The names of a path with their separators. -/
def pathText : Path → String
  | path global segments _ _ =>
    (if global then "::" else "")
      ++ "::".intercalate (segments.toList.map fun | segment ident _ => ident.name)

/-- The name of a segment without type arguments. -/
def plainName? : Node .segment → Option Ident
  | segment ident generics => if generics.toList.isEmpty then some ident else none

/-- The name of a path that is one local name without type arguments. -/
def simpleName? : Path → Option Ident
  | path global segments _ _ =>
    match global, segments.toList with
    | false, [s] => s.plainName?
    | _, _ => none

/-- Whether an entry of a choice is the one for all other values. -/
def isElse : Node .selectEntry → Bool
  | selectEntry _ conditions _ => conditions.toList.isEmpty

/-- The name a declaration declares; constructors have none. -/
def itemName? : ItemForm → Option Ident
  | funcItem n .. => some n
  | classItem _ n .. => some n
  | enumItem n .. => some n
  | traitItem n .. => some n
  | aliasItem n .. => some n
  | objectItem n .. => some n
  | fieldItem _ n .. => some n
  | initItem .. => none

end Node

end FrontEnd
