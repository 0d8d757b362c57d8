import FrontEnd.Diagnostic.Basic
import FrontEnd.Dump.Leaves
import FrontEnd.Syntax.Tree

/-!
# Dumps of syntax trees and diagnostics
-/

namespace FrontEnd

namespace Dump

/-- A list with one more item in front. -/
def cons (d : Dump) : Dump → Dump
  | list ds => list (d :: ds)
  | other => list [d, other]

/-- A value that wraps one part. -/
def wrap (name : String) (part : Dump) : Dump := tuple name [part]

/-- A variant that holds a record of the same name. -/
def variant (name : String) (fields : List (String × Dump)) : Dump :=
  tuple name [record name fields]

/-- A numbered node. -/
def node (name : String) (o : Origin) (fields : List (String × Dump)) : Dump :=
  record name ([("id", o.id.dump)] ++ fields ++ [("span", o.span.dump)])

/-- The dump of a node. Sequences are lists, and optional parts are wrapped. -/
def ofNode : {c : Category} → Node c → Dump
  | _, .nil => .list []
  | _, .cons n ns => cons (ofNode n) (ofNode ns)
  | _, .absent => .option none
  | _, .present n => .option (some (ofNode n))
  | _, .expr o form => node "Expr" o [("kind", ofNode form)]
  | _, .assign target op value =>
    record "Assign" [("target", ofNode target), ("op", .atom op.label), ("value", ofNode value)]
  | _, .name ident slot => record "Id" [("ident", ident.dump), ("res", slot.dump)]
  | _, .pathExpr path => wrap "Path" (ofNode path)
  | _, .literal l => wrap "Literal" l.dump
  | _, .binary left op right =>
    record "Infix" [("left", ofNode left), ("op", op.dump), ("right", ofNode right)]
  | _, .unary op operand => record "Prefix" [("op", .atom op.label), ("operand", ofNode operand)]
  | _, .suffixed op operand => record "Postfix" [("op", .atom op.label),
      ("operand", ofNode operand)]
  | _, .call callee args => record "Invoke" [("callee", ofNode callee), ("args", ofNode args)]
  | _, .index target indices =>
    record "Subscript" [("target", ofNode target), ("indices", ofNode indices)]
  | _, .member target field safe =>
    record "MemberAccess" [("target", ofNode target), ("field", field.dump), ("safe", .bool safe)]
  | _, .list items => wrap "List" (ofNode items)
  | _, .tuple items => wrap "Tuple" (ofNode items)
  | _, .unit => .atom "Unit"
  | _, .construct path fields => record "Struct" [("path", ofNode path), ("fields", ofNode fields)]
  | _, .blockExpr block => wrap "Block" (ofNode block)
  | _, .cond condition positive negative =>
    record "If" [("cond", ofNode condition), ("then_block", ofNode positive),
      ("else_branch", ofNode negative)]
  | _, .loop body => wrap "Loop" (ofNode body)
  | _, .select subject entries =>
    record "When" [("subject", ofNode subject), ("entries", ofNode entries)]
  | _, .lambda params result body =>
    record "Lambda" [("params", ofNode params), ("ret", ofNode result), ("body", ofNode body)]
  | _, .break_ value => wrap "Break" (ofNode value)
  | _, .continue_ => .atom "Continue"
  | _, .return_ value => wrap "Return" (ofNode value)
  | _, .throw value => wrap "Throw" (ofNode value)
  | _, .tryCatch body handler => record "TryCatch" [("body", ofNode body),
      ("catch", ofNode handler)]
  | _, .paren inner => wrap "Paren" (ofNode inner)
  | _, .spread inner => wrap "Spread" (ofNode inner)
  | _, .cast inner type safe =>
    record "Cast" [("expr", ofNode inner), ("ty", ofNode type), ("safe", .bool safe)]
  | _, .this_ => .atom "This"
  | _, .super => .atom "Super"
  | _, .errorExpr => .atom "Error"
  | _, .path global segments span slot =>
    record "PathExpr" [("global", .bool global), ("segments", ofNode segments),
      ("span", span.dump), ("res", slot.dump)]
  | _, .segment ident generics =>
    record "PathSeg" [("ident", ident.dump), ("generics", ofNode generics)]
  | _, .argument name? value span =>
    record "NamedElement" [("name", .option (name?.map Ident.dump)), ("value", ofNode value),
      ("span", span.dump)]
  | _, .namedField name value => record "Raw" [("name", name.dump), ("value", ofNode value)]
  | _, .shorthandField value => wrap "Shortcut" (ofNode value)
  | _, .baseField value => wrap "Base" (ofNode value)
  | _, .block o stmts => node "Block" o [("stmts", ofNode stmts)]
  | _, .selectEntry o conditions body =>
    node "WhenEntry" o [("conditions", ofNode conditions), ("body", ofNode body)]
  | _, .lambdaParam id name type =>
    record "LambdaParam" [("id", id.dump), ("name", name.dump), ("ty", ofNode type)]
  | _, .handler id binding body =>
    record "CatchClause" [("id", id.dump), ("binding", binding.dump), ("body", ofNode body)]
  | _, .type o form => node "Type" o [("kind", ofNode form)]
  | _, .pathType path => wrap "Path" (ofNode path)
  | _, .tupleType items => wrap "Tuple" (ofNode items)
  | _, .funcType params result => record "Func" [("params", ofNode params), ("ret", ofNode result)]
  | _, .arrayType item size => record "Array" [("elem", ofNode item), ("size", ofNode size)]
  | _, .sliceType item => wrap "Slice" (ofNode item)
  | _, .parenType inner => wrap "Paren" (ofNode inner)
  | _, .unitType => .atom "Unit"
  | _, .errorType => .atom "Error"
  | _, .stmt o form => node "Stmt" o [("kind", ofNode form)]
  | _, .exprStmt expr => wrap "Expr" (ofNode expr)
  | _, .varStmt kind name type init =>
    variant "VarDecl" [("kind", .atom kind.label), ("name", name.dump), ("ty", ofNode type),
      ("init", ofNode init)]
  | _, .forStmt binding source body =>
    record "For" [("binding", binding.dump), ("iter", ofNode source), ("body", ofNode body)]
  | _, .whileStmt condition body =>
    record "While" [("cond", ofNode condition), ("body", ofNode body)]
  | _, .itemStmt item => wrap "Item" (ofNode item)
  | _, .errorStmt => .atom "Error"
  | _, .item o attrs modifiers form =>
    node "Item" o [("attrs", ofNode attrs), ("modifiers", .list (modifiers.map (.atom ·.label))),
      ("kind", ofNode form)]
  | _, .funcItem name generics params result body =>
    variant "Func" [("name", name.dump), ("generics", ofNode generics), ("params", ofNode params),
      ("ret", ofNode result), ("body", ofNode body)]
  | _, .classItem isStruct name generics supers members =>
    variant "Class" [("name", name.dump), ("is_struct", .bool isStruct),
      ("generics", ofNode generics), ("supers", ofNode supers), ("members", ofNode members)]
  | _, .enumItem name generics entries members =>
    variant "Enum" [("name", name.dump), ("generics", ofNode generics), ("entries", ofNode entries),
      ("members", ofNode members)]
  | _, .traitItem name generics supers members =>
    variant "Trait" [("name", name.dump), ("generics", ofNode generics), ("supers", ofNode supers),
      ("members", ofNode members)]
  | _, .aliasItem name generics type =>
    variant "TypeAlias" [("name", name.dump), ("generics", ofNode generics), ("ty", ofNode type)]
  | _, .objectItem name supers members =>
    variant "Object" [("name", name.dump), ("supers", ofNode supers), ("members", ofNode members)]
  | _, .fieldItem kind? name type default =>
    variant "Field" [("kind", .option (kind?.map (.atom ·.label))), ("name", name.dump),
      ("ty", ofNode type), ("default", ofNode default)]
  | _, .initItem params body => variant "Init" [("params", ofNode params), ("body", ofNode body)]
  | _, .attr name args span =>
    record "Attr" [("name", name.dump), ("args", ofNode args), ("span", span.dump)]
  | _, .blockBody block => wrap "Block" (ofNode block)
  | _, .exprBody expr => wrap "Expr" (ofNode expr)
  | _, .param o name type default =>
    node "Param" o [("name", name.dump), ("ty", ofNode type), ("default", ofNode default)]
  | _, .generic o name form => node "TypeParam" o [("name", name.dump), ("kind", ofNode form)]
  | _, .typeGeneric bound => record "Type" [("bound", ofNode bound)]
  | _, .lifetimeGeneric => .atom "Lifetime"
  | _, .constGeneric type default =>
    record "Const" [("ty", ofNode type), ("default", ofNode default)]
  | _, .enumEntry o name form => node "EnumEntry" o [("name", name.dump), ("kind", ofNode form)]
  | _, .bareEntry => .atom "Raw"
  | _, .valueEntry value => wrap "Discriminant" (ofNode value)
  | _, .tupleEntry types => wrap "Tuple" (ofNode types)
  | _, .structEntry fields => wrap "Struct" (ofNode fields)
  | _, .entryField name type => .tuple "" [name.dump, ofNode type]
termination_by structural _ n => n

end Dump

/-- The dump of a node. -/
def Node.dump {c : Category} (n : Node c) : Dump := Dump.ofNode n

/-- The label of a severity in dumps. -/
def Severity.dumpLabel : Severity → String
  | error => "Error"
  | warning => "Warn"

/-- The dump of a diagnostic. -/
def Diagnostic.dump : Diagnostic → Dump
  | message severity text span =>
    .record "Msg" [("kind", .atom severity.dumpLabel), ("message", .string text),
      ("span", span.dump)]
  | linked severity text span linkText link =>
    .record "MsgSpanLink" [("kind", .atom severity.dumpLabel), ("span_msg", .string text),
      ("span", span.dump), ("link_msg", .string linkText), ("link", link.dump)]
  | helped inner help => .record "Help" [("inner", inner.dump), ("help", .string help)]

end FrontEnd
