import FrontEnd.Diagnostic.Similar
import FrontEnd.Scope.Error
import FrontEnd.Scope.Stack
import FrontEnd.Syntax.Tree

/-!
# Name resolution

The walk over a module binds every name and path to the declaration it stands for: it fills the
slots of the tree and keeps a table of what it filled in. The declarations of a statement list
or a member list are in sight in all of it; variables, parameters and generic parameters only
from their declaration on. Only the first name of a path is bound, and fields of values are left
to a stage that knows types. Arguments of attributes are not walked.
-/

namespace FrontEnd

/-- The state of the walk. -/
structure ResolveState where
  /-- The scopes around the place at hand. -/
  scopes : ScopeStack
  /-- The nodes bound so far with their targets, in the order of the walk. -/
  table : List (NodeId × Target)
  /-- The errors found so far, oldest first. -/
  errors : List ResolveError

/-- A step of the walk. Only a defect stops it. -/
abbrev Resolver := EStateM Defect ResolveState

namespace Resolve

/-- The state before the walk. -/
def start : ResolveState := ⟨.start, [], []⟩

/-- Report an error. -/
def report (problem : ResolveProblem) (span : Span) : Resolver Unit :=
  modify fun s => { s with errors := s.errors ++ [⟨problem, span⟩] }

/-- The outcome of a step that may reveal a defect. -/
def check {α : Type} : Except Defect α → Resolver α
  | .ok a => pure a
  | .error d => throw d

/-- Walk the inside of a construct. -/
def inScope {α : Type} (kind : ScopeKind) (inside : Resolver α) : Resolver α := do
  modify fun s => { s with scopes := s.scopes.enter kind }
  let a ← inside
  let (_, outer) ← check (← get).scopes.exit
  modify fun s => { s with scopes := outer }
  return a

/-- Declare a name in the innermost scope. A name that is already there is reported. -/
def define (ns : Namespace) (ident : Ident) (kind : DeclKind) (id : NodeId) : Resolver Unit := do
  match (← get).scopes.define ns ident.name ⟨.declared kind id, some ident.span⟩ with
  | .ok scopes => modify fun s => { s with scopes := scopes }
  | .error previous => report (.redeclared ident.name previous.span?) ident.span

/-- Where and as what a declaration declares its name. -/
def itemDecl? : ItemForm → Option (Namespace × DeclKind × Ident)
  | .funcItem name .. => some (.value, .func, name)
  | .classItem true name .. => some (.type, .struct, name)
  | .classItem false name .. => some (.type, .class_, name)
  | .enumItem name .. => some (.type, .enum, name)
  | .traitItem name .. => some (.type, .trait, name)
  | .aliasItem name .. => some (.type, .typeAlias, name)
  | .objectItem name .. => some (.type, .object, name)
  | .fieldItem _ name .. => some (.value, .field, name)
  | .initItem .. => none

/-- Declare the name of a declaration. -/
def declareItem : Item → Resolver Unit
  | .item origin _ _ form =>
    match itemDecl? form with
    | some (ns, kind, name) => define ns name kind origin.id
    | none => pure ()

/-- Declare the name of a declaration among other statements. -/
def declareStmt : Stmt → Resolver Unit
  | .stmt _ (.itemStmt item) => declareItem item
  | .stmt _ _ => pure ()

/-- Declare the name of a generic parameter. Nothing can refer to a lifetime. -/
def declareGeneric (name : Ident) (id : NodeId) : Node .genericForm → Resolver Unit
  | .typeGeneric _ => define .type name .typeParam id
  | .constGeneric _ _ => define .value name .constParam id
  | .lifetimeGeneric => pure ()

/-- What a name stands for: the namespaces of its use are searched in order, each through all
scopes, or only in the module and the prelude for a global path. -/
def find? (scopes : ScopeStack) (use : NameUse) (global : Bool) (name : String) : Option Target :=
  use.namespaces.findSome? fun ns =>
    (if global then scopes.lookupGlobal ns name else scopes.lookup ns name).map (·.target)

/-- Bind a name: fill the slot of its node and enter the node in the table, or report that the
name is not in sight. -/
def bindName (use : NameUse) (global : Bool) (owner : NodeId) (ident : Ident) (slot : Slot) :
    Resolver Slot := do
  let scopes := (← get).scopes
  match find? scopes use global ident.name with
  | some target =>
    let filled ← check (slot.set target)
    modify fun s => { s with table := s.table ++ [(owner, target)] }
    return filled
  | none =>
    let similar? := didYouMean ident.name (scopes.visibleNames use.namespaces)
    report (.unresolved use ident.name similar?) ident.span
    return slot

/-- The first name of a path. -/
def firstName (segments : Node (.many .segment)) (span : Span) : Resolver Ident :=
  match segments with
  | .cons (.segment ident _) _ => pure ident
  | .nil => throw (.emptyPath span)

/-- Report a keyword that has no loop around it inside its function. -/
def checkInLoop (word : String) (span : Span) : Resolver Unit := do
  let loop? := (← get).scopes.find (· == .loop) (fun k => k == .func || k == .lambda)
  if loop?.isNone then report (.outsideLoop word) span

/-- Report a `return` that has no function around it. -/
def checkInFunction (span : Span) : Resolver Unit := do
  let func? := (← get).scopes.find (fun k => k == .func || k == .lambda) (fun _ => false)
  if func?.isNone then report .outsideFunction span

/-- The scopes of types with members that have a value of their own. -/
def isTypeScope : ScopeKind → Bool
  | .item .class_ | .item .struct | .item .trait | .item .object => true
  | _ => false

/-- Report a keyword that has no class, struct, trait or object around it. -/
def checkInType (word : String) (span : Span) : Resolver Unit := do
  let type? := (← get).scopes.find isTypeScope (fun _ => false)
  if type?.isNone then report (.outsideType word) span

/-- Walk a node. The owner is the node that holds a form: its number is entered in the table for
the names of the form, and its span is reported for the keywords. -/
def walk : {c : Category} → Origin → Node c → Resolver (Node c)
  | _, _, .nil => pure .nil
  | _, o, .cons n ns => return .cons (← walk o n) (← walk o ns)
  | _, _, .absent => pure .absent
  | _, o, .present n => return .present (← walk o n)
  | _, _, .expr o form => return .expr o (← walk o form)
  | _, o, .assign target op value => return .assign (← walk o target) op (← walk o value)
  | _, o, .name ident slot => return .name ident (← bindName .value false o.id ident slot)
  | _, o, .pathExpr (.path global segments span slot) => do
    let segments ← walk o segments
    let first ← firstName segments span
    return .pathExpr (.path global segments span (← bindName .value global o.id first slot))
  | _, _, .literal l => pure (.literal l)
  | _, o, .binary left op right => return .binary (← walk o left) op (← walk o right)
  | _, o, .unary op operand => return .unary op (← walk o operand)
  | _, o, .suffixed op operand => return .suffixed op (← walk o operand)
  | _, o, .call callee args => return .call (← walk o callee) (← walk o args)
  | _, o, .index target indices => return .index (← walk o target) (← walk o indices)
  | _, o, .member target field safe => return .member (← walk o target) field safe
  | _, o, .list items => return .list (← walk o items)
  | _, o, .tuple items => return .tuple (← walk o items)
  | _, _, .unit => pure .unit
  | _, o, .construct (.path global segments span slot) fields => do
    let segments ← walk o segments
    let first ← firstName segments span
    let slot ← bindName .type global o.id first slot
    return .construct (.path global segments span slot) (← walk o fields)
  | _, o, .blockExpr block => return .blockExpr (← inScope .block (walk o block))
  | _, o, .cond condition positive negative =>
    return .cond (← walk o condition) (← inScope .block (walk o positive)) (← walk o negative)
  | _, o, .loop body => return .loop (← inScope .loop (walk o body))
  | _, o, .select subject entries => return .select (← walk o subject) (← walk o entries)
  | _, o, .lambda params result body =>
    inScope .lambda do
      return .lambda (← walk o params) (← walk o result) (← walk o body)
  | _, o, .break_ value => do
    checkInLoop "break" o.span
    return .break_ (← walk o value)
  | _, o, .continue_ => do
    checkInLoop "continue" o.span
    return .continue_
  | _, o, .return_ value => do
    checkInFunction o.span
    return .return_ (← walk o value)
  | _, o, .throw value => return .throw (← walk o value)
  | _, o, .tryCatch body handler =>
    return .tryCatch (← inScope .block (walk o body)) (← walk o handler)
  | _, o, .paren inner => return .paren (← walk o inner)
  | _, o, .spread inner => return .spread (← walk o inner)
  | _, o, .cast inner type safe => return .cast (← walk o inner) (← walk o type) safe
  | _, o, .this_ => do
    checkInType "this" o.span
    return .this_
  | _, o, .super => do
    checkInType "super" o.span
    return .super
  | _, o, .errorExpr => throw (.errorExpr o.span)
  | _, o, .path global segments span slot => return .path global (← walk o segments) span slot
  | _, o, .segment ident generics => return .segment ident (← walk o generics)
  | _, o, .argument name? value span => return .argument name? (← walk o value) span
  | _, o, .namedField name value => return .namedField name (← walk o value)
  | _, o, .shorthandField value => return .shorthandField (← walk o value)
  | _, o, .baseField value => return .baseField (← walk o value)
  | _, _, .block o stmts => do
    stmts.toList.forM declareStmt
    return .block o (← walk o stmts)
  | _, _, .selectEntry o conditions body =>
    inScope .selectEntry do
      return .selectEntry o (← walk o conditions) (← walk o body)
  | _, o, .lambdaParam id name type => do
    let type ← walk o type
    define .value name .param id
    return .lambdaParam id name type
  | _, o, .handler id binding body =>
    inScope .handler do
      define .value binding .localVar id
      return .handler id binding (← inScope .block (walk o body))
  | _, _, .type o form => return .type o (← walk o form)
  | _, o, .pathType (.path global segments span slot) => do
    let segments ← walk o segments
    let first ← firstName segments span
    return .pathType (.path global segments span (← bindName .type global o.id first slot))
  | _, o, .tupleType items => return .tupleType (← walk o items)
  | _, o, .funcType params result => return .funcType (← walk o params) (← walk o result)
  | _, o, .arrayType item size => return .arrayType (← walk o item) (← walk o size)
  | _, o, .sliceType item => return .sliceType (← walk o item)
  | _, o, .parenType inner => return .parenType (← walk o inner)
  | _, _, .unitType => pure .unitType
  | _, o, .errorType => throw (.errorType o.span)
  | _, _, .stmt o form => return .stmt o (← walk o form)
  | _, o, .exprStmt expr => return .exprStmt (← walk o expr)
  | _, o, .varStmt kind name type init => do
    let type ← walk o type
    let init ← walk o init
    define .value name .localVar o.id
    return .varStmt kind name type init
  | _, o, .forStmt binding source body => do
    let source ← walk o source
    inScope .loop do
      define .value binding .localVar o.id
      return .forStmt binding source (← inScope .block (walk o body))
  | _, o, .whileStmt condition body =>
    return .whileStmt (← walk o condition) (← inScope .loop (walk o body))
  | _, o, .itemStmt item => return .itemStmt (← walk o item)
  | _, o, .errorStmt => throw (.errorStmt o.span)
  | _, _, .item o attrs modifiers form => return .item o attrs modifiers (← walk o form)
  | _, o, .funcItem name generics params result body =>
    inScope .func do
      return .funcItem name (← walk o generics) (← walk o params) (← walk o result) (← walk o body)
  | _, o, .classItem isStruct name generics supers members =>
    inScope (.item (if isStruct then .struct else .class_)) do
      let generics ← walk o generics
      let supers ← walk o supers
      members.toList.forM declareItem
      return .classItem isStruct name generics supers (← walk o members)
  | _, o, .enumItem name generics entries members =>
    inScope (.item .enum) do
      let generics ← walk o generics
      let entries ← walk o entries
      members.toList.forM declareItem
      return .enumItem name generics entries (← walk o members)
  | _, o, .traitItem name generics supers members =>
    inScope (.item .trait) do
      let generics ← walk o generics
      let supers ← walk o supers
      members.toList.forM declareItem
      return .traitItem name generics supers (← walk o members)
  | _, o, .aliasItem name generics type =>
    inScope (.item .typeAlias) do
      return .aliasItem name (← walk o generics) (← walk o type)
  | _, o, .objectItem name supers members =>
    inScope (.item .object) do
      let supers ← walk o supers
      members.toList.forM declareItem
      return .objectItem name supers (← walk o members)
  | _, o, .fieldItem kind? name type default =>
    return .fieldItem kind? name (← walk o type) (← walk o default)
  | _, o, .initItem params body =>
    inScope .func do
      return .initItem (← walk o params) (← inScope .block (walk o body))
  | _, _, .attr name args span => pure (.attr name args span)
  | _, o, .blockBody block => return .blockBody (← inScope .block (walk o block))
  | _, o, .exprBody expr => return .exprBody (← walk o expr)
  | _, _, .param o name type default => do
    let type ← walk o type
    let default ← walk o default
    define .value name .param o.id
    return .param o name type default
  | _, _, .generic o name form => do
    let form ← walk o form
    declareGeneric name o.id form
    return .generic o name form
  | _, o, .typeGeneric bound => return .typeGeneric (← walk o bound)
  | _, _, .lifetimeGeneric => pure .lifetimeGeneric
  | _, o, .constGeneric type default => return .constGeneric (← walk o type) (← walk o default)
  | _, _, .enumEntry o name form => return .enumEntry o name (← walk o form)
  | _, _, .bareEntry => pure .bareEntry
  | _, o, .valueEntry value => return .valueEntry (← walk o value)
  | _, o, .tupleEntry types => return .tupleEntry (← walk o types)
  | _, o, .structEntry fields => return .structEntry (← walk o fields)
  | _, o, .entryField name type => return .entryField name (← walk o type)
termination_by structural _ _ n => n

/-- Walk the statements of a module one after the other. -/
def walkStmts : List Stmt → Resolver (List Stmt)
  | [] => pure []
  | s :: stmts => return (← walk default s) :: (← walkStmts stmts)

end Resolve

/-- The outcome of name resolution. -/
structure Resolved where
  /-- The statements with their slots filled. -/
  stmts : List Stmt
  /-- The names declared at the top level. -/
  root : Scope
  /-- The nodes that use a name, with what the name stands for, by the number of the node. -/
  resolutions : List (NodeId × Target)
  /-- The errors found, in the order of the walk. -/
  errors : List ResolveError

/-- The errors of name resolution as diagnostics. -/
def Resolved.diagnostics (r : Resolved) : List Diagnostic := r.errors.map ResolveError.toDiagnostic

/-- Resolve the names of a module, which must not contain error stubs. -/
def resolve (stmts : List Stmt) : Except Defect Resolved :=
  let walked : Resolver (List Stmt) := do
    stmts.forM Resolve.declareStmt
    Resolve.walkStmts stmts
  match walked Resolve.start with
  | .error d _ => .error d
  | .ok filled s => do
    let root ← s.scopes.intoModule
    return ⟨filled, root, s.table.mergeSort fun a b => a.1.index ≤ b.1.index, s.errors⟩

end FrontEnd
