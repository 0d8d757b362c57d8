import FrontEnd.Proofs.Scoping.Declarations

/-!
# Lexical scoping by environments

What a name stands for at some place of a program depends on the declarations in sight there. An
environment lists them, scope by scope, and is handed down the tree: every construct says which
declarations it adds for which of its parts. Nothing is changed on the way and nothing has to be
taken back.
-/

namespace FrontEnd

/-- A declaration of a name. -/
structure Decl where
  /-- The names it is one of. -/
  space : Namespace
  /-- The declared name. -/
  name : String
  /-- What the name stands for. -/
  target : Target
deriving DecidableEq

/-- A declaration by a node of the program, as those see it who use the name. -/
def Registration.decl (d : Registration) : Decl := ⟨d.space, d.ident.name, .declared d.kind d.id⟩

/-- What the first of some declarations of a name declares. -/
def Decl.first? (decls : List Decl) (space : Namespace) (name : String) : Option Target :=
  (decls.find? fun d => d.space = space ∧ d.name = name).map (·.target)

/-- What the language provides. -/
def Decl.provided : List Decl :=
  (Scope.primitiveTypes.map fun name => ⟨.type, name, .primitive name⟩) ++
    Scope.builtinFunctions.map fun name => ⟨.value, name, .builtin name⟩

/-- The declarations in sight at some place of a module. -/
structure Env where
  /-- Those of the scopes inside the module, nearest scope first. -/
  inner : List (List Decl)
  /-- Those of the module. -/
  top : List Decl

namespace Env

/-- Further declarations in the nearest scope. -/
def add (env : Env) (decls : List Decl) : Env :=
  match env.inner with
  | [] => { env with top := env.top ++ decls }
  | scope :: scopes => { env with inner := (scope ++ decls) :: scopes }

/-- One more scope, without declarations so far. -/
def nested (env : Env) : Env := { env with inner := [] :: env.inner }

/-- What a name stands for in one namespace: the nearest scope that has it decides. Global names
are those of the module, and behind them what the language provides. -/
def lookup (env : Env) (global : Bool) (space : Namespace) (name : String) : Option Target :=
  let scopes := if global then [env.top, Decl.provided] else env.inner ++ [env.top, Decl.provided]
  scopes.findSome? fun decls => Decl.first? decls space name

/-- What a use of a name refers to. Types are looked for among the types, values among the values
of all scopes and then among the types. -/
def meaning (env : Env) (use : NameUse) (global : Bool) (name : String) : Option Target :=
  match use with
  | .type => env.lookup global .type name
  | .value => (env.lookup global .value name).or (env.lookup global .type name)

end Env

namespace Node

/-- What declarations among the statements or members of a list declare, in their order. -/
def hoisted {c : Category} (n : Node c) : List Decl := n.hoists.map Registration.decl

/-- What a node declares in the scope it stands in, for the nodes that come after it. -/
def declared {c : Category} (o : Origin) (n : Node c) : List Decl :=
  (n.registers o).map Registration.decl

theorem declared_cons {c : Category} (o : Origin) (n : Node c) (ns : Node (.many c)) :
    (cons n ns).declared o = n.declared o ++ ns.declared o :=
  List.map_append

/-- All declarations of a block come before its variables. -/
theorem declared_block (o holder : Origin) (stmts : Node (.many .stmt)) :
    (block o stmts).declared holder = stmts.hoisted ++ stmts.declared o :=
  List.map_append

/-- The name of a segment. -/
def segmentIdent : Node .segment → Ident
  | segment ident _ => ident

/-- A path bound by its first name. -/
def bindPath (env : Env) (use : NameUse) : Path → Path
  | path global segments span slot =>
    path global segments span <|
      match segments.toList.head? with
      | some s => ⟨env.meaning use global s.segmentIdent.name⟩
      | none => slot

/-- A node with every use of a name bound as the environment says. Arguments of attributes stay
as they are. -/
def bound : {c : Category} → Origin → Env → Node c → Node c
  | _, _, _, nil => nil
  | _, o, env, cons n ns => cons (n.bound o env) (ns.bound o (env.add (n.declared o)))
  | _, _, _, absent => absent
  | _, o, env, present n => present (n.bound o env)
  | _, _, env, expr o form => expr o (form.bound o env)
  | _, o, env, assign target op value => assign (target.bound o env) op (value.bound o env)
  | _, _, env, name ident _ => name ident ⟨env.meaning .value false ident.name⟩
  | _, o, env, pathExpr p => pathExpr (bindPath env .value (p.bound o env))
  | _, _, _, literal l => literal l
  | _, o, env, binary left op right => binary (left.bound o env) op (right.bound o env)
  | _, o, env, unary op operand => unary op (operand.bound o env)
  | _, o, env, suffixed op operand => suffixed op (operand.bound o env)
  | _, o, env, call callee args => call (callee.bound o env) (args.bound o env)
  | _, o, env, index target indices => index (target.bound o env) (indices.bound o env)
  | _, o, env, member target field safe => member (target.bound o env) field safe
  | _, o, env, list items => list (items.bound o env)
  | _, o, env, tuple items => tuple (items.bound o env)
  | _, _, _, unit => unit
  | _, o, env, construct p fields =>
    construct (bindPath env .type (p.bound o env)) (fields.bound o env)
  | _, o, env, blockExpr b => blockExpr (b.bound o env.nested)
  | _, o, env, cond condition positive negative =>
    cond (condition.bound o env) (positive.bound o env.nested) (negative.bound o env)
  | _, o, env, loop body => loop (body.bound o env.nested)
  | _, o, env, select subject entries => select (subject.bound o env) (entries.bound o env)
  | _, o, env, lambda params result body =>
    let inside := env.nested.add (params.declared o)
    lambda (params.bound o env.nested) (result.bound o inside) (body.bound o inside)
  | _, o, env, break_ value => break_ (value.bound o env)
  | _, _, _, continue_ => continue_
  | _, o, env, return_ value => return_ (value.bound o env)
  | _, o, env, throw value => throw (value.bound o env)
  | _, o, env, tryCatch body h => tryCatch (body.bound o env.nested) (h.bound o env)
  | _, o, env, paren inner => paren (inner.bound o env)
  | _, o, env, spread inner => spread (inner.bound o env)
  | _, o, env, cast inner t safe => cast (inner.bound o env) (t.bound o env) safe
  | _, _, _, this_ => this_
  | _, _, _, super => super
  | _, _, _, errorExpr => errorExpr
  | _, o, env, path global segments span slot => path global (segments.bound o env) span slot
  | _, o, env, segment ident generics => segment ident (generics.bound o env)
  | _, o, env, argument name? value span => argument name? (value.bound o env) span
  | _, o, env, namedField ident value => namedField ident (value.bound o env)
  | _, o, env, shorthandField value => shorthandField (value.bound o env)
  | _, o, env, baseField value => baseField (value.bound o env)
  -- All declarations of a block are in sight in all of its statements.
  | _, _, env, block o stmts => block o (stmts.bound o (env.add stmts.hoisted))
  | _, _, env, selectEntry o conditions body =>
    selectEntry o (conditions.bound o env.nested) (body.bound o env.nested)
  | _, o, env, lambdaParam id ident t => lambdaParam id ident (t.bound o env)
  | _, o, env, handler id binding body =>
    handler id binding
      (body.bound o (env.nested.add [Registration.decl ⟨.value, binding, .localVar, id⟩]).nested)
  | _, _, env, type o form => type o (form.bound o env)
  | _, o, env, pathType p => pathType (bindPath env .type (p.bound o env))
  | _, o, env, tupleType items => tupleType (items.bound o env)
  | _, o, env, funcType params result => funcType (params.bound o env) (result.bound o env)
  | _, o, env, arrayType element size => arrayType (element.bound o env) (size.bound o env)
  | _, o, env, sliceType element => sliceType (element.bound o env)
  | _, o, env, parenType inner => parenType (inner.bound o env)
  | _, _, _, unitType => unitType
  | _, _, _, errorType => errorType
  | _, _, env, stmt o form => stmt o (form.bound o env)
  | _, o, env, exprStmt e => exprStmt (e.bound o env)
  -- A variable is not in sight in its own type and value.
  | _, o, env, varStmt kind ident t init => varStmt kind ident (t.bound o env) (init.bound o env)
  | _, o, env, forStmt binding source body =>
    forStmt binding (source.bound o env)
      (body.bound o (env.nested.add [Registration.decl ⟨.value, binding, .localVar, o.id⟩]).nested)
  | _, o, env, whileStmt condition body =>
    whileStmt (condition.bound o env) (body.bound o env.nested)
  | _, o, env, itemStmt i => itemStmt (i.bound o env)
  | _, _, _, errorStmt => errorStmt
  | _, _, env, item o attrs modifiers form => item o attrs modifiers (form.bound o env)
  | _, o, env, funcItem ident generics params result body =>
    let generic := env.nested.add (generics.declared o)
    let inside := generic.add (params.declared o)
    funcItem ident (generics.bound o env.nested) (params.bound o generic) (result.bound o inside)
      (body.bound o inside)
  -- Members are in sight in all members, but not in what stands before them.
  | _, o, env, classItem isStruct ident generics supers members =>
    let generic := env.nested.add (generics.declared o)
    classItem isStruct ident (generics.bound o env.nested) (supers.bound o generic)
      (members.bound o (generic.add members.hoisted))
  | _, o, env, enumItem ident generics entries members =>
    let generic := env.nested.add (generics.declared o)
    enumItem ident (generics.bound o env.nested) (entries.bound o generic)
      (members.bound o (generic.add members.hoisted))
  | _, o, env, traitItem ident generics supers members =>
    let generic := env.nested.add (generics.declared o)
    traitItem ident (generics.bound o env.nested) (supers.bound o generic)
      (members.bound o (generic.add members.hoisted))
  | _, o, env, aliasItem ident generics t =>
    aliasItem ident (generics.bound o env.nested)
      (t.bound o (env.nested.add (generics.declared o)))
  | _, o, env, objectItem ident supers members =>
    objectItem ident (supers.bound o env.nested)
      (members.bound o (env.nested.add members.hoisted))
  | _, o, env, fieldItem kind? ident t default =>
    fieldItem kind? ident (t.bound o env) (default.bound o env)
  | _, o, env, initItem params body =>
    initItem (params.bound o env.nested)
      (body.bound o (env.nested.add (params.declared o)).nested)
  | _, _, _, attr ident args span => attr ident args span
  | _, o, env, blockBody b => blockBody (b.bound o env.nested)
  | _, o, env, exprBody e => exprBody (e.bound o env)
  -- A parameter is in sight only behind its own type and default value.
  | _, _, env, param o ident t default => param o ident (t.bound o env) (default.bound o env)
  | _, _, env, generic o ident form => generic o ident (form.bound o env)
  | _, o, env, typeGeneric bounds => typeGeneric (bounds.bound o env)
  | _, _, _, lifetimeGeneric => lifetimeGeneric
  | _, o, env, constGeneric t default => constGeneric (t.bound o env) (default.bound o env)
  | _, _, env, enumEntry o ident form => enumEntry o ident (form.bound o env)
  | _, _, _, bareEntry => bareEntry
  | _, o, env, valueEntry value => valueEntry (value.bound o env)
  | _, o, env, tupleEntry types => tupleEntry (types.bound o env)
  | _, o, env, structEntry fields => structEntry (fields.bound o env)
  | _, o, env, entryField ident t => entryField ident (t.bound o env)
termination_by structural _ _ _ n => n

end Node

/-- The statements of a module with every use of a name bound: all declarations of the module are in
sight in all of it. -/
def boundModule (stmts : List Stmt) : List Stmt :=
  let whole := Node.ofList stmts
  (whole.bound default ⟨[], whole.hoisted⟩).toList

end FrontEnd
