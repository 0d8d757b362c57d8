import FrontEnd.Syntax.Tree

/-!
# Walks over syntax trees

The leaves of a tree are the names, literals, lifetimes and self references of the text; a walk
in source order meets them where they are written. What holds anywhere in a tree, at any depth,
is said of all its nodes at once.
-/

namespace FrontEnd

/-- What a tree keeps of a single token. -/
inductive Leaf where
  | ident (ident : Ident)
  | lifetime (ident : Ident)
  | literal (literal : Literal)
  | this_
  | super
deriving DecidableEq

/-- The leaf a token becomes; operators, punctuation and other keywords become none. -/
def Leaf.ofToken? (t : Token) : Option Leaf :=
  match t.kind with
  | .ident name => some (.ident ⟨name, t.span⟩)
  | .lifetime name => some (.lifetime ⟨name, t.span⟩)
  | .keyword .this_ => some .this_
  | .keyword .super => some .super
  | kind => (Literal.ofToken? kind).map .literal

/-- The leaves of some tokens, in order. -/
def leavesOf (tokens : List Token) : List Leaf := tokens.filterMap Leaf.ofToken?

/-- The leaf of a binary operator: only a custom one is written with a name. -/
def BinaryOp.leaves : BinaryOp → List Leaf
  | custom ident => [.ident ident]
  | _ => []

namespace Node

/-- The leaf of the name of a generic parameter. -/
def genericLeaf (name : Ident) : Node .genericForm → Leaf
  | lifetimeGeneric => .lifetime name
  | _ => .ident name

/-- The leaves met on a walk in source order. -/
def leaves : {c : Category} → Node c → List Leaf
  | _, nil => []
  | _, cons head tail => head.leaves ++ tail.leaves
  | _, absent => []
  | _, present part => part.leaves
  | _, expr _ form => form.leaves
  | _, assign target _ value => target.leaves ++ value.leaves
  | _, name ident _ => [.ident ident]
  | _, pathExpr p => p.leaves
  | _, literal value => [.literal value]
  | _, binary left op right => left.leaves ++ (op.leaves ++ right.leaves)
  | _, unary _ operand => operand.leaves
  | _, suffixed _ operand => operand.leaves
  | _, call callee args => callee.leaves ++ args.leaves
  | _, index target indices => target.leaves ++ indices.leaves
  | _, member target field _ => target.leaves ++ [.ident field]
  | _, list items => items.leaves
  | _, tuple items => items.leaves
  | _, unit => []
  | _, construct p fields => p.leaves ++ fields.leaves
  | _, blockExpr b => b.leaves
  | _, cond condition positive negative =>
    condition.leaves ++ (positive.leaves ++ negative.leaves)
  | _, loop body => body.leaves
  | _, select subject entries => subject.leaves ++ entries.leaves
  | _, lambda params result body => params.leaves ++ (result.leaves ++ body.leaves)
  | _, break_ value => value.leaves
  | _, continue_ => []
  | _, return_ value => value.leaves
  | _, throw value => value.leaves
  | _, tryCatch body h => body.leaves ++ h.leaves
  | _, paren inner => inner.leaves
  | _, spread inner => inner.leaves
  | _, cast inner t _ => inner.leaves ++ t.leaves
  | _, this_ => [.this_]
  | _, super => [.super]
  | _, errorExpr => []
  | _, path _ segments _ _ => segments.leaves
  | _, segment ident generics => .ident ident :: generics.leaves
  | _, argument name? value _ => name?.toList.map .ident ++ value.leaves
  | _, namedField ident value => .ident ident :: value.leaves
  | _, shorthandField value => value.leaves
  | _, baseField value => value.leaves
  | _, block _ stmts => stmts.leaves
  | _, selectEntry _ conditions body => conditions.leaves ++ body.leaves
  | _, lambdaParam _ ident t => .ident ident :: t.leaves
  | _, handler _ binding body => .ident binding :: body.leaves
  | _, type _ form => form.leaves
  | _, pathType p => p.leaves
  | _, tupleType items => items.leaves
  | _, funcType params result => params.leaves ++ result.leaves
  | _, arrayType element size => element.leaves ++ size.leaves
  | _, sliceType element => element.leaves
  | _, parenType inner => inner.leaves
  | _, unitType => []
  | _, errorType => []
  | _, stmt _ form => form.leaves
  | _, exprStmt e => e.leaves
  | _, varStmt _ ident t init => .ident ident :: (t.leaves ++ init.leaves)
  | _, forStmt binding source body => .ident binding :: (source.leaves ++ body.leaves)
  | _, whileStmt condition body => condition.leaves ++ body.leaves
  | _, itemStmt i => i.leaves
  | _, errorStmt => []
  | _, item _ attrs _ form => attrs.leaves ++ form.leaves
  | _, funcItem ident generics params result body =>
    .ident ident :: (generics.leaves ++ (params.leaves ++ (result.leaves ++ body.leaves)))
  | _, classItem _ ident generics supers members =>
    .ident ident :: (generics.leaves ++ (supers.leaves ++ members.leaves))
  | _, enumItem ident generics entries members =>
    .ident ident :: (generics.leaves ++ (entries.leaves ++ members.leaves))
  | _, traitItem ident generics supers members =>
    .ident ident :: (generics.leaves ++ (supers.leaves ++ members.leaves))
  | _, aliasItem ident generics t => .ident ident :: (generics.leaves ++ t.leaves)
  | _, objectItem ident supers members => .ident ident :: (supers.leaves ++ members.leaves)
  | _, fieldItem _ ident t default => .ident ident :: (t.leaves ++ default.leaves)
  | _, initItem params body => params.leaves ++ body.leaves
  | _, attr ident args _ => .ident ident :: args.leaves
  | _, blockBody b => b.leaves
  | _, exprBody e => e.leaves
  | _, param _ ident t default => .ident ident :: (t.leaves ++ default.leaves)
  | _, generic _ ident form => genericLeaf ident form :: form.leaves
  | _, typeGeneric bound => bound.leaves
  | _, lifetimeGeneric => []
  | _, constGeneric t default => t.leaves ++ default.leaves
  | _, enumEntry _ ident form => .ident ident :: form.leaves
  | _, bareEntry => []
  | _, valueEntry value => value.leaves
  | _, tupleEntry types => types.leaves
  | _, structEntry fields => fields.leaves
  | _, entryField ident t => .ident ident :: t.leaves

/-- A property of a node and of all nodes inside it, at any depth. -/
def Forall (P : {c : Category} → Node c → Prop) : {c : Category} → Node c → Prop
  | _, n@nil => P n
  | _, n@(cons head tail) => P n ∧ head.Forall P ∧ tail.Forall P
  | _, n@absent => P n
  | _, n@(present part) => P n ∧ part.Forall P
  | _, n@(expr _ form) => P n ∧ form.Forall P
  | _, n@(assign target _ value) => P n ∧ target.Forall P ∧ value.Forall P
  | _, n@(name _ _) => P n
  | _, n@(pathExpr p) => P n ∧ p.Forall P
  | _, n@(literal _) => P n
  | _, n@(binary left _ right) => P n ∧ left.Forall P ∧ right.Forall P
  | _, n@(unary _ operand) => P n ∧ operand.Forall P
  | _, n@(suffixed _ operand) => P n ∧ operand.Forall P
  | _, n@(call callee args) => P n ∧ callee.Forall P ∧ args.Forall P
  | _, n@(index target indices) => P n ∧ target.Forall P ∧ indices.Forall P
  | _, n@(member target _ _) => P n ∧ target.Forall P
  | _, n@(list items) => P n ∧ items.Forall P
  | _, n@(tuple items) => P n ∧ items.Forall P
  | _, n@unit => P n
  | _, n@(construct p fields) => P n ∧ p.Forall P ∧ fields.Forall P
  | _, n@(blockExpr b) => P n ∧ b.Forall P
  | _, n@(cond condition positive negative) =>
    P n ∧ condition.Forall P ∧ positive.Forall P ∧ negative.Forall P
  | _, n@(loop body) => P n ∧ body.Forall P
  | _, n@(select subject entries) => P n ∧ subject.Forall P ∧ entries.Forall P
  | _, n@(lambda params result body) => P n ∧ params.Forall P ∧ result.Forall P ∧ body.Forall P
  | _, n@(break_ value) => P n ∧ value.Forall P
  | _, n@continue_ => P n
  | _, n@(return_ value) => P n ∧ value.Forall P
  | _, n@(throw value) => P n ∧ value.Forall P
  | _, n@(tryCatch body h) => P n ∧ body.Forall P ∧ h.Forall P
  | _, n@(paren inner) => P n ∧ inner.Forall P
  | _, n@(spread inner) => P n ∧ inner.Forall P
  | _, n@(cast inner t _) => P n ∧ inner.Forall P ∧ t.Forall P
  | _, n@this_ => P n
  | _, n@super => P n
  | _, n@errorExpr => P n
  | _, n@(path _ segments _ _) => P n ∧ segments.Forall P
  | _, n@(segment _ generics) => P n ∧ generics.Forall P
  | _, n@(argument _ value _) => P n ∧ value.Forall P
  | _, n@(namedField _ value) => P n ∧ value.Forall P
  | _, n@(shorthandField value) => P n ∧ value.Forall P
  | _, n@(baseField value) => P n ∧ value.Forall P
  | _, n@(block _ stmts) => P n ∧ stmts.Forall P
  | _, n@(selectEntry _ conditions body) => P n ∧ conditions.Forall P ∧ body.Forall P
  | _, n@(lambdaParam _ _ t) => P n ∧ t.Forall P
  | _, n@(handler _ _ body) => P n ∧ body.Forall P
  | _, n@(type _ form) => P n ∧ form.Forall P
  | _, n@(pathType p) => P n ∧ p.Forall P
  | _, n@(tupleType items) => P n ∧ items.Forall P
  | _, n@(funcType params result) => P n ∧ params.Forall P ∧ result.Forall P
  | _, n@(arrayType element size) => P n ∧ element.Forall P ∧ size.Forall P
  | _, n@(sliceType element) => P n ∧ element.Forall P
  | _, n@(parenType inner) => P n ∧ inner.Forall P
  | _, n@unitType => P n
  | _, n@errorType => P n
  | _, n@(stmt _ form) => P n ∧ form.Forall P
  | _, n@(exprStmt e) => P n ∧ e.Forall P
  | _, n@(varStmt _ _ t init) => P n ∧ t.Forall P ∧ init.Forall P
  | _, n@(forStmt _ source body) => P n ∧ source.Forall P ∧ body.Forall P
  | _, n@(whileStmt condition body) => P n ∧ condition.Forall P ∧ body.Forall P
  | _, n@(itemStmt i) => P n ∧ i.Forall P
  | _, n@errorStmt => P n
  | _, n@(item _ attrs _ form) => P n ∧ attrs.Forall P ∧ form.Forall P
  | _, n@(funcItem _ generics params result body) =>
    P n ∧ generics.Forall P ∧ params.Forall P ∧ result.Forall P ∧ body.Forall P
  | _, n@(classItem _ _ generics supers members) =>
    P n ∧ generics.Forall P ∧ supers.Forall P ∧ members.Forall P
  | _, n@(enumItem _ generics entries members) =>
    P n ∧ generics.Forall P ∧ entries.Forall P ∧ members.Forall P
  | _, n@(traitItem _ generics supers members) =>
    P n ∧ generics.Forall P ∧ supers.Forall P ∧ members.Forall P
  | _, n@(aliasItem _ generics t) => P n ∧ generics.Forall P ∧ t.Forall P
  | _, n@(objectItem _ supers members) => P n ∧ supers.Forall P ∧ members.Forall P
  | _, n@(fieldItem _ _ t default) => P n ∧ t.Forall P ∧ default.Forall P
  | _, n@(initItem params body) => P n ∧ params.Forall P ∧ body.Forall P
  | _, n@(attr _ args _) => P n ∧ args.Forall P
  | _, n@(blockBody b) => P n ∧ b.Forall P
  | _, n@(exprBody e) => P n ∧ e.Forall P
  | _, n@(param _ _ t default) => P n ∧ t.Forall P ∧ default.Forall P
  | _, n@(generic _ _ form) => P n ∧ form.Forall P
  | _, n@(typeGeneric bound) => P n ∧ bound.Forall P
  | _, n@lifetimeGeneric => P n
  | _, n@(constGeneric t default) => P n ∧ t.Forall P ∧ default.Forall P
  | _, n@(enumEntry _ _ form) => P n ∧ form.Forall P
  | _, n@bareEntry => P n
  | _, n@(valueEntry value) => P n ∧ value.Forall P
  | _, n@(tupleEntry types) => P n ∧ types.Forall P
  | _, n@(structEntry fields) => P n ∧ fields.Forall P
  | _, n@(entryField _ t) => P n ∧ t.Forall P

/-- Whether a node stands for a part that could not be read. -/
def isStub : {c : Category} → Node c → Bool
  | _, errorExpr => true
  | _, errorType => true
  | _, errorStmt => true
  | _, _ => false

/-- The slot of a node that uses a name. -/
def slot? : {c : Category} → Node c → Option Slot
  | _, name _ slot => some slot
  | _, path _ _ _ slot => some slot
  | _, _ => none

/-- Whether a node, if it is a path, has at least one name. -/
def hasNames : {c : Category} → Node c → Bool
  | _, path _ segments _ _ => !segments.toList.isEmpty
  | _, _ => true

/-- What name resolution relies on: no error stub, a name on every path, no slot written yet. -/
def Fresh {c : Category} (n : Node c) : Prop :=
  (!n.isStub && n.hasNames && n.slot?.all (· = .empty)) = true

/-- A path that is one local name has no other parts. -/
theorem eq_path_of_simpleName? {p : Path} {ident : Ident} (h : p.simpleName? = some ident) :
    ∃ span slot, p = .path false (.cons (.segment ident .nil) .nil) span slot := by
  cases p with
  | path global segments span slot =>
    cases segments with
    | nil => cases global <;> cases h
    | cons first others =>
      cases others with
      | cons _ _ => cases global <;> cases h
      | nil =>
        cases first with
        | segment name generics =>
          cases generics with
          | cons _ _ => cases global <;> cases h
          | nil =>
            cases global with
            | true => cases h
            | false =>
              cases h
              exact ⟨span, slot, rfl⟩

/-- The leaves of a sequence are those of its nodes. -/
theorem leaves_ofList {c : Category} (ns : List (Node c)) :
    (ofList ns).leaves = ns.flatMap leaves := by
  induction ns with
  | nil => rfl
  | cons n ns ih =>
    rw [List.flatMap_cons, ← ih]
    rfl

/-- What name resolution relies on holds in a sequence if it holds in its nodes. -/
theorem forall_fresh_ofList {c : Category} (ns : List (Node c)) :
    (ofList ns).Forall Fresh ↔ ∀ n ∈ ns, n.Forall Fresh := by
  induction ns with
  | nil => exact ⟨fun _ => nofun, fun _ => rfl⟩
  | cons n ns ih =>
    rw [List.forall_mem_cons, ← ih]
    exact ⟨fun h => h.2, fun h => ⟨rfl, h⟩⟩

end Node

end FrontEnd
