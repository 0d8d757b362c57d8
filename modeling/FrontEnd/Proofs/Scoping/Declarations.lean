import FrontEnd.Proofs.Traversal
import FrontEnd.Scope.Resolver

/-!
# What is declared where

Which names a part of the tree declares, in which namespace and as what, can be read off the tree.
Declarations of the program are declared in advance, with all the others of their block or type;
variables and parameters where they stand. The walk declares exactly these names, in this order.
-/

namespace FrontEnd

/-- A declaration of a name in some scope. -/
structure Registration where
  /-- The names it is one of. -/
  space : Namespace
  /-- The declared name. -/
  ident : Ident
  /-- What is declared. -/
  kind : DeclKind
  /-- The number of the declaring node. -/
  id : NodeId
deriving DecidableEq

namespace Registration

/-- What the name stands for, if the declaration is the first one. -/
def binding (d : Registration) : Binding := ⟨.declared d.kind d.id, some d.ident.span⟩

/-- What must differ for two declarations to be in one scope. -/
def key (d : Registration) : Namespace × String := (d.space, d.ident.name)

/-- The step of the walk for a declaration. -/
def declare (d : Registration) : Resolver Unit := Resolve.define d.space d.ident d.kind d.id

end Registration

namespace Node

/-- What a declaration of the program declares: functions and fields are values, everything else
that has a name is a type. An initializer has no name. -/
def itemDeclares (id : NodeId) : ItemForm → List Registration
  | funcItem ident _ _ _ _ => [⟨.value, ident, .func, id⟩]
  | fieldItem _ ident _ _ => [⟨.value, ident, .field, id⟩]
  | classItem isStruct ident _ _ _ => [⟨.type, ident, if isStruct then .struct else .class_, id⟩]
  | enumItem ident _ _ _ => [⟨.type, ident, .enum, id⟩]
  | traitItem ident _ _ _ => [⟨.type, ident, .trait, id⟩]
  | aliasItem ident _ _ => [⟨.type, ident, .typeAlias, id⟩]
  | objectItem ident _ _ => [⟨.type, ident, .object, id⟩]
  | initItem _ _ => []

/-- The table of the walk lists the same declarations. -/
theorem itemDecl?_eq (id : NodeId) (form : ItemForm) :
    (Resolve.itemDecl? form).toList.map (fun d => ⟨d.1, d.2.2, d.2.1, id⟩) =
      form.itemDeclares id := by
  cases form with
  | classItem isStruct => cases isStruct <;> rfl
  | _ => rfl

/-- What declarations among the statements or members of a list declare, in their order. -/
def hoists : {c : Category} → Node c → List Registration
  | _, cons n ns => n.hoists ++ ns.hoists
  | _, stmt _ form => form.hoists
  | _, itemStmt i => i.hoists
  | _, item o _ _ form => form.itemDeclares o.id
  | _, _ => []

/-- What a generic parameter declares; nothing can refer to a lifetime. -/
def genericDeclares (ident : Ident) (id : NodeId) : Node .genericForm → List Registration
  | typeGeneric _ => [⟨.type, ident, .typeParam, id⟩]
  | constGeneric _ _ => [⟨.value, ident, .constParam, id⟩]
  | lifetimeGeneric => []

/-- What a node declares in the scope it stands in, in order; the owner is the node that holds a
form. A block stands in a scope of its own: its declarations come first, and then its variables. -/
def registers : {c : Category} → Origin → Node c → List Registration
  | _, o, cons n ns => n.registers o ++ ns.registers o
  | _, o, present n => n.registers o
  | _, _, block o stmts => stmts.hoists ++ stmts.registers o
  | _, _, stmt o form => form.registers o
  | _, o, varStmt _ ident _ _ => [⟨.value, ident, .localVar, o.id⟩]
  | _, _, lambdaParam id ident _ => [⟨.value, ident, .param, id⟩]
  | _, _, param o ident _ _ => [⟨.value, ident, .param, o.id⟩]
  | _, _, generic o ident form => form.genericDeclares ident o.id
  | _, _, _ => []

/-- What the declarations of a list declare, one after the other. -/
theorem hoists_toList {c : Category} :
    (ns : Node (.many c)) → ns.hoists = ns.toList.flatMap hoists
  | .nil => rfl
  | .cons n ns => congrArg (n.hoists ++ ·) (hoists_toList ns)

end Node

/-- The categories of nodes that declare something for what comes after them. -/
def Category.declares : Category → Bool
  | block | stmt | stmtForm | lambdaParam | param | generic => true
  | many c | maybe c => c.declares
  | _ => false

/-- All other nodes declare nothing. -/
theorem Node.registers_eq_nil {c : Category} (n : Node c) (hc : c.declares = false) (o : Origin) :
    n.registers o = [] := by
  induction n generalizing o with
  | cons n ns ihn ihns =>
    change n.registers o ++ ns.registers o = []
    rw [ihn hc, ihns hc]
    rfl
  | present n ih => exact ih hc o
  | block | stmt | varStmt | lambdaParam | param | generic => cases hc
  | _ => rfl

namespace Resolve

/-- A single declaration. -/
theorem forM_declare (d : Registration) : [d].forM Registration.declare = d.declare :=
  bind_pure_unit

/-- A declaration of the program is declared as the table has it. -/
theorem declareItem_eq (i : Item) : declareItem i = i.hoists.forM Registration.declare := by
  cases i with
  | item o attrs modifiers form =>
    unfold declareItem Node.hoists
    dsimp only
    rw [← Node.itemDecl?_eq]
    cases itemDecl? form with
    | none => rfl
    | some d => exact (forM_declare ⟨d.1, d.2.2, d.2.1, o.id⟩).symm

/-- Of the statements, only declarations are declared in advance. -/
theorem declareStmt_eq (s : Stmt) : declareStmt s = s.hoists.forM Registration.declare := by
  cases s with
  | stmt o form =>
    cases form with
    | itemStmt i => exact declareItem_eq i
    | _ => rfl

/-- A generic parameter is declared where it stands. -/
theorem declareGeneric_eq (ident : Ident) (id : NodeId) (form : Node .genericForm) :
    declareGeneric ident id form = (form.genericDeclares ident id).forM Registration.declare := by
  cases form with
  | typeGeneric bounds => exact (forM_declare ⟨.type, ident, .typeParam, id⟩).symm
  | constGeneric t default => exact (forM_declare ⟨.value, ident, .constParam, id⟩).symm
  | lifetimeGeneric => rfl

/-- Declarations of a list are declared one after the other. -/
theorem forM_declares {c : Category} {step : Node c → Resolver Unit}
    (h : ∀ n, step n = n.hoists.forM Registration.declare) (ns : List (Node c)) :
    ns.forM step = (ns.flatMap Node.hoists).forM Registration.declare := by
  induction ns with
  | nil => rfl
  | cons n ns ih =>
    simp only [List.forM_eq_forM] at h ih ⊢
    rw [List.flatMap_cons, List.forM_append, List.forM_cons, ih, h n]

/-- The members of a type are declared in advance. -/
theorem declareMembers_eq (members : Node (.many .item)) :
    members.toList.forM declareItem = members.hoists.forM Registration.declare := by
  rw [Node.hoists_toList]
  exact forM_declares declareItem_eq members.toList

/-- The declarations of a block are declared in advance. -/
theorem declareStmts_eq (stmts : Node (.many .stmt)) :
    stmts.toList.forM declareStmt = stmts.hoists.forM Registration.declare := by
  rw [Node.hoists_toList]
  exact forM_declares declareStmt_eq stmts.toList

end Resolve

end FrontEnd
