import FrontEnd.Proofs.Parts

/-!
# Places in trees

A node may have a span of its own, and names written in it have theirs. Between delimiters line
breaks have no meaning, or have one again; so whether they are ignored at a node depends on all
nodes around it.
-/

namespace FrontEnd.Node

/-- The text a node was read from. Forms, sequences and a few parts keep no place of their own. -/
def span? : {c : Category} → Node c → Option Span
  | _, expr o _ => some o.span
  | _, path _ _ span _ => some span
  | _, argument _ _ span => some span
  | _, block o _ => some o.span
  | _, selectEntry o _ _ => some o.span
  | _, type o _ => some o.span
  | _, stmt o _ => some o.span
  | _, item o _ _ _ => some o.span
  | _, attr _ _ span => some span
  | _, param o _ _ _ => some o.span
  | _, generic o _ _ => some o.span
  | _, enumEntry o _ _ => some o.span
  | _, _ => none

/-- The names that are written in a node, outside its parts. -/
def idents : {c : Category} → Node c → List Ident
  | _, name ident _ => [ident]
  | _, binary _ (.custom ident) _ => [ident]
  | _, member _ field _ => [field]
  | _, segment ident _ => [ident]
  | _, argument name? _ _ => name?.toList
  | _, namedField ident _ => [ident]
  | _, lambdaParam _ ident _ => [ident]
  | _, handler _ binding _ => [binding]
  | _, varStmt _ ident _ _ => [ident]
  | _, forStmt binding _ _ => [binding]
  | _, funcItem ident _ _ _ _ => [ident]
  | _, classItem _ ident _ _ _ => [ident]
  | _, enumItem ident _ _ _ => [ident]
  | _, traitItem ident _ _ _ => [ident]
  | _, aliasItem ident _ _ => [ident]
  | _, objectItem ident _ _ => [ident]
  | _, fieldItem _ ident _ _ => [ident]
  | _, attr ident _ _ => [ident]
  | _, param _ ident _ _ => [ident]
  | _, generic _ ident _ => [ident]
  | _, enumEntry _ ident _ => [ident]
  | _, entryField ident _ => [ident]
  | _, _ => []

/-- The places of a node: its own and those of the names in it. -/
def places {c : Category} (n : Node c) : List Span := n.span?.toList ++ n.idents.map (·.span)

/-- Whether line breaks are ignored in each part of a node, given whether they are around it. -/
def ignoring (around : Bool) : {c : Category} → Node c → List Bool
  | _, call .. | _, index .. | _, construct .. => [around, true]
  | _, list _ | _, tuple _ | _, paren _ => [true]
  | _, tupleType _ | _, sliceType _ | _, parenType _ => [true]
  | _, arrayType .. => [true, true]
  | _, funcType .. => [true, around]
  | _, block .. => [false]
  | _, select .. => [around, false]
  | _, funcItem .. => [around, true, around, around]
  | _, classItem .. | _, traitItem .. => [around, around, false]
  | _, enumItem .. => [around, false, false]
  | _, objectItem .. => [around, false]
  | _, initItem .. => [true, around]
  | _, attr .. | _, tupleEntry _ | _, structEntry _ => [true]
  | _, n => n.parts.map fun _ => around

/-- The parts of a node, with whether line breaks are ignored in them. -/
def settings (around : Bool) {c : Category} (n : Node c) :
    List (((c : Category) × Node c) × Bool) :=
  n.parts.zip (n.ignoring around)

/-- What holds of a node and of all nodes inside it, at any depth, where it may depend on whether
line breaks are ignored there. -/
inductive Throughout (P : Bool → {c : Category} → Node c → Prop) :
    Bool → {c : Category} → Node c → Prop
  | node {around : Bool} {c : Category} {n : Node c} (root : P around n)
    (parts : ∀ m ∈ n.settings around, m.1.2.Throughout P m.2) : n.Throughout P around

variable {c : Category} {n : Node c}

/-- A sequence has no place of its own. -/
theorem span?_many : (ns : Node (.many c)) → ns.span? = none
  | nil => rfl
  | cons _ _ => rfl

/-- Line breaks are ignored in every part, or they are not. -/
theorem length_ignoring (around : Bool) (n : Node c) :
    (n.ignoring around).length = n.parts.length := by
  cases n <;> rfl

/-- The parts of a node are those with a setting. -/
theorem map_fst_settings (around : Bool) (n : Node c) :
    (n.settings around).map Prod.fst = n.parts :=
  List.map_fst_zip (Nat.le_of_eq (length_ignoring around n).symm)

/-- What holds throughout a tree holds anywhere in it, if it does not matter where. -/
theorem Throughout.forall {P : Bool → {c : Category} → Node c → Prop}
    {Q : {c : Category} → Node c → Prop} (h : ∀ {around c} {n : Node c}, P around n → Q n)
    {around : Bool} (hn : n.Throughout P around) : n.Forall Q := by
  induction hn with
  | @node around c n root _ ih =>
    refine forall_of_parts (h root) fun m hm => ?_
    rw [← n.map_fst_settings around] at hm
    obtain ⟨p, hp, rfl⟩ := List.mem_map.1 hm
    exact ih p hp

/-- What follows from something that holds throughout a tree holds throughout it as well. -/
theorem Throughout.imp {P Q : Bool → {c : Category} → Node c → Prop}
    (h : ∀ {around c} {n : Node c}, P around n → Q around n) {around : Bool}
    (hn : n.Throughout P around) : n.Throughout Q around := by
  induction hn with
  | node root _ ih => exact .node (h root) ih

end FrontEnd.Node
