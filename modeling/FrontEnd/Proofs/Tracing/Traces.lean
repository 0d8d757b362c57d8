import FrontEnd.Grammar.Error
import FrontEnd.Proofs.Parts

/-!
# Traces of trees

A parser meets the leaves of a tree in source order, and it numbers a node when the node is
complete; just before that it may warn about it. The trace of a tree says what was met on the way,
behind what was met before.
-/

namespace FrontEnd

namespace Node

/-- The number of a node; forms, paths and sequences have none. -/
def number? : {c : Category} → Node c → Option NodeId
  | _, expr o _ => some o.id
  | _, block o _ => some o.id
  | _, selectEntry o _ _ => some o.id
  | _, lambdaParam id _ _ => some id
  | _, handler id _ _ => some id
  | _, type o _ => some o.id
  | _, stmt o _ => some o.id
  | _, item o _ _ _ => some o.id
  | _, param o _ _ _ => some o.id
  | _, generic o _ _ => some o.id
  | _, enumEntry o _ _ => some o.id
  | _, _ => none

/-- The numbers in a tree, those inside a node before its own. -/
def numbers {c : Category} (n : Node c) : List NodeId := n.collect number? []

/-- Whether parentheses around an expression of some form are never needed. -/
def isSimple : ExprForm → Bool
  | literal _ | name _ _ | pathExpr _ | this_ | super => true
  | _ => false

/-- What there is to say about an expression of some form: it may stand in parentheses that change
nothing. -/
def remark? : ExprForm → Option String
  | paren inner =>
    match inner.form with
    | paren _ => some "Useless double-wrapped parenthesized expression"
    | form => if form.isSimple then some "Useless parentheses around simple expression" else none
  | _ => none

/-- The warning about a node. -/
def warning? : {c : Category} → Node c → Option Diagnostic
  | _, expr o form => form.remark?.map (.warning · o.span)
  | _, _ => none

end Node

/-- The number given to a node, and the warning given about it. -/
structure Note where
  /-- The number. -/
  id : NodeId
  /-- The warning. -/
  warning? : Option Diagnostic

namespace Node

/-- The note on a node. -/
def note? {c : Category} (n : Node c) : Option Note := n.number?.map (⟨·, n.warning?⟩)

/-- The notes on the nodes of a tree. -/
def notes {c : Category} (n : Node c) : List Note := n.collect note? []

/-- The numbers in a tree are those noted of its nodes. -/
theorem numbers_eq {c : Category} (n : Node c) : n.numbers = n.notes.map Note.id := by
  have hnumber {c : Category} (n : Node c) : n.number? = n.note?.bind (some ∘ Note.id) := by
    cases h : n.number? <;> simp [note?, h]
  rw [← List.filterMap_eq_map]
  exact (collect_filterMap note? hnumber n).symm

end Node

/-- What was met of a text so far. -/
structure Trace where
  /-- The leaves. -/
  leaves : List Leaf
  /-- The notes on the nodes that are complete. -/
  notes : List Note
  /-- Whether nothing is missing that name resolution relies on. -/
  fresh : Bool

namespace Trace

/-- Nothing was met yet. -/
def empty : Trace := ⟨[], [], true⟩

/-- One more leaf. -/
def leaf (t : Trace) (l : Leaf) : Trace := { t with leaves := t.leaves ++ [l] }

/-- Leaves one after the other. -/
def read (t : Trace) (ls : List Leaf) : Trace := ls.foldl leaf t

/-- One more node is complete. -/
def note (t : Trace) (a : Note) : Trace := { t with notes := t.notes ++ [a] }

/-- Something that name resolution relies on, and that may be missing. -/
def check (t : Trace) (ok : Bool) : Trace := { t with fresh := ok && t.fresh }

variable (t : Trace)

/-- Leaves are added at the end. -/
theorem read_eq (ls : List Leaf) : t.read ls = { t with leaves := t.leaves ++ ls } := by
  induction ls generalizing t with
  | nil => rw [List.append_nil]; rfl
  | cons l ls ih =>
    change (t.leaf l).read ls = _
    rw [ih, leaf]
    simp

end Trace

namespace Node

/-- What is met on a walk through a tree, behind what was met before. -/
def traceAfter (t : Trace) : {c : Category} → Node c → Trace
  | _, nil => t
  | _, cons head tail => tail.traceAfter (head.traceAfter t)
  | _, absent => t
  | _, present part => part.traceAfter t
  | _, expr o form => (form.traceAfter t).note ⟨o.id, form.remark?.map (.warning · o.span)⟩
  | _, assign target _ value => value.traceAfter (target.traceAfter t)
  | _, name ident slot => (t.leaf (.ident ident)).check (slot = .empty)
  | _, pathExpr p => p.traceAfter t
  | _, literal value => t.leaf (.literal value)
  | _, binary left op right => right.traceAfter ((left.traceAfter t).read op.leaves)
  | _, unary _ operand => operand.traceAfter t
  | _, suffixed _ operand => operand.traceAfter t
  | _, call callee args => args.traceAfter (callee.traceAfter t)
  | _, index target indices => indices.traceAfter (target.traceAfter t)
  | _, member target field _ => (target.traceAfter t).leaf (.ident field)
  | _, list items => items.traceAfter t
  | _, tuple items => items.traceAfter t
  | _, unit => t
  | _, construct p fields => fields.traceAfter (p.traceAfter t)
  | _, blockExpr b => b.traceAfter t
  | _, cond condition positive negative =>
    negative.traceAfter (positive.traceAfter (condition.traceAfter t))
  | _, loop body => body.traceAfter t
  | _, select subject entries => entries.traceAfter (subject.traceAfter t)
  | _, lambda params result body => body.traceAfter (result.traceAfter (params.traceAfter t))
  | _, break_ value => value.traceAfter t
  | _, continue_ => t
  | _, return_ value => value.traceAfter t
  | _, throw value => value.traceAfter t
  | _, tryCatch body h => h.traceAfter (body.traceAfter t)
  | _, paren inner => inner.traceAfter t
  | _, spread inner => inner.traceAfter t
  | _, cast inner target _ => target.traceAfter (inner.traceAfter t)
  | _, this_ => t.leaf .this_
  | _, super => t.leaf .super
  | _, errorExpr => t.check false
  | _, path _ segments _ slot =>
    (segments.traceAfter t).check (!segments.toList.isEmpty && slot = .empty)
  | _, segment ident generics => generics.traceAfter (t.leaf (.ident ident))
  | _, argument name? value _ => value.traceAfter (t.read (name?.toList.map .ident))
  | _, namedField ident value => value.traceAfter (t.leaf (.ident ident))
  | _, shorthandField value => value.traceAfter t
  | _, baseField value => value.traceAfter t
  | _, block o stmts => (stmts.traceAfter t).note ⟨o.id, none⟩
  | _, selectEntry o conditions body =>
    (body.traceAfter (conditions.traceAfter t)).note ⟨o.id, none⟩
  | _, lambdaParam id ident declared =>
    (declared.traceAfter (t.leaf (.ident ident))).note ⟨id, none⟩
  | _, handler id binding body => (body.traceAfter (t.leaf (.ident binding))).note ⟨id, none⟩
  | _, type o form => (form.traceAfter t).note ⟨o.id, none⟩
  | _, pathType p => p.traceAfter t
  | _, tupleType items => items.traceAfter t
  | _, funcType params result => result.traceAfter (params.traceAfter t)
  | _, arrayType element size => size.traceAfter (element.traceAfter t)
  | _, sliceType element => element.traceAfter t
  | _, parenType inner => inner.traceAfter t
  | _, unitType => t
  | _, errorType => t.check false
  | _, stmt o form => (form.traceAfter t).note ⟨o.id, none⟩
  | _, exprStmt e => e.traceAfter t
  | _, varStmt _ ident declared init =>
    init.traceAfter (declared.traceAfter (t.leaf (.ident ident)))
  | _, forStmt binding source body => body.traceAfter (source.traceAfter (t.leaf (.ident binding)))
  | _, whileStmt condition body => body.traceAfter (condition.traceAfter t)
  | _, itemStmt i => i.traceAfter t
  | _, errorStmt => t.check false
  | _, item o attrs _ form => (form.traceAfter (attrs.traceAfter t)).note ⟨o.id, none⟩
  | _, funcItem ident generics params result body =>
    body.traceAfter (result.traceAfter (params.traceAfter (generics.traceAfter
      (t.leaf (.ident ident)))))
  | _, classItem _ ident generics supers members =>
    members.traceAfter (supers.traceAfter (generics.traceAfter (t.leaf (.ident ident))))
  | _, enumItem ident generics entries members =>
    members.traceAfter (entries.traceAfter (generics.traceAfter (t.leaf (.ident ident))))
  | _, traitItem ident generics supers members =>
    members.traceAfter (supers.traceAfter (generics.traceAfter (t.leaf (.ident ident))))
  | _, aliasItem ident generics target =>
    target.traceAfter (generics.traceAfter (t.leaf (.ident ident)))
  | _, objectItem ident supers members =>
    members.traceAfter (supers.traceAfter (t.leaf (.ident ident)))
  | _, fieldItem _ ident declared default =>
    default.traceAfter (declared.traceAfter (t.leaf (.ident ident)))
  | _, initItem params body => body.traceAfter (params.traceAfter t)
  | _, attr ident args _ => args.traceAfter (t.leaf (.ident ident))
  | _, blockBody b => b.traceAfter t
  | _, exprBody e => e.traceAfter t
  | _, param o ident declared default =>
    (default.traceAfter (declared.traceAfter (t.leaf (.ident ident)))).note ⟨o.id, none⟩
  | _, generic o ident form => (form.traceAfter (t.leaf (genericLeaf ident form))).note ⟨o.id, none⟩
  | _, typeGeneric bound => bound.traceAfter t
  | _, lifetimeGeneric => t
  | _, constGeneric declared default => default.traceAfter (declared.traceAfter t)
  | _, enumEntry o ident form => (form.traceAfter (t.leaf (.ident ident))).note ⟨o.id, none⟩
  | _, bareEntry => t
  | _, valueEntry value => value.traceAfter t
  | _, tupleEntry types => types.traceAfter t
  | _, structEntry fields => fields.traceAfter t
  | _, entryField ident declared => declared.traceAfter (t.leaf (.ident ident))

variable {c : Category}

/-- Three walks over the tree are made at once: of its leaves in source order, of the notes on its
nodes, and of what name resolution relies on at every node. -/
theorem traceAfter_eq (n : Node c) (t : Trace) : n.traceAfter t =
    ⟨t.leaves ++ n.leaves, n.collect note? t.notes,
      n.fold (fun m ok => (!m.isStub && m.hasNames && m.slot?.all (· = .empty)) && ok) t.fresh⟩ := by
  induction n generalizing t <;>
    simp only [traceAfter, leaves, Trace.leaf, Trace.note, Trace.check, Trace.read_eq,
      List.append_assoc, List.cons_append, List.nil_append, List.append_nil, *] <;> rfl

/-- The leaves of a tree come behind those met before. -/
theorem leaves_traceAfter (n : Node c) (t : Trace) :
    (n.traceAfter t).leaves = t.leaves ++ n.leaves := by
  rw [traceAfter_eq]

/-- So do the notes on its nodes. -/
theorem notes_traceAfter (n : Node c) (t : Trace) :
    (n.traceAfter t).notes = t.notes ++ n.notes := by
  rw [traceAfter_eq]
  exact collect_eq_append note? n t.notes

/-- The notes before are kept. -/
theorem sublist_traceAfter (n : Node c) (t : Trace) : t.notes.Sublist (n.traceAfter t).notes := by
  rw [notes_traceAfter]
  exact List.sublist_append_left _ _

/-- If nothing is missing in the end, then nothing is in the tree. -/
theorem fresh_traceAfter {n : Node c} {t : Trace} (h : (n.traceAfter t).fresh = true) :
    n.Forall Fresh := by
  rw [traceAfter_eq] at h
  exact (forall_of_fold n t.fresh h).2

/-- What is met of two sequences in a row. -/
theorem traceAfter_ofList_append (xs ys : List (Node c)) (t : Trace) :
    (ofList (xs ++ ys)).traceAfter t = (ofList ys).traceAfter ((ofList xs).traceAfter t) := by
  induction xs generalizing t with
  | nil => rfl
  | cons x xs ih => exact ih (x.traceAfter t)

end Node

end FrontEnd
