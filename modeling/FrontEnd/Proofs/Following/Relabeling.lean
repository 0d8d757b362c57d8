import FrontEnd.Proofs.Tracing.Files

/-!
# Numbers and places of a tree

The parser gives every node a number and a place in the text. Two readings of the same tokens at
different places give trees that differ in nothing else. Relabelings change the numbers and places
of a tree; a likeness says when two trees, or any two values a parser handles, are the same but for
them.
-/

namespace FrontEnd

/-- A change of node numbers and of places in the text. -/
structure Relabeling where
  /-- The new number of a node. -/
  id : NodeId → NodeId
  /-- The new place of a piece of text. -/
  span : Span → Span

namespace Relabeling

/-- One change after another; the second argument comes first. -/
def comp (r r' : Relabeling) : Relabeling := ⟨r.id ∘ r'.id, r.span ∘ r'.span⟩

/-- Numbers and places that are moved on. -/
def shift (ids bytes : Nat) : Relabeling where
  id := fun i => ⟨i.index + ids⟩
  span := fun s => ⟨s.pos + bytes, s.len, s.file⟩

/-- All places are forgotten. -/
def unplaced : Relabeling := ⟨fun i => i, fun _ => default⟩

/-- All numbers and places are forgotten. -/
def bare : Relabeling := ⟨fun _ => default, fun _ => default⟩

/-- Nothing changes. -/
def same : Relabeling := ⟨fun i => i, fun s => s⟩

variable (r : Relabeling)

/-- A name at its new place. -/
def ident (x : Ident) : Ident := ⟨x.name, r.span x.span⟩

/-- The new number and place of a node. -/
def origin (o : Origin) : Origin := ⟨r.id o.id, r.span o.span⟩

/-- A token at its new place. -/
def token (t : Token) : Token := ⟨t.kind, r.span t.span⟩

/-- An operator; only one that is written as a name has a place. -/
def binaryOp : BinaryOp → BinaryOp
  | .custom x => .custom (r.ident x)
  | op => op

/-- What a name stands for, under the new numbers. -/
def target : Target → Target
  | .declared kind id => .declared kind (r.id id)
  | t => t

/-- The slot of a name. -/
def slot (s : Slot) : Slot := ⟨s.target?.map r.target⟩

/-- A diagnostic at its new place. -/
def diagnostic : Diagnostic → Diagnostic
  | .message severity text span => .message severity text (r.span span)
  | .linked severity text span linkText link =>
    .linked severity text (r.span span) linkText (r.span link)
  | .helped inner help => .helped (diagnostic inner) help

variable (r' : Relabeling)

/-- Two relabelings of an operator are one. -/
theorem binaryOp_comp (op : BinaryOp) : r.binaryOp (r'.binaryOp op) = (r.comp r').binaryOp op := by
  cases op <;> rfl

/-- So are two of a name that may be missing. -/
theorem name?_comp (x : Option Ident) :
    (x.map r'.ident).map r.ident = x.map (r.comp r').ident := by
  cases x <;> rfl

/-- Nothing is relabeled in an operator. -/
theorem binaryOp_same (op : BinaryOp) : same.binaryOp op = op := by
  cases op <;> rfl

/-- Nothing is relabeled in a name that may be missing. -/
theorem name?_same (x : Option Ident) : x.map same.ident = x := by
  cases x <;> rfl

/-- Two relabelings of a diagnostic are one. -/
theorem diagnostic_comp (d : Diagnostic) :
    r.diagnostic (r'.diagnostic d) = (r.comp r').diagnostic d := by
  induction d with
  | helped inner help ih => exact congrArg (Diagnostic.helped · help) ih
  | _ => rfl

/-- Nothing is relabeled in a diagnostic. -/
theorem diagnostic_same (d : Diagnostic) : same.diagnostic d = d := by
  induction d with
  | helped inner help ih => exact congrArg (Diagnostic.helped · help) ih
  | _ => rfl

/-- Nothing is relabeled in a slot. -/
theorem slot_same (s : Slot) : same.slot s = s := by
  obtain ⟨_ | target⟩ := s
  · rfl
  · cases target <;> rfl

/-- Two relabelings of a slot are one. -/
theorem slot_comp (s : Slot) : r.slot (r'.slot s) = (r.comp r').slot s := by
  obtain ⟨target?⟩ := s
  cases target? with
  | none => rfl
  | some t => cases t <;> rfl

end Relabeling

namespace Node

/-- A tree with new numbers and places. -/
def relabel (r : Relabeling) : {c : Category} → Node c → Node c
  | _, nil => nil
  | _, cons head tail => cons (head.relabel r) (tail.relabel r)
  | _, absent => absent
  | _, present node => present (node.relabel r)
  | _, expr origin form => expr (r.origin origin) (form.relabel r)
  | _, assign target op value => assign (target.relabel r) op (value.relabel r)
  | _, name ident slot => name (r.ident ident) (r.slot slot)
  | _, pathExpr p => pathExpr (p.relabel r)
  | _, literal value => literal value
  | _, binary left op right => binary (left.relabel r) (r.binaryOp op) (right.relabel r)
  | _, unary op operand => unary op (operand.relabel r)
  | _, suffixed op operand => suffixed op (operand.relabel r)
  | _, call callee args => call (callee.relabel r) (args.relabel r)
  | _, index target indices => index (target.relabel r) (indices.relabel r)
  | _, member target field safe => member (target.relabel r) (r.ident field) safe
  | _, list items => list (items.relabel r)
  | _, tuple items => tuple (items.relabel r)
  | _, unit => unit
  | _, construct p fields => construct (p.relabel r) (fields.relabel r)
  | _, blockExpr inner => blockExpr (inner.relabel r)
  | _, cond condition positive negative =>
    cond (condition.relabel r) (positive.relabel r) (negative.relabel r)
  | _, loop body => loop (body.relabel r)
  | _, select subject entries => select (subject.relabel r) (entries.relabel r)
  | _, lambda params result body => lambda (params.relabel r) (result.relabel r) (body.relabel r)
  | _, break_ value => break_ (value.relabel r)
  | _, continue_ => continue_
  | _, return_ value => return_ (value.relabel r)
  | _, throw value => throw (value.relabel r)
  | _, tryCatch body h => tryCatch (body.relabel r) (h.relabel r)
  | _, paren inner => paren (inner.relabel r)
  | _, spread inner => spread (inner.relabel r)
  | _, cast inner t safe => cast (inner.relabel r) (t.relabel r) safe
  | _, this_ => this_
  | _, super => super
  | _, errorExpr => errorExpr
  | _, path global segments span slot =>
    path global (segments.relabel r) (r.span span) (r.slot slot)
  | _, segment ident generics => segment (r.ident ident) (generics.relabel r)
  | _, argument name? value span => argument (name?.map r.ident) (value.relabel r) (r.span span)
  | _, namedField x value => namedField (r.ident x) (value.relabel r)
  | _, shorthandField value => shorthandField (value.relabel r)
  | _, baseField value => baseField (value.relabel r)
  | _, block origin stmts => block (r.origin origin) (stmts.relabel r)
  | _, selectEntry origin conditions body =>
    selectEntry (r.origin origin) (conditions.relabel r) (body.relabel r)
  | _, lambdaParam id x t => lambdaParam (r.id id) (r.ident x) (t.relabel r)
  | _, handler id binding body => handler (r.id id) (r.ident binding) (body.relabel r)
  | _, type origin form => type (r.origin origin) (form.relabel r)
  | _, pathType p => pathType (p.relabel r)
  | _, tupleType items => tupleType (items.relabel r)
  | _, funcType params result => funcType (params.relabel r) (result.relabel r)
  | _, arrayType inner size => arrayType (inner.relabel r) (size.relabel r)
  | _, sliceType inner => sliceType (inner.relabel r)
  | _, parenType inner => parenType (inner.relabel r)
  | _, unitType => unitType
  | _, errorType => errorType
  | _, stmt origin form => stmt (r.origin origin) (form.relabel r)
  | _, exprStmt inner => exprStmt (inner.relabel r)
  | _, varStmt kind x t init => varStmt kind (r.ident x) (t.relabel r) (init.relabel r)
  | _, forStmt binding source body => forStmt (r.ident binding) (source.relabel r) (body.relabel r)
  | _, whileStmt condition body => whileStmt (condition.relabel r) (body.relabel r)
  | _, itemStmt inner => itemStmt (inner.relabel r)
  | _, errorStmt => errorStmt
  | _, item origin attrs modifiers form =>
    item (r.origin origin) (attrs.relabel r) modifiers (form.relabel r)
  | _, funcItem x generics params result body =>
    funcItem (r.ident x) (generics.relabel r) (params.relabel r) (result.relabel r)
      (body.relabel r)
  | _, classItem isStruct x generics supers members =>
    classItem isStruct (r.ident x) (generics.relabel r) (supers.relabel r) (members.relabel r)
  | _, enumItem x generics entries members =>
    enumItem (r.ident x) (generics.relabel r) (entries.relabel r) (members.relabel r)
  | _, traitItem x generics supers members =>
    traitItem (r.ident x) (generics.relabel r) (supers.relabel r) (members.relabel r)
  | _, aliasItem x generics t => aliasItem (r.ident x) (generics.relabel r) (t.relabel r)
  | _, objectItem x supers members =>
    objectItem (r.ident x) (supers.relabel r) (members.relabel r)
  | _, fieldItem kind? x t default =>
    fieldItem kind? (r.ident x) (t.relabel r) (default.relabel r)
  | _, initItem params body => initItem (params.relabel r) (body.relabel r)
  | _, attr x args span => attr (r.ident x) (args.relabel r) (r.span span)
  | _, blockBody inner => blockBody (inner.relabel r)
  | _, exprBody inner => exprBody (inner.relabel r)
  | _, param origin x t default =>
    param (r.origin origin) (r.ident x) (t.relabel r) (default.relabel r)
  | _, generic origin x form => generic (r.origin origin) (r.ident x) (form.relabel r)
  | _, typeGeneric bound => typeGeneric (bound.relabel r)
  | _, lifetimeGeneric => lifetimeGeneric
  | _, constGeneric t default => constGeneric (t.relabel r) (default.relabel r)
  | _, enumEntry origin x form => enumEntry (r.origin origin) (r.ident x) (form.relabel r)
  | _, bareEntry => bareEntry
  | _, valueEntry value => valueEntry (value.relabel r)
  | _, tupleEntry types => tupleEntry (types.relabel r)
  | _, structEntry fields => structEntry (fields.relabel r)
  | _, entryField x t => entryField (r.ident x) (t.relabel r)

/-- One change of a tree after another. -/
theorem relabel_comp (r r' : Relabeling) {c : Category} (n : Node c) :
    (n.relabel r').relabel r = n.relabel (r.comp r') := by
  induction n
  any_goals rfl
  -- Both sides are the same constructor; what is left are its parts.
  all_goals
    conv => lhs; whnf
    conv => rhs; whnf
    congr 1
  all_goals first
    | assumption
    | rfl
    | exact Relabeling.slot_comp ..
    | exact Relabeling.binaryOp_comp ..
    | exact Relabeling.name?_comp ..

/-- A change of nothing. -/
theorem relabel_same {c : Category} (n : Node c) : n.relabel .same = n := by
  induction n
  any_goals rfl
  all_goals
    conv => lhs; whnf
    congr 1
  all_goals first
    | assumption
    | exact Relabeling.slot_same ..
    | exact Relabeling.binaryOp_same ..
    | exact Relabeling.name?_same ..

/-- A sequence is relabeled node by node. -/
theorem relabel_ofList (r : Relabeling) {c : Category} (ns : List (Node c)) :
    (ofList ns).relabel r = ofList (ns.map (relabel r)) := by
  induction ns with
  | nil => rfl
  | cons n ns ih => exact congrArg (cons _) ih

end Node

/-- Values that may hold numbers and places. -/
class Labeled (α : Type) where
  /-- The value with new numbers and places. -/
  relabel : Relabeling → α → α
  /-- One change after another. -/
  relabel_comp : ∀ r r' a, relabel r (relabel r' a) = relabel (r.comp r') a

namespace Labeled

/-- Values that hold no numbers and places. -/
abbrev unlabeled (α : Type) : Labeled α := ⟨fun _ a => a, fun _ _ _ => rfl⟩

instance : Labeled Unit := unlabeled Unit

instance : Labeled Bool := unlabeled Bool

instance : Labeled TokenKind := unlabeled TokenKind

instance : Labeled Modifier := unlabeled Modifier

instance : Labeled PrefixOp := unlabeled PrefixOp

instance : Labeled NodeId := ⟨Relabeling.id, fun _ _ _ => rfl⟩

instance : Labeled Span := ⟨Relabeling.span, fun _ _ _ => rfl⟩

instance : Labeled Ident := ⟨Relabeling.ident, fun _ _ _ => rfl⟩

instance : Labeled Origin := ⟨Relabeling.origin, fun _ _ _ => rfl⟩

instance : Labeled Token := ⟨Relabeling.token, fun _ _ _ => rfl⟩

instance : Labeled Diagnostic := ⟨Relabeling.diagnostic, Relabeling.diagnostic_comp⟩

instance (c : Category) : Labeled (Node c) :=
  ⟨fun r => Node.relabel r, fun r r' => Node.relabel_comp r r'⟩

instance {α : Type} [Labeled α] : Labeled (Option α) where
  relabel := fun r => Option.map (relabel r)
  relabel_comp := fun r r' a => by
    cases a with
    | none => rfl
    | some a => exact congrArg some (relabel_comp r r' a)

instance {α : Type} [Labeled α] : Labeled (List α) where
  relabel := fun r => List.map (relabel r)
  relabel_comp := fun r r' as => by
    rw [List.map_map]
    exact List.map_congr_left fun a _ => relabel_comp r r' a

instance {α β : Type} [Labeled α] [Labeled β] : Labeled (α × β) where
  relabel := fun r => Prod.map (relabel r) (relabel r)
  relabel_comp := fun r r' a => Prod.ext (relabel_comp r r' a.1) (relabel_comp r r' a.2)

end Labeled

/-- When two values are taken for the same: they become equal when the left one is relabeled by
`left` and the right one by `right`. Every left value has a right one, and the ways of putting
places together keep the likeness. -/
structure Likeness where
  /-- What becomes of the left value. -/
  left : Relabeling
  /-- What becomes of the right value. -/
  right : Relabeling
  /-- A right value for every left one. -/
  lift : Relabeling
  lifted : right.comp lift = left
  /-- The union of two places. -/
  cover : ∀ {a a' b b' : Span}, left.span a = right.span a' → left.span b = right.span b' →
    left.span (a.cover b) = right.span (a'.cover b')
  /-- The place from a start up to the last token read. -/
  upTo : ∀ {a a' b b' : Span}, left.span a = right.span a' → left.span b = right.span b' →
    left.span (if b.pos < a.pos then a else a.cover b) =
      right.span (if b'.pos < a'.pos then a' else a'.cover b')

namespace Likeness

/-- Two values are the same but for numbers and places. -/
def Alike {α : Type} [Labeled α] (l : Likeness) (a b : α) : Prop :=
  Labeled.relabel l.left a = Labeled.relabel l.right b

/-- Every left value has a right one. -/
theorem exists_alike {α : Type} [Labeled α] (l : Likeness) (a : α) : ∃ b, l.Alike a b := by
  refine ⟨Labeled.relabel l.lift a, ?_⟩
  unfold Alike
  rw [Labeled.relabel_comp, l.lifted]

/-- Tokens that are alike are of the same kind. -/
theorem Alike.kind {l : Likeness} {x y : Token} (h : l.Alike x y) : x.kind = y.kind :=
  (congrArg Token.kind h :)

/-- Tokens that are alike have spans that are. -/
theorem Alike.span {l : Likeness} {x y : Token} (h : l.Alike x y) : l.Alike x.span y.span :=
  (congrArg Token.span h :)

section Parts

variable {α β : Type} [Labeled α] [Labeled β] {l : Likeness}

/-- The first parts of pairs that are alike. -/
theorem Alike.fst {x y : α × β} (h : l.Alike x y) : l.Alike x.1 y.1 := (congrArg Prod.fst h :)

/-- The second parts of pairs that are alike. -/
theorem Alike.snd {x y : α × β} (h : l.Alike x y) : l.Alike x.2 y.2 := (congrArg Prod.snd h :)

/-- Pairs are alike when both parts are. -/
theorem Alike.pair {x x' : α} {y y' : β} (hx : l.Alike x x') (hy : l.Alike y y') :
    l.Alike (x, y) (x', y') :=
  (congr (congrArg Prod.mk hx) hy :)

/-- No results are like none. -/
theorem alike_nil : l.Alike ([] : List α) [] := rfl

/-- Sequences are alike when their first elements and their other ones are. -/
theorem Alike.cons {x y : α} {xs ys : List α} (hx : l.Alike x y) (hxs : l.Alike xs ys) :
    l.Alike (x :: xs) (y :: ys) :=
  (congr (congrArg List.cons hx) hxs :)

/-- Sequences in a row are alike when each of them is. -/
theorem Alike.append {xs xs' ys ys' : List α} (hx : l.Alike xs xs') (hy : l.Alike ys ys') :
    l.Alike (xs ++ ys) (xs' ++ ys') := by
  change List.map _ _ = List.map _ _
  rw [List.map_append, List.map_append]
  exact (congr (congrArg HAppend.hAppend hx) hy :)

/-- Sequences of nodes that are alike. -/
theorem Alike.ofList {c : Category} {xs ys : List (Node c)} (h : l.Alike xs ys) :
    l.Alike (Node.ofList xs) (Node.ofList ys) := by
  change Node.relabel _ _ = Node.relabel _ _
  rw [Node.relabel_ofList, Node.relabel_ofList]
  exact (congrArg Node.ofList h :)

end Parts

section Places

variable {l : Likeness}

/-- Expressions that are alike have spans that are. -/
theorem Alike.exprSpan {e e' : Expr} (h : l.Alike e e') : l.Alike e.span e'.span := by
  cases e
  cases e'
  exact (congrArg Node.span h :)

/-- Types that are alike have spans that are. -/
theorem Alike.typeSpan {t t' : TypeExpr} (h : l.Alike t t') :
    l.Alike t.typeSpan t'.typeSpan := by
  cases t
  cases t'
  exact (congrArg Node.typeSpan h :)

/-- So have paths. -/
theorem Alike.pathSpan {p p' : Path} (h : l.Alike p p') : l.Alike p.pathSpan p'.pathSpan := by
  cases p
  cases p'
  exact (congrArg Node.pathSpan h :)

end Places

/-- Places that are moved on cover what they covered, moved on. -/
theorem shift_cover {ids bytes : Nat} {a a' b b' : Span}
    (ha : (Relabeling.shift ids bytes).span a = a')
    (hb : (Relabeling.shift ids bytes).span b = b') :
    (Relabeling.shift ids bytes).span (a.cover b) = a'.cover b' := by
  subst ha hb
  simp only [Relabeling.shift, Span.cover, Span.stop, Span.mk.injEq, and_true]
  omega

/-- So do places up to the last token read. -/
theorem shift_upTo {ids bytes : Nat} {a a' b b' : Span}
    (ha : (Relabeling.shift ids bytes).span a = a')
    (hb : (Relabeling.shift ids bytes).span b = b') :
    (Relabeling.shift ids bytes).span (if b.pos < a.pos then a else a.cover b) =
      if b'.pos < a'.pos then a' else a'.cover b' := by
  rw [← shift_cover ha hb]
  subst ha hb
  simp only [Relabeling.shift, Nat.add_lt_add_iff_right]
  split <;> rfl

/-- The right value has all numbers and places moved on. -/
def shift (ids bytes : Nat) : Likeness where
  left := .shift ids bytes
  right := .same
  lift := .shift ids bytes
  lifted := rfl
  cover := shift_cover
  upTo := shift_upTo

/-- Places are not looked at. -/
def unplaced : Likeness where
  left := .unplaced
  right := .unplaced
  lift := .same
  lifted := rfl
  cover := fun _ _ => rfl
  upTo := fun _ _ => rfl

/-- Neither numbers nor places are looked at. -/
def bare : Likeness where
  left := .bare
  right := .bare
  lift := .same
  lifted := rfl
  cover := fun _ _ => rfl
  upTo := fun _ _ => rfl

end Likeness

end FrontEnd
