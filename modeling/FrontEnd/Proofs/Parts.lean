import FrontEnd.Proofs.Traversal

/-!
# Parts of nodes

The parts of a node are the nodes it is made of, in the order in which they are written. What holds
of a node when it holds of its parts holds of all nodes. A fold goes through a whole tree and comes
to a node after all nodes inside it.
-/

namespace FrontEnd.Node

/-- The parts of a node, in source order. -/
def parts : {c : Category} → Node c → List ((c : Category) × Node c)
  | _, cons head tail => [⟨_, head⟩, ⟨_, tail⟩]
  | _, present part => [⟨_, part⟩]
  | _, expr _ form => [⟨_, form⟩]
  | _, assign target _ value => [⟨_, target⟩, ⟨_, value⟩]
  | _, pathExpr p => [⟨_, p⟩]
  | _, binary left _ right => [⟨_, left⟩, ⟨_, right⟩]
  | _, unary _ operand => [⟨_, operand⟩]
  | _, suffixed _ operand => [⟨_, operand⟩]
  | _, call callee args => [⟨_, callee⟩, ⟨_, args⟩]
  | _, index target indices => [⟨_, target⟩, ⟨_, indices⟩]
  | _, member target _ _ => [⟨_, target⟩]
  | _, list items => [⟨_, items⟩]
  | _, tuple items => [⟨_, items⟩]
  | _, construct p fields => [⟨_, p⟩, ⟨_, fields⟩]
  | _, blockExpr b => [⟨_, b⟩]
  | _, cond condition positive negative => [⟨_, condition⟩, ⟨_, positive⟩, ⟨_, negative⟩]
  | _, loop body => [⟨_, body⟩]
  | _, select subject entries => [⟨_, subject⟩, ⟨_, entries⟩]
  | _, lambda params result body => [⟨_, params⟩, ⟨_, result⟩, ⟨_, body⟩]
  | _, break_ value => [⟨_, value⟩]
  | _, return_ value => [⟨_, value⟩]
  | _, throw value => [⟨_, value⟩]
  | _, tryCatch body h => [⟨_, body⟩, ⟨_, h⟩]
  | _, paren inner => [⟨_, inner⟩]
  | _, spread inner => [⟨_, inner⟩]
  | _, cast inner t _ => [⟨_, inner⟩, ⟨_, t⟩]
  | _, path _ segments _ _ => [⟨_, segments⟩]
  | _, segment _ generics => [⟨_, generics⟩]
  | _, argument _ value _ => [⟨_, value⟩]
  | _, namedField _ value => [⟨_, value⟩]
  | _, shorthandField value => [⟨_, value⟩]
  | _, baseField value => [⟨_, value⟩]
  | _, block _ stmts => [⟨_, stmts⟩]
  | _, selectEntry _ conditions body => [⟨_, conditions⟩, ⟨_, body⟩]
  | _, lambdaParam _ _ t => [⟨_, t⟩]
  | _, handler _ _ body => [⟨_, body⟩]
  | _, type _ form => [⟨_, form⟩]
  | _, pathType p => [⟨_, p⟩]
  | _, tupleType items => [⟨_, items⟩]
  | _, funcType params result => [⟨_, params⟩, ⟨_, result⟩]
  | _, arrayType element size => [⟨_, element⟩, ⟨_, size⟩]
  | _, sliceType element => [⟨_, element⟩]
  | _, parenType inner => [⟨_, inner⟩]
  | _, stmt _ form => [⟨_, form⟩]
  | _, exprStmt e => [⟨_, e⟩]
  | _, varStmt _ _ t init => [⟨_, t⟩, ⟨_, init⟩]
  | _, forStmt _ source body => [⟨_, source⟩, ⟨_, body⟩]
  | _, whileStmt condition body => [⟨_, condition⟩, ⟨_, body⟩]
  | _, itemStmt i => [⟨_, i⟩]
  | _, item _ attrs _ form => [⟨_, attrs⟩, ⟨_, form⟩]
  | _, funcItem _ generics params result body =>
    [⟨_, generics⟩, ⟨_, params⟩, ⟨_, result⟩, ⟨_, body⟩]
  | _, classItem _ _ generics supers members => [⟨_, generics⟩, ⟨_, supers⟩, ⟨_, members⟩]
  | _, enumItem _ generics entries members => [⟨_, generics⟩, ⟨_, entries⟩, ⟨_, members⟩]
  | _, traitItem _ generics supers members => [⟨_, generics⟩, ⟨_, supers⟩, ⟨_, members⟩]
  | _, aliasItem _ generics t => [⟨_, generics⟩, ⟨_, t⟩]
  | _, objectItem _ supers members => [⟨_, supers⟩, ⟨_, members⟩]
  | _, fieldItem _ _ t default => [⟨_, t⟩, ⟨_, default⟩]
  | _, initItem params body => [⟨_, params⟩, ⟨_, body⟩]
  | _, attr _ args _ => [⟨_, args⟩]
  | _, blockBody b => [⟨_, b⟩]
  | _, exprBody e => [⟨_, e⟩]
  | _, param _ _ t default => [⟨_, t⟩, ⟨_, default⟩]
  | _, generic _ _ form => [⟨_, form⟩]
  | _, typeGeneric bound => [⟨_, bound⟩]
  | _, constGeneric t default => [⟨_, t⟩, ⟨_, default⟩]
  | _, enumEntry _ _ form => [⟨_, form⟩]
  | _, valueEntry value => [⟨_, value⟩]
  | _, tupleEntry types => [⟨_, types⟩]
  | _, structEntry fields => [⟨_, fields⟩]
  | _, entryField _ t => [⟨_, t⟩]
  | _, _ => []

/-- Go through the nodes of a tree, to each one after those inside it. -/
def fold {α : Type} (f : {c : Category} → Node c → α → α) : {c : Category} → Node c → α → α
  | _, n@nil, a => f n a
  | _, n@(cons head tail), a => f n (tail.fold f (head.fold f a))
  | _, n@absent, a => f n a
  | _, n@(present part), a => f n (part.fold f a)
  | _, n@(expr _ form), a => f n (form.fold f a)
  | _, n@(assign target _ value), a => f n (value.fold f (target.fold f a))
  | _, n@(name _ _), a => f n a
  | _, n@(pathExpr p), a => f n (p.fold f a)
  | _, n@(literal _), a => f n a
  | _, n@(binary left _ right), a => f n (right.fold f (left.fold f a))
  | _, n@(unary _ operand), a => f n (operand.fold f a)
  | _, n@(suffixed _ operand), a => f n (operand.fold f a)
  | _, n@(call callee args), a => f n (args.fold f (callee.fold f a))
  | _, n@(index target indices), a => f n (indices.fold f (target.fold f a))
  | _, n@(member target _ _), a => f n (target.fold f a)
  | _, n@(list items), a => f n (items.fold f a)
  | _, n@(tuple items), a => f n (items.fold f a)
  | _, n@unit, a => f n a
  | _, n@(construct p fields), a => f n (fields.fold f (p.fold f a))
  | _, n@(blockExpr b), a => f n (b.fold f a)
  | _, n@(cond condition positive negative), a =>
    f n (negative.fold f (positive.fold f (condition.fold f a)))
  | _, n@(loop body), a => f n (body.fold f a)
  | _, n@(select subject entries), a => f n (entries.fold f (subject.fold f a))
  | _, n@(lambda params result body), a => f n (body.fold f (result.fold f (params.fold f a)))
  | _, n@(break_ value), a => f n (value.fold f a)
  | _, n@continue_, a => f n a
  | _, n@(return_ value), a => f n (value.fold f a)
  | _, n@(throw value), a => f n (value.fold f a)
  | _, n@(tryCatch body h), a => f n (h.fold f (body.fold f a))
  | _, n@(paren inner), a => f n (inner.fold f a)
  | _, n@(spread inner), a => f n (inner.fold f a)
  | _, n@(cast inner t _), a => f n (t.fold f (inner.fold f a))
  | _, n@this_, a => f n a
  | _, n@super, a => f n a
  | _, n@errorExpr, a => f n a
  | _, n@(path _ segments _ _), a => f n (segments.fold f a)
  | _, n@(segment _ generics), a => f n (generics.fold f a)
  | _, n@(argument _ value _), a => f n (value.fold f a)
  | _, n@(namedField _ value), a => f n (value.fold f a)
  | _, n@(shorthandField value), a => f n (value.fold f a)
  | _, n@(baseField value), a => f n (value.fold f a)
  | _, n@(block _ stmts), a => f n (stmts.fold f a)
  | _, n@(selectEntry _ conditions body), a => f n (body.fold f (conditions.fold f a))
  | _, n@(lambdaParam _ _ t), a => f n (t.fold f a)
  | _, n@(handler _ _ body), a => f n (body.fold f a)
  | _, n@(type _ form), a => f n (form.fold f a)
  | _, n@(pathType p), a => f n (p.fold f a)
  | _, n@(tupleType items), a => f n (items.fold f a)
  | _, n@(funcType params result), a => f n (result.fold f (params.fold f a))
  | _, n@(arrayType element size), a => f n (size.fold f (element.fold f a))
  | _, n@(sliceType element), a => f n (element.fold f a)
  | _, n@(parenType inner), a => f n (inner.fold f a)
  | _, n@unitType, a => f n a
  | _, n@errorType, a => f n a
  | _, n@(stmt _ form), a => f n (form.fold f a)
  | _, n@(exprStmt e), a => f n (e.fold f a)
  | _, n@(varStmt _ _ t init), a => f n (init.fold f (t.fold f a))
  | _, n@(forStmt _ source body), a => f n (body.fold f (source.fold f a))
  | _, n@(whileStmt condition body), a => f n (body.fold f (condition.fold f a))
  | _, n@(itemStmt i), a => f n (i.fold f a)
  | _, n@errorStmt, a => f n a
  | _, n@(item _ attrs _ form), a => f n (form.fold f (attrs.fold f a))
  | _, n@(funcItem _ generics params result body), a =>
    f n (body.fold f (result.fold f (params.fold f (generics.fold f a))))
  | _, n@(classItem _ _ generics supers members), a =>
    f n (members.fold f (supers.fold f (generics.fold f a)))
  | _, n@(enumItem _ generics entries members), a =>
    f n (members.fold f (entries.fold f (generics.fold f a)))
  | _, n@(traitItem _ generics supers members), a =>
    f n (members.fold f (supers.fold f (generics.fold f a)))
  | _, n@(aliasItem _ generics t), a => f n (t.fold f (generics.fold f a))
  | _, n@(objectItem _ supers members), a => f n (members.fold f (supers.fold f a))
  | _, n@(fieldItem _ _ t default), a => f n (default.fold f (t.fold f a))
  | _, n@(initItem params body), a => f n (body.fold f (params.fold f a))
  | _, n@(attr _ args _), a => f n (args.fold f a)
  | _, n@(blockBody b), a => f n (b.fold f a)
  | _, n@(exprBody e), a => f n (e.fold f a)
  | _, n@(param _ _ t default), a => f n (default.fold f (t.fold f a))
  | _, n@(generic _ _ form), a => f n (form.fold f a)
  | _, n@(typeGeneric bound), a => f n (bound.fold f a)
  | _, n@lifetimeGeneric, a => f n a
  | _, n@(constGeneric t default), a => f n (default.fold f (t.fold f a))
  | _, n@(enumEntry _ _ form), a => f n (form.fold f a)
  | _, n@bareEntry, a => f n a
  | _, n@(valueEntry value), a => f n (value.fold f a)
  | _, n@(tupleEntry types), a => f n (types.fold f a)
  | _, n@(structEntry fields), a => f n (fields.fold f a)
  | _, n@(entryField _ t), a => f n (t.fold f a)

variable {c : Category}

/-- What holds of a node when it holds of its parts holds of all nodes. -/
theorem induction_parts {motive : {c : Category} → Node c → Prop}
    (step : {c : Category} → (n : Node c) → (∀ m ∈ n.parts, motive m.2) → motive n) (n : Node c) :
    motive n := by
  induction n <;> refine step _ ?_
  all_goals
    repeat refine List.forall_mem_cons.2 ⟨‹_›, ?_⟩
    exact List.forall_mem_nil _

/-- A fold goes through the parts in source order, and then to the node. -/
theorem fold_eq {α : Type} (f : {c : Category} → Node c → α → α) (n : Node c) (a : α) :
    n.fold f a = f n (n.parts.foldl (fun a m => m.2.fold f a) a) := by
  cases n <;> rfl

/-- What holds of a node and anywhere in its parts holds anywhere in the tree. -/
theorem forall_of_parts {P : {c : Category} → Node c → Prop} {n : Node c} (h : P n)
    (hparts : ∀ m ∈ n.parts, m.2.Forall P) : n.Forall P := by
  have split {c : Category} {m : Node c} {ms : List ((c : Category) × Node c)}
      (h : ∀ k ∈ ⟨c, m⟩ :: ms, k.2.Forall P) : m.Forall P ∧ ∀ k ∈ ms, k.2.Forall P :=
    List.forall_mem_cons.1 h
  cases n
  all_goals
    first
    | exact h
    | exact ⟨h, (split hparts).1⟩
    | exact ⟨h, (split hparts).1, (split (split hparts).2).1⟩
    | exact ⟨h, (split hparts).1, (split (split hparts).2).1, (split (split (split hparts).2).2).1⟩
    | exact ⟨h, (split hparts).1, (split (split hparts).2).1, (split (split (split hparts).2).2).1,
        (split (split (split (split hparts).2).2).2).1⟩

/-- What holds anywhere in a tree holds anywhere in the parts of its root. -/
theorem Forall.parts {P : {c : Category} → Node c → Prop} {n : Node c} (h : n.Forall P) :
    ∀ m ∈ n.parts, m.2.Forall P := by
  cases n
  all_goals
    first
    | exact List.forall_mem_nil _
    | exact List.forall_mem_singleton.2 h.2
    | exact List.forall_mem_cons.2 ⟨h.2.1, List.forall_mem_singleton.2 h.2.2⟩
    | exact List.forall_mem_cons.2 ⟨h.2.1, List.forall_mem_cons.2
        ⟨h.2.2.1, List.forall_mem_singleton.2 h.2.2.2⟩⟩
    | exact List.forall_mem_cons.2 ⟨h.2.1, List.forall_mem_cons.2 ⟨h.2.2.1, List.forall_mem_cons.2
        ⟨h.2.2.2.1, List.forall_mem_singleton.2 h.2.2.2.2⟩⟩⟩

/-- What holds anywhere in a tree holds of its root. -/
theorem Forall.root {P : {c : Category} → Node c → Prop} {n : Node c} (h : n.Forall P) : P n := by
  cases n
  all_goals first
    | exact h
    | exact h.1

section Test

variable {test : {c : Category} → Node c → Bool}

/-- A test that nodes one after the other do not fail was not failed before, either. -/
theorem forall_of_foldl {ms : List ((c : Category) × Node c)}
    (h : ∀ m ∈ ms, ∀ before, m.2.fold (fun k ok => test k && ok) before = true →
      before = true ∧ m.2.Forall fun k => test k = true) (before : Bool)
    (hfold : ms.foldl (fun ok m => m.2.fold (fun k ok => test k && ok) ok) before = true) :
    before = true ∧ ∀ m ∈ ms, m.2.Forall fun k => test k = true := by
  induction ms generalizing before with
  | nil => exact ⟨hfold, List.forall_mem_nil _⟩
  | cons m ms ih =>
    obtain ⟨hm, hms⟩ := List.forall_mem_cons.1 h
    obtain ⟨hfirst, hothers⟩ := ih hms _ hfold
    obtain ⟨hbefore, hall⟩ := hm before hfirst
    exact ⟨hbefore, List.forall_mem_cons.2 ⟨hall, hothers⟩⟩

/-- A test that no node fails in a row holds of all nodes. -/
theorem forall_of_fold (n : Node c) (before : Bool)
    (h : n.fold (fun m ok => test m && ok) before = true) :
    before = true ∧ n.Forall fun m => test m = true := by
  refine induction_parts (motive := fun n => ∀ before,
    n.fold (fun m ok => test m && ok) before = true →
      before = true ∧ n.Forall fun m => test m = true) (fun n ih before h => ?_) n before h
  rw [fold_eq, Bool.and_eq_true] at h
  obtain ⟨hroot, hfold⟩ := h
  obtain ⟨hbefore, hparts⟩ := forall_of_foldl ih before hfold
  exact ⟨hbefore, forall_of_parts hroot hparts⟩

end Test

/-- What follows from something that holds anywhere in a tree holds there as well. -/
theorem Forall.imp {P Q : {c : Category} → Node c → Prop}
    (hPQ : ∀ {c : Category} (n : Node c), P n → Q n) {n : Node c} (h : n.Forall P) : n.Forall Q :=
  induction_parts (motive := fun n => n.Forall P → n.Forall Q)
    (fun _ ih h => forall_of_parts (hPQ _ h.root) fun m hm => ih m hm (h.parts m hm)) n h

/-- Two things that hold anywhere in a tree. -/
theorem Forall.and {P Q : {c : Category} → Node c → Prop} {n : Node c} (hP : n.Forall P)
    (hQ : n.Forall Q) : n.Forall fun m => P m ∧ Q m :=
  induction_parts (motive := fun n => n.Forall P → n.Forall Q → n.Forall fun m => P m ∧ Q m)
    (fun _ ih hP hQ => forall_of_parts ⟨hP.root, hQ.root⟩ fun m hm =>
      ih m hm (hP.parts m hm) (hQ.parts m hm)) n hP hQ

/-- The elements of a sequence inherit what holds anywhere in it. -/
theorem forall_toList {P : {c : Category} → Node c → Prop} :
    (ns : Node (.many c)) → ns.Forall P → ∀ n ∈ ns.toList, n.Forall P
  | .nil, _ => List.forall_mem_nil _
  | .cons _ ns, h => List.forall_mem_cons.2 ⟨h.2.1, forall_toList ns h.2.2⟩

/-- Reading the nodes of a sequence and putting them in a row again. -/
theorem ofList_toList : (ns : Node (.many c)) → ofList ns.toList = ns
  | nil => rfl
  | cons n ns => congrArg (cons n) (ofList_toList ns)

section Collect

variable {α : Type} (f : {c : Category} → Node c → Option α)

/-- What the nodes of a tree have of some kind, behind what was collected before. Nodes come after
those inside them. -/
def collect (n : Node c) (before : List α) : List α :=
  n.fold (fun m found => (f m).elim found (found ++ [·])) before

/-- What is collected from the parts of a node, and what the node itself has, follow each other. -/
theorem collect_eq_foldl (n : Node c) (before : List α) :
    n.collect f before =
      n.parts.foldl (fun found m => m.2.collect f found) before ++ (f n).toList := by
  unfold collect
  rw [fold_eq]
  dsimp only
  cases f n with
  | none => exact (List.append_nil _).symm
  | some a => rfl

/-- What was collected before stays in front of what is collected from nodes one after the other. -/
theorem foldl_collect {ms : List ((c : Category) × Node c)}
    (h : ∀ m ∈ ms, ∀ before, m.2.collect f before = before ++ m.2.collect f []) (before : List α) :
    ms.foldl (fun found m => m.2.collect f found) before =
      before ++ ms.flatMap fun m => m.2.collect f [] := by
  induction ms generalizing before with
  | nil => exact (List.append_nil before).symm
  | cons m ms ih =>
    obtain ⟨hm, hms⟩ := List.forall_mem_cons.1 h
    rw [List.foldl_cons, ih hms, hm before, List.flatMap_cons, List.append_assoc]

/-- What was collected before stays in front. -/
theorem collect_eq_append (n : Node c) (before : List α) :
    n.collect f before = before ++ n.collect f [] := by
  refine induction_parts
    (motive := fun n => ∀ before, n.collect f before = before ++ n.collect f [])
    (fun n ih before => ?_) n before
  rw [collect_eq_foldl, collect_eq_foldl f n [], foldl_collect f ih, foldl_collect f ih [],
    List.nil_append, List.append_assoc]

/-- What is collected from a tree is what is collected from its parts, and then from its root. -/
theorem collect_nil (n : Node c) :
    n.collect f [] = n.parts.flatMap (fun m => m.2.collect f []) ++ (f n).toList := by
  rw [collect_eq_foldl, foldl_collect f fun m _ => collect_eq_append f m.2, List.nil_append]

/-- What was collected before is not lost. -/
theorem sublist_collect (n : Node c) (before : List α) : before.Sublist (n.collect f before) := by
  rw [collect_eq_append]
  exact List.sublist_append_left before _

/-- Everything the nodes of a tree have is collected. -/
theorem forall_mem_collect (n : Node c) : n.Forall fun m => ∀ a ∈ f m, a ∈ n.collect f [] := by
  have h {found : List α} (n : Node c) (hfound : n.collect f [] ⊆ found) :
      n.Forall fun m => ∀ a ∈ f m, a ∈ found := by
    refine induction_parts (motive := fun n => n.collect f [] ⊆ found →
      n.Forall fun m => ∀ a ∈ f m, a ∈ found) (fun n ih hfound => ?_) n hfound
    rw [collect_nil, List.append_subset] at hfound
    obtain ⟨hparts, hroot⟩ := hfound
    exact forall_of_parts (fun a ha => hroot (Option.mem_toList.2 ha)) fun m hm =>
      ih m hm fun a ha => hparts (List.mem_flatMap.2 ⟨m, hm, ha⟩)
  exact h n (List.Subset.refl _)

/-- What follows at every node from what holds anywhere inside it holds of all that is collected. -/
theorem forall_collect {P : {c : Category} → Node c → Prop} {Q : α → Prop}
    (h : ∀ {c : Category} (n : Node c), n.Forall P → ∀ a ∈ f n, Q a) (n : Node c)
    (hn : n.Forall P) : ∀ a ∈ n.collect f [], Q a := by
  refine induction_parts (motive := fun n => n.Forall P → ∀ a ∈ n.collect f [], Q a)
    (fun n ih hn a ha => ?_) n hn
  rw [collect_nil, List.mem_append, List.mem_flatMap, Option.mem_toList] at ha
  rcases ha with ⟨m, hm, ha⟩ | ha
  · exact ih m hm (hn.parts m hm) a ha
  · exact h n hn a ha

/-- What is collected from a sequence, which has nothing itself, is collected from its nodes. -/
theorem collect_ofList (hf : ∀ ns : Node (.many c), f ns = none) (ns : List (Node c)) :
    (ofList ns).collect f [] = ns.flatMap fun n => n.collect f [] := by
  induction ns with
  | nil =>
    rw [collect_nil, hf]
    rfl
  | cons n ns ih =>
    rw [collect_nil, hf, List.flatMap_cons, ← ih]
    exact (List.append_nil _).trans (congrArg _ (List.append_nil _))

/-- What comes with something else of the same nodes is part of what is collected of that. -/
theorem collect_sublist {β : Type} {g : {c : Category} → Node c → Option β} {image : α → β}
    (h : ∀ {c : Category} (n : Node c), ∀ a ∈ f n, g n = some (image a)) (n : Node c) :
    ((n.collect f []).map image).Sublist (n.collect g []) := by
  refine induction_parts (motive := fun n => ((n.collect f []).map image).Sublist (n.collect g []))
    (fun n ih => ?_) n
  rw [collect_nil, collect_nil, List.map_append, List.map_flatMap]
  refine List.Sublist.append ?_ ?_
  · generalize n.parts = ms at ih
    induction ms with
    | nil => exact .slnil
    | cons m ms ihms =>
      obtain ⟨hm, hms⟩ := List.forall_mem_cons.1 ih
      rw [List.flatMap_cons, List.flatMap_cons]
      exact hm.append (ihms hms)
  · cases hn : f n with
    | none => exact List.nil_sublist _
    | some a => rw [h n a hn]; exact .refl _

/-- What is picked out of something else of the same nodes is picked out of all that is collected
of that. -/
theorem collect_filterMap {β : Type} {g : {c : Category} → Node c → Option β} {pick : α → Option β}
    (h : ∀ {c : Category} (n : Node c), g n = (f n).bind pick) (n : Node c) :
    (n.collect f []).filterMap pick = n.collect g [] := by
  refine induction_parts (motive := fun n => (n.collect f []).filterMap pick = n.collect g [])
    (fun n ih => ?_) n
  have hroot : (f n).toList.filterMap pick = (g n).toList := by
    rw [h n]
    cases f n with
    | none => rfl
    | some a => cases hpick : pick a <;> simp [hpick]
  rw [collect_nil, collect_nil, List.filterMap_append, List.filterMap_flatMap, hroot,
    List.flatMap_def, List.flatMap_def, List.map_congr_left ih]

end Collect

end FrontEnd.Node
