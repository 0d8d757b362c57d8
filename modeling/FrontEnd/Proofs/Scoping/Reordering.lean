import FrontEnd.Proofs.Parts
import FrontEnd.Proofs.Scoping.Order

/-!
# Walks side by side

A tree in which the statements of every block were put in another order is walked, and so is the
tree as it was. `Parallel` compares two such steps: from stacks that are alike the second one has a
result if the first one has, the stacks behind them are alike again, and both wrote down the same,
perhaps in another order. That holds for whole trees if it holds for the statements of one block.
-/

namespace FrontEnd

namespace Node

/-- A tree in which the statements of every block are put in another order, inner blocks first. -/
def rearrange (f : List Stmt → List Stmt) : {c : Category} → Node c → Node c
  | _, nil => nil
  | _, cons head tail => cons (head.rearrange f) (tail.rearrange f)
  | _, absent => absent
  | _, present node => present (node.rearrange f)
  | _, expr o form => expr o (form.rearrange f)
  | _, assign target op value => assign (target.rearrange f) op (value.rearrange f)
  | _, name ident slot => name ident slot
  | _, pathExpr p => pathExpr (p.rearrange f)
  | _, literal value => literal value
  | _, binary left op right => binary (left.rearrange f) op (right.rearrange f)
  | _, unary op operand => unary op (operand.rearrange f)
  | _, suffixed op operand => suffixed op (operand.rearrange f)
  | _, call callee args => call (callee.rearrange f) (args.rearrange f)
  | _, index target indices => index (target.rearrange f) (indices.rearrange f)
  | _, member target field safe => member (target.rearrange f) field safe
  | _, list items => list (items.rearrange f)
  | _, tuple items => tuple (items.rearrange f)
  | _, unit => unit
  | _, construct p fields => construct (p.rearrange f) (fields.rearrange f)
  | _, blockExpr inner => blockExpr (inner.rearrange f)
  | _, cond condition positive negative =>
    cond (condition.rearrange f) (positive.rearrange f) (negative.rearrange f)
  | _, loop body => loop (body.rearrange f)
  | _, select subject entries => select (subject.rearrange f) (entries.rearrange f)
  | _, lambda params result body =>
    lambda (params.rearrange f) (result.rearrange f) (body.rearrange f)
  | _, break_ value => break_ (value.rearrange f)
  | _, continue_ => continue_
  | _, return_ value => return_ (value.rearrange f)
  | _, throw value => throw (value.rearrange f)
  | _, tryCatch body h => tryCatch (body.rearrange f) (h.rearrange f)
  | _, paren inner => paren (inner.rearrange f)
  | _, spread inner => spread (inner.rearrange f)
  | _, cast inner t safe => cast (inner.rearrange f) (t.rearrange f) safe
  | _, this_ => this_
  | _, super => super
  | _, errorExpr => errorExpr
  | _, path global segments span slot => path global (segments.rearrange f) span slot
  | _, segment ident generics => segment ident (generics.rearrange f)
  | _, argument name? value span => argument name? (value.rearrange f) span
  | _, namedField ident value => namedField ident (value.rearrange f)
  | _, shorthandField value => shorthandField (value.rearrange f)
  | _, baseField value => baseField (value.rearrange f)
  | _, block o stmts => block o (ofList (f (stmts.rearrange f).toList))
  | _, selectEntry o conditions body =>
    selectEntry o (conditions.rearrange f) (body.rearrange f)
  | _, lambdaParam id ident t => lambdaParam id ident (t.rearrange f)
  | _, handler id binding body => handler id binding (body.rearrange f)
  | _, type o form => type o (form.rearrange f)
  | _, pathType p => pathType (p.rearrange f)
  | _, tupleType items => tupleType (items.rearrange f)
  | _, funcType params result => funcType (params.rearrange f) (result.rearrange f)
  | _, arrayType element size => arrayType (element.rearrange f) (size.rearrange f)
  | _, sliceType element => sliceType (element.rearrange f)
  | _, parenType inner => parenType (inner.rearrange f)
  | _, unitType => unitType
  | _, errorType => errorType
  | _, stmt o form => stmt o (form.rearrange f)
  | _, exprStmt e => exprStmt (e.rearrange f)
  | _, varStmt kind ident t init => varStmt kind ident (t.rearrange f) (init.rearrange f)
  | _, forStmt binding source body => forStmt binding (source.rearrange f) (body.rearrange f)
  | _, whileStmt condition body => whileStmt (condition.rearrange f) (body.rearrange f)
  | _, itemStmt i => itemStmt (i.rearrange f)
  | _, errorStmt => errorStmt
  | _, item o attrs modifiers form => item o (attrs.rearrange f) modifiers (form.rearrange f)
  | _, funcItem ident generics params result body =>
    funcItem ident (generics.rearrange f) (params.rearrange f) (result.rearrange f)
      (body.rearrange f)
  | _, classItem isStruct ident generics supers members =>
    classItem isStruct ident (generics.rearrange f) (supers.rearrange f) (members.rearrange f)
  | _, enumItem ident generics entries members =>
    enumItem ident (generics.rearrange f) (entries.rearrange f) (members.rearrange f)
  | _, traitItem ident generics supers members =>
    traitItem ident (generics.rearrange f) (supers.rearrange f) (members.rearrange f)
  | _, aliasItem ident generics t => aliasItem ident (generics.rearrange f) (t.rearrange f)
  | _, objectItem ident supers members =>
    objectItem ident (supers.rearrange f) (members.rearrange f)
  | _, fieldItem kind? ident t default =>
    fieldItem kind? ident (t.rearrange f) (default.rearrange f)
  | _, initItem params body => initItem (params.rearrange f) (body.rearrange f)
  | _, attr ident args span => attr ident (args.rearrange f) span
  | _, blockBody b => blockBody (b.rearrange f)
  | _, exprBody e => exprBody (e.rearrange f)
  | _, param o ident t default => param o ident (t.rearrange f) (default.rearrange f)
  | _, generic o ident form => generic o ident (form.rearrange f)
  | _, typeGeneric bounds => typeGeneric (bounds.rearrange f)
  | _, lifetimeGeneric => lifetimeGeneric
  | _, constGeneric t default => constGeneric (t.rearrange f) (default.rearrange f)
  | _, enumEntry o ident form => enumEntry o ident (form.rearrange f)
  | _, bareEntry => bareEntry
  | _, valueEntry value => valueEntry (value.rearrange f)
  | _, tupleEntry types => tupleEntry (types.rearrange f)
  | _, structEntry fields => structEntry (fields.rearrange f)
  | _, entryField ident t => entryField ident (t.rearrange f)
termination_by structural _ n => n

/-- Putting nothing in another order. -/
theorem rearrange_id {c : Category} (n : Node c) : n.rearrange id = n := by
  induction n with
  | block o stmts ih =>
    unfold rearrange
    rw [id, ih, ofList_toList]
  | _ => simp only [rearrange, *]

/-- In a sequence every node is rearranged by itself. -/
theorem toList_rearrange (f : List Stmt → List Stmt) {c : Category} :
    (ns : Node (.many c)) → (ns.rearrange f).toList = ns.toList.map (rearrange f)
  | nil => rfl
  | cons n ns => congrArg (n.rearrange f :: ·) (toList_rearrange f ns)

/-- What declarations declare does not depend on what is inside them. -/
theorem hoists_rearrange (f : List Stmt → List Stmt) {c : Category} :
    (n : Node c) → (n.rearrange f).hoists = n.hoists := by
  intro n
  induction n with
  | cons n ns ihn ihns => exact congrArg₂ (· ++ ·) ihn ihns
  | stmt o form ih => exact ih
  | itemStmt i ih => exact ih
  | item o attrs modifiers form => cases form <;> rfl
  | _ => rfl

/-- Nor does what a generic parameter declares. -/
theorem genericDeclares_rearrange (f : List Stmt → List Stmt) (ident : Ident) (id : NodeId)
    (form : Node .genericForm) :
    (form.rearrange f).genericDeclares ident id = form.genericDeclares ident id := by
  cases form <;> rfl

end Node

/-- A stack on which something was declared in the innermost scope at most; a quiet step does not
even do that. -/
def ScopeStack.Kept (quiet : Bool) (s t : ScopeStack) : Prop :=
  if quiet then t = s else t.scopes.tail = s.scopes.tail

namespace ScopeStack.Kept

variable {quiet : Bool} {s t u : ScopeStack}

theorem refl (quiet : Bool) (s : ScopeStack) : Kept quiet s s := by
  cases quiet <;> rfl

theorem trans (h : Kept quiet s t) (h' : Kept quiet t u) : Kept quiet s u := by
  cases quiet <;> exact Eq.trans h' h

/-- Around the innermost scope nothing has changed. -/
theorem tail (h : Kept quiet s t) : t.scopes.tail = s.scopes.tail := by
  cases quiet with
  | true => exact congrArg (fun s : ScopeStack => s.scopes.tail) h
  | false => exact h

end ScopeStack.Kept

/-- What is left of a stack is what was around its innermost scope. -/
theorem ScopeStack.scopes_of_exit {s outer : ScopeStack} {scope : Scope}
    (h : s.exit = .ok (scope, outer)) : outer.scopes = s.scopes.tail := by
  obtain ⟨inner, root⟩ := s
  cases inner with
  | nil => cases h
  | cons first inner =>
    cases h
    rfl

/-- Two lists became longer by the same elements, perhaps in another order. -/
def Grown {α : Type} (as bs as' bs' : List α) : Prop :=
  ∃ more more', bs = as ++ more ∧ bs' = as' ++ more' ∧ more.Perm more'

namespace Grown

variable {α : Type} {as bs cs as' bs' cs' cs'' : List α}

theorem refl (as as' : List α) : Grown as as as' as' :=
  ⟨[], [], (List.append_nil as).symm, (List.append_nil as').symm, .refl _⟩

/-- The same element for both. -/
theorem snoc (as as' : List α) (a : α) : Grown as (as ++ [a]) as' (as' ++ [a]) :=
  ⟨[a], [a], rfl, rfl, .refl _⟩

theorem trans (h : Grown as bs as' bs') (h' : Grown bs cs bs' cs') : Grown as cs as' cs' := by
  obtain ⟨more, more', rfl, rfl, hperm⟩ := h
  obtain ⟨last, last', rfl, rfl, hperm'⟩ := h'
  exact ⟨more ++ last, more' ++ last', by rw [List.append_assoc], by rw [List.append_assoc],
    hperm.append hperm'⟩

/-- What the first list gets first, the other one gets last. -/
theorem cross (h : Grown as bs bs' cs') (h' : Grown bs cs as' bs') : Grown as cs as' cs' := by
  obtain ⟨more, more', rfl, rfl, hperm⟩ := h
  obtain ⟨last, last', rfl, rfl, hperm'⟩ := h'
  exact ⟨more ++ last, last' ++ more', by rw [List.append_assoc], by rw [List.append_assoc],
    (hperm.append hperm').trans List.perm_append_comm⟩

/-- Lists that were empty before. -/
theorem perm (h : Grown [] bs [] bs') : bs.Perm bs' := by
  obtain ⟨more, more', rfl, rfl, hperm⟩ := h
  exact hperm

/-- Two lists that are both compared with a third one. -/
theorem compare (h : Grown as bs as' bs') (h' : Grown as' bs' cs' cs'') : Grown as bs cs' cs'' := by
  obtain ⟨more, more', rfl, rfl, hperm⟩ := h
  obtain ⟨last, last', hlast, rfl, hperm'⟩ := h'
  obtain rfl := List.append_cancel_left hlast
  exact ⟨more, last', rfl, rfl, hperm.trans hperm'⟩

end Grown

/-- What two runs of a step lead to: stacks that are alike, the same in the table and the same
errors. -/
structure Beside (quiet : Bool) (s s' t t' : ResolveState) : Prop where
  alike : t.scopes.Alike t'.scopes
  kept : ScopeStack.Kept quiet s.scopes t.scopes
  kept' : ScopeStack.Kept quiet s'.scopes t'.scopes
  table : Grown s.table t.table s'.table t'.table
  errors : Grown s.errors t.errors s'.errors t'.errors

/-- If a step has a result, another one has a result too from a stack that is alike, and they lead
to the same but for the order. -/
def Parallel (quiet : Bool) {α β : Type} (m : Resolver α) (m' : Resolver β) : Prop :=
  ∀ s s' a t, s.scopes.Alike s'.scopes → m s = .ok a t →
    ∃ b t', m' s' = .ok b t' ∧ Beside quiet s s' t t'

namespace Beside

variable {quiet : Bool} {s s' s'' t t' t'' u u' : ResolveState}

theorem refl (h : s.scopes.Alike s'.scopes) : Beside quiet s s' s s' :=
  ⟨h, .refl quiet _, .refl quiet _, .refl _ _, .refl _ _⟩

theorem trans (h : Beside quiet s s' t t') (h' : Beside quiet t t' u u') :
    Beside quiet s s' u u' :=
  ⟨h'.alike, h.kept.trans h'.kept, h.kept'.trans h'.kept', h.table.trans h'.table,
    h.errors.trans h'.errors⟩

theorem compare (h : Beside quiet s s' t t') (h' : Beside quiet s' s'' t' t'') :
    Beside quiet s s'' t t'' :=
  ⟨h.alike.trans h'.alike, h.kept, h'.kept', h.table.compare h'.table, h.errors.compare h'.errors⟩

theorem loose (h : Beside quiet s s' t t') : Beside false s s' t t' :=
  ⟨h.alike, h.kept.tail, h.kept'.tail, h.table, h.errors⟩

end Beside

namespace Parallel

open Resolve

variable {quiet : Bool} {α α' β β' γ γ' : Type}

/-- Results without a step. -/
theorem pure {a : α} {b : β} : Parallel quiet (Pure.pure a) (Pure.pure b) := by
  intro s s' a' t h hrun
  cases hrun
  exact ⟨b, s', rfl, .refl h⟩

/-- One step after another. What comes later may rely on where the results come from. -/
theorem bind_of {m : Resolver α} {m' : Resolver α'} {k : α → Resolver β} {k' : α' → Resolver β'}
    (hm : Parallel quiet m m') (hk : ∀ a a' s t s' t', m s = .ok a t → m' s' = .ok a' t' →
      Parallel quiet (k a) (k' a')) : Parallel quiet (m >>= k) (m' >>= k') := by
  intro s s' b u h hrun
  obtain ⟨a, t, hfirst, hthen⟩ := of_bind hrun
  obtain ⟨a', t', hfirst', hbeside⟩ := hm s s' a t h hfirst
  obtain ⟨b', u', hthen', hbeside'⟩ :=
    hk a a' s t s' t' hfirst hfirst' t t' b u hbeside.alike hthen
  exact ⟨b', u', (run_bind hfirst').trans hthen', hbeside.trans hbeside'⟩

theorem bind {m : Resolver α} {m' : Resolver α'} {k : α → Resolver β} {k' : α' → Resolver β'}
    (hm : Parallel quiet m m') (hk : ∀ a a', Parallel quiet (k a) (k' a')) :
    Parallel quiet (m >>= k) (m' >>= k') :=
  hm.bind_of fun a a' _ _ _ _ _ _ => hk a a'

/-- A node with one part. -/
theorem map {m : Resolver α} {m' : Resolver α'} {g : α → β} {g' : α' → β'}
    (hm : Parallel quiet m m') : Parallel quiet (do return g (← m)) (do return g' (← m')) :=
  hm.bind fun _ _ => pure

/-- A node with two parts. -/
theorem map₂ {m : Resolver α} {m' : Resolver α'} {n : Resolver β} {n' : Resolver β'}
    {g : α → β → γ} {g' : α' → β' → γ'} (hm : Parallel quiet m m') (hn : Parallel quiet n n') :
    Parallel quiet (do return g (← m) (← n)) (do return g' (← m') (← n')) :=
  hm.bind fun _ _ => hn.map

/-- What is done with the results does not matter. -/
theorem of_map {m : Resolver α} {m' : Resolver α'} {g : α → β} {g' : α' → β'}
    (h : Parallel quiet (do return g (← m)) (do return g' (← m'))) : Parallel quiet m m' := by
  intro s s' a t halike hrun
  obtain ⟨b, t', hrun', hbeside⟩ := h s s' (g a) t halike (run_bind hrun)
  obtain ⟨a', t'', hfirst, hthen⟩ := of_bind hrun'
  cases hthen
  exact ⟨a', t', hfirst, hbeside⟩

/-- A quiet step among others. -/
theorem loose {m : Resolver α} {m' : Resolver α'} (h : Parallel quiet m m') :
    Parallel false m m' := by
  intro s s' a t halike hrun
  obtain ⟨b, t', hrun', hbeside⟩ := h s s' a t halike hrun
  exact ⟨b, t', hrun', hbeside.loose⟩

/-- A step without a result. -/
theorem stopped {d : Defect} {m' : Resolver β} : Parallel quiet (throw d : Resolver α) m' := by
  intro s s' a t h hrun
  cases hrun

theorem trans {m : Resolver α} {m' : Resolver β} {m'' : Resolver γ} (h : Parallel quiet m m')
    (h' : Parallel quiet m' m'') : Parallel quiet m m'' := by
  intro s s'' a t halike hrun
  obtain ⟨b, t', hrun', hbeside⟩ := h s s a t (halike.trans halike.symm) hrun
  obtain ⟨c, t'', hrun'', hbeside'⟩ := h' s s'' b t' halike hrun'
  exact ⟨c, t'', hrun'', hbeside.compare hbeside'⟩

/-- Two quiet steps may be made in any order. -/
theorem exchange {m : Resolver α} {n : Resolver β} {k : α → β → Resolver γ}
    {k' : α → β → Resolver γ'} (hm : Parallel true m m) (hn : Parallel true n n)
    (hk : ∀ a b a' b', Parallel quiet (k a b) (k' a' b')) :
    Parallel quiet (do let a ← m; let b ← n; k a b) (do let b ← n; let a ← m; k' a b) := by
  intro s s' c u h hrun
  obtain ⟨a, t₁, hrun₁, hrun⟩ := of_bind hrun
  obtain ⟨b, t₂, hrun₂, hthen⟩ := of_bind hrun
  obtain ⟨_, _, -, hself⟩ := hm s s a t₁ (h.trans h.symm) hrun₁
  have hkept : t₁.scopes = s.scopes := hself.kept
  obtain ⟨b', t₁', hrun₁', hsecond⟩ := hn t₁ s' b t₂ (hkept ▸ h) hrun₂
  have hkept' : t₁'.scopes = s'.scopes := hsecond.kept'
  obtain ⟨a', t₂', hrun₂', hfirst⟩ := hm s t₁' a t₁ (hkept' ▸ h) hrun₁
  have hlast : t₂.scopes = t₁.scopes := hsecond.kept
  have hlast' : t₂'.scopes = t₁'.scopes := hfirst.kept'
  have hbeside : Beside quiet s s' t₂ t₂' := by
    refine ⟨?_, ?_, ?_, hfirst.table.cross hsecond.table, hfirst.errors.cross hsecond.errors⟩
    · rw [hlast, hkept, hlast', hkept']
      exact h
    · rw [hlast, hkept]
      exact .refl quiet _
    · rw [hlast', hkept']
      exact .refl quiet _
  obtain ⟨c', u', hthen', hbeside'⟩ := hk a b a' b' t₂ t₂' c u hbeside.alike hthen
  exact ⟨c', u', (run_bind hrun₁').trans ((run_bind hrun₂').trans hthen'), hbeside.trans hbeside'⟩

/-- A step that depends on the state. -/
theorem get {k : ResolveState → Resolver β} {k' : ResolveState → Resolver β'}
    (hk : ∀ s s', s.scopes.Alike s'.scopes → Parallel quiet (k s) (k' s')) :
    Parallel quiet (MonadState.get >>= k) (MonadState.get >>= k') :=
  fun s s' b t h hrun => hk s s' h s s' b t h hrun

end Parallel

namespace Resolve

variable {quiet : Bool}

/-- A problem is reported alike. -/
theorem report_parallel (problem : ResolveProblem) (span : Span) :
    Parallel quiet (report problem span) (report problem span) := by
  intro s s' a t h hrun
  cases hrun
  exact ⟨(), _, rfl, h, .refl quiet _, .refl quiet _, .refl _ _, .snoc _ _ _⟩

/-- A keyword is in the wrong place for both or for none. -/
theorem check_parallel {misplaced : ResolveState → Prop} [∀ s, Decidable (misplaced s)]
    {problem : ResolveProblem} {span : Span}
    (hmisplaced : ∀ s s', s.scopes.Alike s'.scopes → (misplaced s ↔ misplaced s')) :
    Parallel quiet (do if misplaced (← get) then report problem span)
      (do if misplaced (← get) then report problem span) := by
  refine .get fun s s' h => ?_
  by_cases hs : misplaced s
  · rw [if_pos hs, if_pos ((hmisplaced s s' h).1 hs)]
    exact report_parallel problem span
  · rw [if_neg hs, if_neg (hs ∘ (hmisplaced s s' h).2)]
    exact .pure

/-- Whether there is a loop around is found alike. -/
theorem checkInLoop_parallel (word : String) (span : Span) :
    Parallel quiet (checkInLoop word span) (checkInLoop word span) :=
  check_parallel fun _ _ h => by rw [h.find]

/-- So is whether there is a function around. -/
theorem checkInFunction_parallel (span : Span) :
    Parallel quiet (checkInFunction span) (checkInFunction span) :=
  check_parallel fun _ _ h => by rw [h.find]

/-- So is whether there is a type around. -/
theorem checkInType_parallel (word : String) (span : Span) :
    Parallel quiet (checkInType word span) (checkInType word span) :=
  check_parallel fun _ _ h => by rw [h.find]

/-- What is reported where a name is declared again. -/
def redeclared (scopes : ScopeStack) (d : Registration) : List ResolveError :=
  (scopes.current.get? d.space d.ident.name).toList.map fun previous =>
    ⟨.redeclared d.ident.name previous.span?, d.ident.span⟩

/-- Declaring a name, whether it is new or not. -/
theorem declare_run (d : Registration) (s : ResolveState) : d.declare s = .ok () { s with
    scopes := s.scopes.declare d.space d.ident.name d.binding
    errors := s.errors ++ redeclared s.scopes d } := by
  have hget : (get : Resolver ResolveState) s = .ok s s := rfl
  unfold Registration.declare define
  rw [run_bind hget]
  unfold ScopeStack.declare Scope.declare redeclared
  cases hold : s.scopes.current.get? d.space d.ident.name with
  | none =>
    rw [ScopeStack.define_new hold]
    simp only [Option.isNone_none, if_true, Option.toList_none, List.map_nil, List.append_nil]
    rfl
  | some previous =>
    rw [ScopeStack.define_old hold]
    simp only [Option.isNone_some, Bool.false_eq_true, if_false, Option.toList_some,
      List.map_singleton, ScopeStack.setCurrent_current]
    rfl

/-- A name is redeclared in stacks that are alike together. -/
theorem redeclared_alike {a b : ScopeStack} (h : a.Alike b) (d : Registration) :
    redeclared a d = redeclared b d := by
  unfold redeclared
  rw [h.current.get?]

/-- A declaration changes only the innermost scope. -/
theorem declare_kept (s : ScopeStack) (d : Registration) :
    ScopeStack.Kept false s (s.declare d.space d.ident.name d.binding) := by
  change (s.setCurrent _).scopes.tail = _
  rw [ScopeStack.scopes_setCurrent]
  rfl

/-- A name is declared in both walks, or is an error in both. -/
theorem declare_parallel (d : Registration) : Parallel false d.declare d.declare := by
  intro s s' a t h hrun
  rw [declare_run] at hrun
  cases hrun
  refine ⟨(), _, declare_run d s', h.declare _ _ _, declare_kept _ _, declare_kept _ _,
    .refl _ _, ?_⟩
  rw [redeclared_alike h]
  exact ⟨_, _, rfl, rfl, .refl _⟩

/-- Names are declared one after the other. -/
theorem declares_parallel (ds : List Registration) :
    Parallel false (ds.forM Registration.declare) (ds.forM Registration.declare) := by
  induction ds with
  | nil => exact .pure
  | cons d ds ih => exact .bind (declare_parallel d) fun _ _ => ih

/-- Different names may be declared in any order. -/
theorem declare_exchange {d d' : Registration}
    (h : d.space ≠ d'.space ∨ d.ident.name ≠ d'.ident.name) :
    Parallel false (do d.declare; d'.declare) (do d'.declare; d.declare) := by
  have hnew {d d' : Registration} (h : d.space ≠ d'.space ∨ d.ident.name ≠ d'.ident.name)
      (scopes : ScopeStack) :
      redeclared (scopes.declare d.space d.ident.name d.binding) d' = redeclared scopes d' := by
    unfold redeclared ScopeStack.declare
    rw [ScopeStack.current_setCurrent, Scope.get?_declare _ _ h]
  intro s s' a t halike hrun
  rw [run_bind (declare_run d s), declare_run] at hrun
  cases hrun
  refine ⟨(), _, (run_bind (declare_run d' s')).trans (declare_run d _),
    halike.declare_comm h _ _, (declare_kept _ d).trans (declare_kept _ d'),
    (declare_kept _ d').trans (declare_kept _ d), .refl _ _, ?_⟩
  dsimp only
  rw [hnew h, hnew (h.imp Ne.symm Ne.symm), redeclared_alike halike, redeclared_alike halike,
    List.append_assoc, List.append_assoc]
  exact ⟨_, _, rfl, rfl, List.perm_append_comm⟩

/-- A construct is left with the scopes that were around it. -/
theorem inScope_parallel {inner : Bool} {α β : Type} {inside : Resolver α} {inside' : Resolver β}
    (kind : ScopeKind) (h : Parallel inner inside inside') :
    Parallel quiet (inScope kind inside) (inScope kind inside') := by
  have hexit {s t outer : ScopeStack} {scope : Scope}
    (hkept : ScopeStack.Kept inner (s.enter kind) t)
      (hexit : t.exit = .ok (scope, outer)) : outer = s :=
    ScopeStack.eq_of_scopes ((ScopeStack.scopes_of_exit hexit).trans hkept.tail)
  intro s s' a t halike hrun
  have hget (s : ResolveState) : (get : Resolver ResolveState) s = .ok s s := rfl
  unfold inScope at hrun ⊢
  have henter (s : ResolveState) : (modify fun s => { s with scopes := s.scopes.enter kind } :
      Resolver Unit) s = .ok () { s with scopes := s.scopes.enter kind } := rfl
  rw [run_bind (henter s)] at hrun
  obtain ⟨a, t₁, hinside, hrun⟩ := of_bind hrun
  obtain ⟨b, t₁', hinside', hbeside⟩ := h _ { s' with scopes := s'.scopes.enter kind } a t₁
    (halike.enter kind) hinside
  rw [run_bind (hget t₁)] at hrun
  cases hleft : t₁.scopes.exit with
  | error d => rw [hleft] at hrun; cases hrun
  | ok left =>
    obtain ⟨scope, outer⟩ := left
    obtain ⟨scope', outer', hleft', -⟩ := hbeside.alike.exit hleft
    obtain rfl := hexit hbeside.kept hleft
    obtain rfl := hexit hbeside.kept' hleft'
    rw [hleft] at hrun
    cases hrun
    refine ⟨b, { t₁' with scopes := s'.scopes }, ?_, halike, .refl quiet _, .refl quiet _,
      hbeside.table, hbeside.errors⟩
    rw [run_bind (henter s'), run_bind hinside', run_bind (hget t₁'), hleft']
    rfl

/-- A name is bound to the same, or reported with the same help. -/
theorem bindName_parallel (use : NameUse) (global : Bool) (owner : NodeId) (ident : Ident)
    (slot : Slot) : Parallel quiet (bindName use global owner ident slot)
      (bindName use global owner ident slot) := by
  refine .get fun s s' h => ?_
  dsimp only
  rw [h.find? use global ident.name]
  cases find? s'.scopes use global ident.name with
  | none =>
    dsimp only
    rw [h.visibleNames]
    exact .bind (report_parallel _ _) fun _ _ => .pure
  | some target =>
    intro s s' a t halike hrun
    dsimp only at hrun ⊢
    cases hset : slot.set target with
    | error d => rw [hset] at hrun; cases hrun
    | ok filled =>
      rw [hset] at hrun
      cases hrun
      exact ⟨_, { s' with table := s'.table ++ [(owner, target)] }, rfl, halike, .refl quiet _,
        .refl quiet _, .snoc _ _ _, .refl _ _⟩

/-- The first name of a path is found as it is, whatever was bound in its segments. -/
theorem firstName_walk {o : Origin} {segments segments' : Node (.many .segment)} (span : Span)
    {s t : ResolveState} (h : walk o segments s = .ok segments' t) :
    firstName segments' span = firstName segments span := by
  cases segments with
  | nil =>
    cases h
    rfl
  | cons first others =>
    obtain ⟨first', s₁, hfirst, h⟩ := of_bind h
    obtain ⟨others', s₂, -, hthen⟩ := of_bind h
    cases hthen
    cases first with
    | segment ident generics =>
      obtain ⟨generics', s₃, -, hthen⟩ := of_bind hfirst
      cases hthen
      rfl

/-- The first name of a path is what it was, whatever was moved in its segments. -/
theorem firstName_rearrange (f : List Stmt → List Stmt) (segments : Node (.many .segment))
    (span : Span) : firstName (segments.rearrange f) span = firstName segments span := by
  cases segments with
  | nil => rfl
  | cons first others => cases first with | segment => rfl

/-- A path is bound by its first name. -/
theorem bindPath_parallel {f : List Stmt → List Stmt} {o : Origin}
    {segments : Node (.many .segment)} (use : NameUse) (global : Bool) (span : Span) (slot : Slot)
    {α β : Type} {k : Path → Resolver α} {l : Path → Resolver β}
    (hsegments : Parallel quiet (walk o segments) (walk o (segments.rearrange f)))
    (hk : ∀ p p', Parallel quiet (k p) (l p')) :
    Parallel quiet
      (do
        let segments ← walk o segments
        let first ← firstName segments span
        let slot ← bindName use global o.id first slot
        k (.path global segments span slot))
      (do
        let segments ← walk o (segments.rearrange f)
        let first ← firstName segments span
        let slot ← bindName use global o.id first slot
        l (.path global segments span slot)) := by
  refine hsegments.bind_of fun ns ns' s t s' t' h h' => ?_
  rw [firstName_walk span h, firstName_walk span h', firstName_rearrange]
  cases segments with
  | nil => exact .stopped
  | cons first others =>
    cases first with
    | segment ident generics =>
      change Parallel quiet (bindName use global o.id ident slot >>= fun slot => _)
        (bindName use global o.id ident slot >>= fun slot => _)
      exact .bind (bindName_parallel use global o.id ident slot) fun _ _ => hk _ _

/-- The members of a type are declared as they were. -/
theorem members_parallel (f : List Stmt → List Stmt) (members : Node (.many .item)) :
    Parallel false (members.toList.forM declareItem)
      ((members.rearrange f).toList.forM declareItem) := by
  rw [declareMembers_eq, declareMembers_eq, Node.hoists_rearrange]
  exact declares_parallel members.hoists

/-- The declarations of a block are declared as they were. -/
theorem stmts_parallel (f : List Stmt → List Stmt) (stmts : Node (.many .stmt)) :
    Parallel false (stmts.toList.forM declareStmt)
      ((stmts.rearrange f).toList.forM declareStmt) := by
  rw [declareStmts_eq, declareStmts_eq, Node.hoists_rearrange]
  exact declares_parallel stmts.hoists

/-- What is done with the statements of a block, after it was entered. -/
def walkBody (stmts : Node (.many .stmt)) : Resolver (Node (.many .stmt)) := do
  stmts.toList.forM declareStmt
  walk default stmts

/-- Statements do not depend on what holds them. -/
theorem walk_stmts (o : Origin) : (stmts : Node (.many .stmt)) → walk o stmts = walk default stmts
  | .nil => rfl
  | .cons (.stmt _ _) stmts => by
    change (do return Node.cons (← _) (← walk o stmts)) = _
    rw [walk_stmts o stmts]
    rfl

/-- The walk over a block is that over its statements. -/
theorem walk_block (o o' : Origin) (stmts : Node (.many .stmt)) :
    walk o (.block o' stmts) = do return .block o' (← walkBody stmts) := by
  change (do stmts.toList.forM declareStmt; return Node.block o' (← walk o' stmts)) = _
  rw [walk_stmts o' stmts]
  unfold walkBody
  rw [bind_assoc]

/-- The walk over a tree in which the statements of every block were put in another order, if it may
be done for the statements of one block at a time. -/
theorem walk_parallel {f : List Stmt → List Stmt} (hf : ∀ stmts stmts' : Node (.many .stmt),
      Parallel false (walkBody stmts) (walkBody stmts') →
        Parallel false (walkBody stmts) (walkBody (.ofList (f stmts'.toList)))) :
    {c : Category} → (n : Node c) → (o : Origin) →
      Parallel (!c.declares) (walk o n) (walk o (n.rearrange f))
  | _, .nil, _ => .pure
  | _, .cons n ns, o => .map₂ (walk_parallel hf n o) (walk_parallel hf ns o)
  | _, .absent, _ => .pure
  | _, .present n, o => .map (walk_parallel hf n o)
  | _, .expr o form, _ => .map (walk_parallel hf form o)
  | _, .assign target _ value, o =>
    .map₂ (walk_parallel hf target o) (walk_parallel hf value o)
  | _, .name ident slot, o => .map (bindName_parallel .value false o.id ident slot)
  | _, .pathExpr (.path global segments span slot), o =>
    bindPath_parallel (k := fun p => pure (Node.pathExpr p)) (l := fun p => pure (Node.pathExpr p))
      .value global span slot (walk_parallel hf segments o) fun _ _ => .pure
  | _, .literal _, _ => .pure
  | _, .binary left _ right, o => .map₂ (walk_parallel hf left o) (walk_parallel hf right o)
  | _, .unary _ operand, o => .map (walk_parallel hf operand o)
  | _, .suffixed _ operand, o => .map (walk_parallel hf operand o)
  | _, .call callee args, o => .map₂ (walk_parallel hf callee o) (walk_parallel hf args o)
  | _, .index target indices, o =>
    .map₂ (walk_parallel hf target o) (walk_parallel hf indices o)
  | _, .member target _ _, o => .map (walk_parallel hf target o)
  | _, .list items, o => .map (walk_parallel hf items o)
  | _, .tuple items, o => .map (walk_parallel hf items o)
  | _, .unit, _ => .pure
  | _, .construct (.path global segments span slot) fields, o =>
    bindPath_parallel (k := fun p => do return Node.construct p (← walk o fields))
      (l := fun p => do return Node.construct p (← walk o (fields.rearrange f)))
      .type global span slot (walk_parallel hf segments o)
      fun _ _ => .map (walk_parallel hf fields o)
  | _, .blockExpr b, o => .map (inScope_parallel .block (walk_parallel hf b o))
  | _, .cond condition positive negative, o =>
    .bind (walk_parallel hf condition o) fun _ _ =>
      .map₂ (inScope_parallel .block (walk_parallel hf positive o)) (walk_parallel hf negative o)
  | _, .loop body, o => .map (inScope_parallel .loop (walk_parallel hf body o))
  | _, .select subject entries, o =>
    .map₂ (walk_parallel hf subject o) (walk_parallel hf entries o)
  | _, .lambda params result body, o =>
    inScope_parallel .lambda (.bind (walk_parallel hf params o) fun _ _ =>
      .map₂ (walk_parallel hf result o).loose (walk_parallel hf body o).loose)
  | _, .break_ value, o =>
    .bind (checkInLoop_parallel "break" o.span) fun _ _ => .map (walk_parallel hf value o)
  | _, .continue_, o => .bind (checkInLoop_parallel "continue" o.span) fun _ _ => .pure
  | _, .return_ value, o =>
    .bind (checkInFunction_parallel o.span) fun _ _ => .map (walk_parallel hf value o)
  | _, .throw value, o => .map (walk_parallel hf value o)
  | _, .tryCatch body handler, o =>
    .map₂ (inScope_parallel .block (walk_parallel hf body o)) (walk_parallel hf handler o)
  | _, .paren inner, o => .map (walk_parallel hf inner o)
  | _, .spread inner, o => .map (walk_parallel hf inner o)
  | _, .cast inner t _, o => .map₂ (walk_parallel hf inner o) (walk_parallel hf t o)
  | _, .this_, o => .bind (checkInType_parallel "this" o.span) fun _ _ => .pure
  | _, .super, o => .bind (checkInType_parallel "super" o.span) fun _ _ => .pure
  | _, .errorExpr, _ => .stopped
  | _, .path _ segments _ _, o => .map (walk_parallel hf segments o)
  | _, .segment _ generics, o => .map (walk_parallel hf generics o)
  | _, .argument _ value _, o => .map (walk_parallel hf value o)
  | _, .namedField _ value, o => .map (walk_parallel hf value o)
  | _, .shorthandField value, o => .map (walk_parallel hf value o)
  | _, .baseField value, o => .map (walk_parallel hf value o)
  | _, .block o' stmts, o => by
    unfold Node.rearrange
    rw [walk_block, walk_block]
    refine .map (hf stmts (stmts.rearrange f) ?_)
    exact .bind (stmts_parallel f stmts) fun _ _ => walk_parallel hf stmts default
  | _, .selectEntry _ conditions body, _ =>
    inScope_parallel .selectEntry
      (.map₂ (walk_parallel hf conditions _) (walk_parallel hf body _))
  | _, .lambdaParam id ident t, o =>
    .bind (walk_parallel hf t o).loose fun _ _ =>
      .map (declare_parallel ⟨.value, ident, .param, id⟩)
  | _, .handler id binding body, o =>
    inScope_parallel .handler (.bind (declare_parallel ⟨.value, binding, .localVar, id⟩) fun _ _ =>
      .map (inScope_parallel .block (walk_parallel hf body o)))
  | _, .type o form, _ => .map (walk_parallel hf form o)
  | _, .pathType (.path global segments span slot), o =>
    bindPath_parallel (k := fun p => pure (Node.pathType p)) (l := fun p => pure (Node.pathType p))
      .type global span slot (walk_parallel hf segments o) fun _ _ => .pure
  | _, .tupleType items, o => .map (walk_parallel hf items o)
  | _, .funcType params result, o =>
    .map₂ (walk_parallel hf params o) (walk_parallel hf result o)
  | _, .arrayType element size, o =>
    .map₂ (walk_parallel hf element o) (walk_parallel hf size o)
  | _, .sliceType element, o => .map (walk_parallel hf element o)
  | _, .parenType inner, o => .map (walk_parallel hf inner o)
  | _, .unitType, _ => .pure
  | _, .errorType, _ => .stopped
  | _, .stmt o form, _ => .map (walk_parallel hf form o)
  | _, .exprStmt e, o => .map (walk_parallel hf e o).loose
  | _, .varStmt _ ident t init, o =>
    .bind (walk_parallel hf t o).loose fun _ _ =>
      .bind (walk_parallel hf init o).loose fun _ _ =>
        .map (declare_parallel ⟨.value, ident, .localVar, o.id⟩)
  | _, .forStmt binding source body, o =>
    .bind (walk_parallel hf source o).loose fun _ _ => inScope_parallel .loop
      (.bind (declare_parallel ⟨.value, binding, .localVar, o.id⟩) fun _ _ =>
        .map (inScope_parallel .block (walk_parallel hf body o)))
  | _, .whileStmt condition body, o =>
    .map₂ (walk_parallel hf condition o).loose (inScope_parallel .loop (walk_parallel hf body o))
  | _, .itemStmt i, o => .map (walk_parallel hf i o).loose
  | _, .errorStmt, _ => .stopped
  | _, .item o _ _ form, _ => .map (walk_parallel hf form o)
  | _, .funcItem _ generics params result body, o =>
    inScope_parallel .func (.bind (walk_parallel hf generics o) fun _ _ =>
      .bind (walk_parallel hf params o) fun _ _ =>
        .map₂ (walk_parallel hf result o).loose (walk_parallel hf body o).loose)
  | _, .classItem isStruct _ generics supers members, o =>
    inScope_parallel _ (.bind (walk_parallel hf generics o) fun _ _ =>
      .bind (walk_parallel hf supers o).loose fun _ _ =>
        .bind (members_parallel f members) fun _ _ => .map (walk_parallel hf members o).loose)
  | _, .enumItem _ generics entries members, o =>
    inScope_parallel _ (.bind (walk_parallel hf generics o) fun _ _ =>
      .bind (walk_parallel hf entries o).loose fun _ _ =>
        .bind (members_parallel f members) fun _ _ => .map (walk_parallel hf members o).loose)
  | _, .traitItem _ generics supers members, o =>
    inScope_parallel _ (.bind (walk_parallel hf generics o) fun _ _ =>
      .bind (walk_parallel hf supers o).loose fun _ _ =>
        .bind (members_parallel f members) fun _ _ => .map (walk_parallel hf members o).loose)
  | _, .aliasItem _ generics t, o =>
    inScope_parallel _ (.map₂ (walk_parallel hf generics o) (walk_parallel hf t o).loose)
  | _, .objectItem _ supers members, o =>
    inScope_parallel _ (.bind (walk_parallel hf supers o).loose fun _ _ =>
      .bind (members_parallel f members) fun _ _ => .map (walk_parallel hf members o).loose)
  | _, .fieldItem _ _ t default, o =>
    .map₂ (walk_parallel hf t o) (walk_parallel hf default o)
  | _, .initItem params body, o =>
    inScope_parallel .func (.map₂ (walk_parallel hf params o)
      (inScope_parallel .block (walk_parallel hf body o)))
  | _, .attr _ _ _, _ => .pure
  | _, .blockBody b, o => .map (inScope_parallel .block (walk_parallel hf b o))
  | _, .exprBody e, o => .map (walk_parallel hf e o)
  | _, .param o ident t default, _ =>
    .bind (walk_parallel hf t o).loose fun _ _ =>
      .bind (walk_parallel hf default o).loose fun _ _ =>
        .map (declare_parallel ⟨.value, ident, .param, o.id⟩)
  | _, .generic o ident form, _ => by
    refine (walk_parallel hf form o).loose.bind_of fun form' form'' s t s' t' h h' => ?_
    rw [declareGeneric_eq, declareGeneric_eq, walk_genericDeclares h, walk_genericDeclares h',
      Node.genericDeclares_rearrange]
    exact .map (declares_parallel _)
  | _, .typeGeneric bounds, o => .map (walk_parallel hf bounds o)
  | _, .lifetimeGeneric, _ => .pure
  | _, .constGeneric t default, o =>
    .map₂ (walk_parallel hf t o) (walk_parallel hf default o)
  | _, .enumEntry o _ form, _ => .map (walk_parallel hf form o)
  | _, .bareEntry, _ => .pure
  | _, .valueEntry value, o => .map (walk_parallel hf value o)
  | _, .tupleEntry types, o => .map (walk_parallel hf types o)
  | _, .structEntry fields, o => .map (walk_parallel hf fields o)
  | _, .entryField _ t, o => .map (walk_parallel hf t o)

end Resolve

end FrontEnd
