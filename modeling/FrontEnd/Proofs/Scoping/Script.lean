import FrontEnd.Proofs.Scoping.Discipline
import FrontEnd.Proofs.Scoping.Keywords
import FrontEnd.Proofs.Scoping.Walk

/-!
# The script of the walk

What the walk does to its scopes, and where it looks at them, is laid down by the tree alone: a list
of acts that can be read off the tree without walking it. The walk plays this list act by act. So
what is true of every point of the walk can be said of the acts and of the scopes in front of each.
-/

namespace FrontEnd

/-- What the walk does at one point. -/
inductive Act where
  /-- A construct begins. -/
  | enter (kind : ScopeKind)
  /-- The innermost construct ends. -/
  | leave
  /-- A name is declared in the innermost scope. -/
  | declare (d : Registration)
  /-- A name is looked up. -/
  | look (use : NameUse) (global : Bool) (ident : Ident)
  /-- A keyword is checked. -/
  | need (word : Dependent) (span : Span)
deriving DecidableEq

/-- Acts inside a construct. -/
def Act.within (kind : ScopeKind) (acts : List Act) : List Act := .enter kind :: (acts ++ [.leave])

namespace Node

/-- Of a path, the first name is looked up. -/
def pathLooks (use : NameUse) : Path → List Act
  | path global (cons (segment ident _) _) _ _ => [.look use global ident]
  | path _ nil _ _ => []

/-- The acts for a node, in order. The owner is the node that holds a form. -/
def script : {c : Category} → Origin → Node c → List Act
  | _, _, nil => []
  | _, o, cons n ns => n.script o ++ ns.script o
  | _, _, absent => []
  | _, o, present n => n.script o
  | _, _, expr o form => form.script o
  | _, o, assign target _ value => target.script o ++ value.script o
  | _, _, name ident _ => [.look .value false ident]
  | _, o, pathExpr p => p.script o ++ p.pathLooks .value
  | _, _, literal _ => []
  | _, o, binary left _ right => left.script o ++ right.script o
  | _, o, unary _ operand => operand.script o
  | _, o, suffixed _ operand => operand.script o
  | _, o, call callee args => callee.script o ++ args.script o
  | _, o, index target indices => target.script o ++ indices.script o
  | _, o, member target _ _ => target.script o
  | _, o, list items => items.script o
  | _, o, tuple items => items.script o
  | _, _, unit => []
  | _, o, construct p fields => (p.script o ++ p.pathLooks .type) ++ fields.script o
  | _, o, blockExpr b => Act.within .block (b.script o)
  | _, o, cond condition positive negative =>
    condition.script o ++ (Act.within .block (positive.script o) ++ negative.script o)
  | _, o, loop body => Act.within .loop (body.script o)
  | _, o, select subject entries => subject.script o ++ entries.script o
  | _, o, lambda params result body =>
    Act.within .lambda (params.script o ++ (result.script o ++ body.script o))
  | _, o, break_ value => .need .break_ o.span :: value.script o
  | _, o, continue_ => [.need .continue_ o.span]
  | _, o, return_ value => .need .return_ o.span :: value.script o
  | _, o, throw value => value.script o
  | _, o, tryCatch body h => Act.within .block (body.script o) ++ h.script o
  | _, o, paren inner => inner.script o
  | _, o, spread inner => inner.script o
  | _, o, cast inner t _ => inner.script o ++ t.script o
  | _, o, this_ => [.need .this_ o.span]
  | _, o, super => [.need .super o.span]
  | _, _, errorExpr => []
  | _, o, path _ segments _ _ => segments.script o
  | _, o, segment _ generics => generics.script o
  | _, o, argument _ value _ => value.script o
  | _, o, namedField _ value => value.script o
  | _, o, shorthandField value => value.script o
  | _, o, baseField value => value.script o
  -- The declarations of a block come before its first statement.
  | _, _, block o stmts => stmts.hoists.map .declare ++ stmts.script o
  | _, _, selectEntry o conditions body =>
    Act.within .selectEntry (conditions.script o ++ body.script o)
  | _, o, lambdaParam id ident t => t.script o ++ [.declare ⟨.value, ident, .param, id⟩]
  | _, o, handler id binding body =>
    Act.within .handler
      (.declare ⟨.value, binding, .localVar, id⟩ :: Act.within .block (body.script o))
  | _, _, type o form => form.script o
  | _, o, pathType p => p.script o ++ p.pathLooks .type
  | _, o, tupleType items => items.script o
  | _, o, funcType params result => params.script o ++ result.script o
  | _, o, arrayType element size => element.script o ++ size.script o
  | _, o, sliceType element => element.script o
  | _, o, parenType inner => inner.script o
  | _, _, unitType => []
  | _, _, errorType => []
  | _, _, stmt o form => form.script o
  | _, o, exprStmt e => e.script o
  -- A variable is not in sight in its own type and value.
  | _, o, varStmt _ ident t init =>
    t.script o ++ (init.script o ++ [.declare ⟨.value, ident, .localVar, o.id⟩])
  | _, o, forStmt binding source body =>
    source.script o ++ Act.within .loop
      (.declare ⟨.value, binding, .localVar, o.id⟩ :: Act.within .block (body.script o))
  | _, o, whileStmt condition body => condition.script o ++ Act.within .loop (body.script o)
  | _, o, itemStmt i => i.script o
  | _, _, errorStmt => []
  | _, _, item o _ _ form => form.script o
  | _, o, funcItem _ generics params result body =>
    Act.within .func
      (generics.script o ++ (params.script o ++ (result.script o ++ body.script o)))
  -- Members are declared behind the generic parameters and supertypes.
  | _, o, classItem isStruct _ generics supers members =>
    Act.within (.item (if isStruct then .struct else .class_))
      (generics.script o ++ (supers.script o ++ (members.hoists.map .declare ++ members.script o)))
  | _, o, enumItem _ generics entries members =>
    Act.within (.item .enum)
      (generics.script o ++ (entries.script o ++ (members.hoists.map .declare ++ members.script o)))
  | _, o, traitItem _ generics supers members =>
    Act.within (.item .trait)
      (generics.script o ++ (supers.script o ++ (members.hoists.map .declare ++ members.script o)))
  | _, o, aliasItem _ generics t =>
    Act.within (.item .typeAlias) (generics.script o ++ t.script o)
  | _, o, objectItem _ supers members =>
    Act.within (.item .object)
      (supers.script o ++ (members.hoists.map .declare ++ members.script o))
  | _, o, fieldItem _ _ t default => t.script o ++ default.script o
  | _, o, initItem params body =>
    Act.within .func (params.script o ++ Act.within .block (body.script o))
  -- Arguments of attributes are not walked.
  | _, _, attr _ _ _ => []
  | _, o, blockBody b => Act.within .block (b.script o)
  | _, o, exprBody e => e.script o
  | _, _, param o ident t default =>
    t.script o ++ (default.script o ++ [.declare ⟨.value, ident, .param, o.id⟩])
  | _, _, generic o ident form => form.script o ++ (form.genericDeclares ident o.id).map .declare
  | _, o, typeGeneric bounds => bounds.script o
  | _, _, lifetimeGeneric => []
  | _, o, constGeneric t default => t.script o ++ default.script o
  | _, _, enumEntry o _ form => form.script o
  | _, _, bareEntry => []
  | _, o, valueEntry value => value.script o
  | _, o, tupleEntry types => types.script o
  | _, o, structEntry fields => fields.script o
  | _, o, entryField _ t => t.script o
termination_by structural _ _ n => n

end Node

/-- The acts for a module: its declarations come first. -/
def moduleScript (stmts : List Stmt) : List Act :=
  let whole := Node.ofList stmts
  whole.hoists.map .declare ++ whole.script default

namespace ScopeStack

/-- Whether a keyword lacks the construct it needs, as the kinds of the scopes have it. -/
def lacks (s : ScopeStack) : Dependent → Bool
  | .break_ | .continue_ => (s.find (· == .loop) fun k => k == .func || k == .lambda).isNone
  | .return_ => (s.find (fun k => k == .func || k == .lambda) fun _ => false).isNone
  | .this_ | .super => (s.find Resolve.isTypeScope fun _ => false).isNone

end ScopeStack

namespace Act

/-- The scopes behind an act. -/
def after (s : ScopeStack) : Act → ScopeStack
  | enter kind => (s.step (.enter kind)).2
  | leave => (s.step .exit).2
  | declare d => (s.step (.define d.space d.ident.name d.binding)).2
  | look _ _ _ | need _ _ => s

/-- The error an act reports, if any. -/
def error? (s : ScopeStack) : Act → Option ResolveError
  | declare d => (s.current.get? d.space d.ident.name).map fun previous =>
    ⟨.redeclared d.ident.name previous.span?, d.ident.span⟩
  | look use global ident =>
    match Resolve.find? s use global ident.name with
    | some _ => none
    | none =>
      some ⟨.unresolved use ident.name (didYouMean ident.name (s.visibleNames use.namespaces)),
        ident.span⟩
  | need word span => if s.lacks word then some ⟨word.problem, span⟩ else none
  | enter _ | leave => none

/-- Looking up a name reports nothing but that it is not in sight. -/
theorem error?_look {s : ScopeStack} {use : NameUse} {global : Bool} {ident : Ident}
    {e : ResolveError} (h : e ∈ (look use global ident).error? s) :
    ∃ similar?, e = ⟨.unresolved use ident.name similar?, ident.span⟩ := by
  unfold error? at h
  dsimp only at h
  split at h
  · cases h
  · cases h
    exact ⟨_, rfl⟩

end Act

/-- A point of the walk: an act and the scopes in front of it. -/
structure Visit where
  /-- The scopes. -/
  scopes : ScopeStack
  /-- The act. -/
  act : Act

/-- The error reported at a point of the walk, if any. -/
def Visit.error? (v : Visit) : Option ResolveError := v.act.error? v.scopes

/-- The points of the walk when acts are played one after the other. -/
def visits : ScopeStack → List Act → List Visit
  | _, [] => []
  | s, act :: acts => ⟨s, act⟩ :: visits (act.after s) acts

namespace ScopeStack

/-- The scopes behind some acts. -/
def play (s : ScopeStack) (acts : List Act) : ScopeStack := acts.foldl Act.after s

theorem play_append (s : ScopeStack) (acts acts' : List Act) :
    s.play (acts ++ acts') = (s.play acts).play acts' :=
  List.foldl_append

/-- The errors some acts report. -/
def found (s : ScopeStack) (acts : List Act) : List ResolveError :=
  (visits s acts).filterMap Visit.error?

theorem visits_append (s : ScopeStack) (acts acts' : List Act) :
    visits s (acts ++ acts') = visits s acts ++ visits (s.play acts) acts' := by
  induction acts generalizing s with
  | nil => rfl
  | cons act acts ih => exact congrArg (_ :: ·) (ih (act.after s))

theorem found_append (s : ScopeStack) (acts acts' : List Act) :
    s.found (acts ++ acts') = s.found acts ++ (s.play acts).found acts' := by
  unfold found
  rw [visits_append, List.filterMap_append]

theorem found_cons (s : ScopeStack) (act : Act) (acts : List Act) :
    s.found (act :: acts) = (act.error? s).toList ++ (act.after s).found acts := by
  have hvisits : visits s (act :: acts) = ⟨s, act⟩ :: visits (act.after s) acts := rfl
  have herror : Visit.error? ⟨s, act⟩ = act.error? s := rfl
  unfold found
  rw [hvisits, List.filterMap_cons, herror]
  cases act.error? s <;> rfl

theorem found_singleton (s : ScopeStack) (act : Act) : s.found [act] = (act.error? s).toList :=
  (s.found_cons act []).trans (List.append_nil _)

/-- Behind a construct its scope is left. -/
theorem play_within (s : ScopeStack) (kind : ScopeKind) (acts : List Act) :
    s.play (Act.within kind acts) = Act.leave.after ((s.enter kind).play acts) :=
  (s.enter kind).play_append acts [.leave]

/-- Nothing is reported where a construct begins or ends. -/
theorem found_within (s : ScopeStack) (kind : ScopeKind) (acts : List Act) :
    s.found (Act.within kind acts) = (s.enter kind).found acts := by
  unfold Act.within
  rw [found_cons, found_append, found_singleton]
  exact List.append_nil _

end ScopeStack

/-- A step plays some acts: if it has a result, it has changed the scopes as they do, and has
reported what they report. -/
def Plays {α : Type} (acts : List Act) (step : Resolver α) : Prop :=
  ∀ s a s', step s = .ok a s' →
    s'.scopes = s.scopes.play acts ∧ s'.errors = s.errors ++ s.scopes.found acts

namespace Plays

variable {α β γ : Type} {acts acts' : List Act}

/-- A result without a step. -/
theorem pure {a : α} : Plays [] (Pure.pure a) := by
  intro s b s' hrun
  cases hrun
  exact ⟨rfl, (List.append_nil _).symm⟩

/-- A step without a result. -/
theorem stopped {d : Defect} : Plays acts (throw d : Resolver α) := by
  intro s a s' hrun
  cases hrun

/-- One step after another, which may depend on what is known of the first result. -/
theorem bind_of {P : α → Prop} {m : Resolver α} {k : α → Resolver β} (hm : Plays acts m)
    (yields : ∀ s a s', m s = .ok a s' → P a) (hk : ∀ a, P a → Plays acts' (k a)) :
    Plays (acts ++ acts') (m >>= k) := by
  intro s b s' hrun
  obtain ⟨a, s₁, hfirst, hthen⟩ := Resolve.of_bind hrun
  obtain ⟨hscopes, herrors⟩ := hm s a s₁ hfirst
  obtain ⟨hscopes', herrors'⟩ := hk a (yields s a s₁ hfirst) s₁ b s' hthen
  rw [ScopeStack.play_append, ScopeStack.found_append]
  rw [hscopes, herrors, List.append_assoc] at herrors'
  rw [hscopes] at hscopes'
  exact ⟨hscopes', herrors'⟩

/-- One step after another. -/
theorem bind {m : Resolver α} {k : α → Resolver β} (hm : Plays acts m)
    (hk : ∀ a, Plays acts' (k a)) : Plays (acts ++ acts') (m >>= k) :=
  hm.bind_of (P := fun _ => True) (fun _ _ _ _ => trivial) fun a _ => hk a

/-- A node with one part. -/
theorem map {m : Resolver α} {f : α → β} (hm : Plays acts m) : Plays acts (do return f (← m)) := by
  have both := hm.bind fun a => pure (a := f a)
  rwa [List.append_nil] at both

/-- A node with two parts. -/
theorem map₂ {m : Resolver α} {m' : Resolver β} {f : α → β → γ} (hm : Plays acts m)
    (hm' : Plays acts' m') : Plays (acts ++ acts') (do return f (← m) (← m')) :=
  hm.bind fun _ => hm'.map

/-- A step that depends on the state. -/
theorem get {f : ResolveState → Resolver β} (hf : ∀ s b s', f s s = .ok b s' →
    s'.scopes = s.scopes.play acts ∧ s'.errors = s.errors ++ s.scopes.found acts) :
    Plays acts (MonadState.get >>= f) :=
  hf

end Plays

namespace Resolve

variable {acts : List Act}

/-- A name is declared, or reported as declared before. -/
theorem declare_plays (d : Registration) : Plays [.declare d] d.declare := by
  intro s a s' hrun
  have hget : (get : Resolver ResolveState) s = .ok s s := rfl
  unfold Registration.declare define at hrun
  rw [run_bind hget] at hrun
  rw [ScopeStack.found_singleton]
  unfold ScopeStack.play Act.after Act.error?
  rw [List.foldl_cons, List.foldl_nil]
  dsimp only
  cases hget : s.scopes.current.get? d.space d.ident.name with
  | some previous =>
    rw [ScopeStack.define_old hget] at hrun
    cases hrun
    rw [ScopeStack.step_define_taken hget]
    exact ⟨rfl, rfl⟩
  | none =>
    rw [ScopeStack.define_new hget] at hrun
    cases hrun
    unfold ScopeStack.step
    dsimp only
    rw [ScopeStack.define_new hget]
    exact ⟨rfl, (List.append_nil _).symm⟩

/-- Names are declared one after the other. -/
theorem declares_plays (ds : List Registration) :
    Plays (ds.map .declare) (ds.forM Registration.declare) := by
  induction ds with
  | nil => exact .pure
  | cons d ds ih => exact (declare_plays d).bind fun _ => ih

/-- The members of a type are declared in advance. -/
theorem declareMembers_plays (members : Node (.many .item)) :
    Plays (members.hoists.map .declare) (members.toList.forM declareItem) := by
  rw [declareMembers_eq]
  exact declares_plays members.hoists

/-- The declarations of a block are declared in advance. -/
theorem declareStmts_plays (stmts : Node (.many .stmt)) :
    Plays (stmts.hoists.map .declare) (stmts.toList.forM declareStmt) := by
  rw [declareStmts_eq]
  exact declares_plays stmts.hoists

/-- A generic parameter is declared where it stands. -/
theorem declareGeneric_plays (ident : Ident) (id : NodeId) (form : Node .genericForm) :
    Plays ((form.genericDeclares ident id).map .declare) (declareGeneric ident id form) := by
  rw [declareGeneric_eq]
  exact declares_plays _

/-- A name is looked up, and reported if it is not in sight. -/
theorem bindName_plays (use : NameUse) (global : Bool) (owner : NodeId) (ident : Ident)
    (slot : Slot) : Plays [.look use global ident] (bindName use global owner ident slot) := by
  refine .get fun s a s' hrun => ?_
  rw [ScopeStack.found_singleton]
  unfold Act.error?
  dsimp only at hrun ⊢
  cases hfind : find? s.scopes use global ident.name with
  | some target =>
    rw [hfind] at hrun
    obtain ⟨filled, s₁, hcheck, hthen⟩ := of_bind hrun
    have hs₁ : s₁ = s := by
      cases hset : slot.set target with
      | error d =>
        rw [hset] at hcheck
        cases hcheck
      | ok slot =>
        rw [hset] at hcheck
        cases hcheck
        rfl
    subst hs₁
    cases hthen
    exact ⟨rfl, (List.append_nil _).symm⟩
  | none =>
    rw [hfind] at hrun
    cases hrun
    exact ⟨rfl, rfl⟩

/-- A keyword is checked, and reported if it lacks what it needs. -/
theorem need_plays {misplaced : ResolveState → Prop} [∀ s, Decidable (misplaced s)]
    (word : Dependent) (span : Span) (h : ∀ s, misplaced s ↔ s.scopes.lacks word = true) :
    Plays [.need word span] (do if misplaced (← get) then report word.problem span) := by
  refine .get fun s a s' hrun => ?_
  rw [ScopeStack.found_singleton]
  unfold Act.error?
  dsimp only
  split at hrun
  · rename_i hlacks
    cases hrun
    rw [if_pos ((h s).1 hlacks)]
    exact ⟨rfl, rfl⟩
  · rename_i hlacks
    cases hrun
    rw [if_neg fun hmisplaced => hlacks ((h s).2 hmisplaced)]
    exact ⟨rfl, (List.append_nil _).symm⟩

/-- A construct is entered and left. -/
theorem inScope_plays {α : Type} {kind : ScopeKind} {inside : Resolver α} (h : Plays acts inside) :
    Plays (Act.within kind acts) (inScope kind inside) := by
  intro s a s' hrun
  obtain ⟨⟨⟩, s₁, henter, hrun⟩ := of_bind hrun
  cases henter
  obtain ⟨b, s₂, hinside, hrun⟩ := of_bind hrun
  obtain ⟨hscopes, herrors⟩ := h _ b s₂ hinside
  obtain ⟨s₃, s₃', hget, hrun⟩ := of_bind hrun
  cases hget
  cases hexit : s₂.scopes.exit with
  | error d =>
    rw [hexit] at hrun
    cases hrun
  | ok left =>
    rw [hexit] at hrun
    cases hrun
    have hleave : Act.leave.after s₂.scopes = left.2 := by
      unfold Act.after ScopeStack.step
      dsimp only
      rw [hexit]
    rw [ScopeStack.play_within, ScopeStack.found_within, ← hscopes]
    exact ⟨hleave.symm, herrors⟩

/-- The walk keeps the first name of a path. -/
theorem walk_pathLooks {o : Origin} {segments walked : Node (.many .segment)} {s s' : ResolveState}
    (h : walk o segments s = .ok walked s') (use : NameUse) (global : Bool) (span : Span)
    (slot : Slot) : (Node.path global walked span slot).pathLooks use =
      (Node.path global segments span slot).pathLooks use := by
  cases segments with
  | nil =>
    cases h
    rfl
  | cons first others =>
    cases first with
    | segment ident generics =>
      obtain ⟨first', s₁, hfirst, h⟩ := of_bind h
      obtain ⟨generics', s₂, -, hfirst⟩ := of_bind hfirst
      cases hfirst
      obtain ⟨others', s₃, -, h⟩ := of_bind h
      cases h
      rfl

/-- A path is walked segment by segment, and then its first name is looked up. -/
theorem path_plays {β : Type} {o : Origin} {use : NameUse} {global : Bool}
    {segments : Node (.many .segment)} {span : Span} {slot : Slot} {f : Path → Resolver β}
    (hsegments : Plays (segments.script o) (walk o segments)) (hf : ∀ p, Plays acts (f p)) :
    Plays (((Node.path global segments span slot).script o ++
      (Node.path global segments span slot).pathLooks use) ++ acts) (do
      let segments ← walk o segments
      let first ← firstName segments span
      let slot ← bindName use global o.id first slot
      f (.path global segments span slot)) := by
  rw [List.append_assoc]
  refine hsegments.bind_of (fun _ _ _ hwalked => walk_pathLooks hwalked use global span slot)
    fun walked hlooks => ?_
  rw [← hlooks]
  cases walked with
  | nil => exact .stopped
  | cons first others =>
    cases first with
    | segment ident generics => exact (bindName_plays use global o.id ident slot).bind fun _ => hf _

/-- A node that is a path and nothing else. -/
theorem path_plays_alone {β : Type} {o : Origin} {use : NameUse} {global : Bool}
    {segments : Node (.many .segment)} {span : Span} {slot : Slot} {f : Path → β}
    (hsegments : Plays (segments.script o) (walk o segments)) :
    Plays ((Node.path global segments span slot).script o ++
      (Node.path global segments span slot).pathLooks use) (do
      let segments ← walk o segments
      let first ← firstName segments span
      return f (.path global segments span (← bindName use global o.id first slot))) := by
  rw [← List.append_nil (_ ++ _)]
  exact path_plays (f := fun p => Pure.pure (f p)) hsegments fun _ => .pure

/-- The walk over a node plays its script. -/
theorem walk_plays : {c : Category} → (n : Node c) → (o : Origin) → Plays (n.script o) (walk o n)
  | _, .nil, _ => .pure
  | _, .cons n ns, o => .map₂ (walk_plays n o) (walk_plays ns o)
  | _, .absent, _ => .pure
  | _, .present n, o => .map (walk_plays n o)
  | _, .expr o form, _ => .map (walk_plays form o)
  | _, .assign target op value, o => .map₂ (walk_plays target o) (walk_plays value o)
  | _, .name ident slot, o => .map (bindName_plays .value false o.id ident slot)
  | _, .pathExpr (.path global segments span slot), o =>
    path_plays_alone (f := Node.pathExpr) (walk_plays segments o)
  | _, .literal l, _ => .pure
  | _, .binary left op right, o => .map₂ (walk_plays left o) (walk_plays right o)
  | _, .unary op operand, o => .map (walk_plays operand o)
  | _, .suffixed op operand, o => .map (walk_plays operand o)
  | _, .call callee args, o => .map₂ (walk_plays callee o) (walk_plays args o)
  | _, .index target indices, o => .map₂ (walk_plays target o) (walk_plays indices o)
  | _, .member target field safe, o => .map (walk_plays target o)
  | _, .list items, o => .map (walk_plays items o)
  | _, .tuple items, o => .map (walk_plays items o)
  | _, .unit, _ => .pure
  | _, .construct (.path global segments span slot) fields, o =>
    path_plays (f := fun p => do return Node.construct p (← walk o fields)) (walk_plays segments o)
      fun _ => .map (walk_plays fields o)
  | _, .blockExpr b, o => .map (inScope_plays (walk_plays b o))
  | _, .cond condition positive negative, o =>
    .bind (walk_plays condition o) fun _ =>
      .map₂ (inScope_plays (walk_plays positive o)) (walk_plays negative o)
  | _, .loop body, o => .map (inScope_plays (walk_plays body o))
  | _, .select subject entries, o => .map₂ (walk_plays subject o) (walk_plays entries o)
  | _, .lambda params result body, o =>
    inScope_plays (.bind (walk_plays params o) fun _ =>
      .map₂ (walk_plays result o) (walk_plays body o))
  | _, .break_ value, o =>
    .bind (need_plays .break_ o.span fun _ => Iff.rfl) fun _ => .map (walk_plays value o)
  | _, .continue_, o => .map (need_plays .continue_ o.span fun _ => Iff.rfl)
  | _, .return_ value, o =>
    .bind (need_plays .return_ o.span fun _ => Iff.rfl) fun _ => .map (walk_plays value o)
  | _, .throw value, o => .map (walk_plays value o)
  | _, .tryCatch body handler, o => .map₂ (inScope_plays (walk_plays body o)) (walk_plays handler o)
  | _, .paren inner, o => .map (walk_plays inner o)
  | _, .spread inner, o => .map (walk_plays inner o)
  | _, .cast inner t safe, o => .map₂ (walk_plays inner o) (walk_plays t o)
  | _, .this_, o => .map (need_plays .this_ o.span fun _ => Iff.rfl)
  | _, .super, o => .map (need_plays .super o.span fun _ => Iff.rfl)
  | _, .errorExpr, _ => .stopped
  | _, .path global segments span slot, o => .map (walk_plays segments o)
  | _, .segment ident generics, o => .map (walk_plays generics o)
  | _, .argument name? value span, o => .map (walk_plays value o)
  | _, .namedField ident value, o => .map (walk_plays value o)
  | _, .shorthandField value, o => .map (walk_plays value o)
  | _, .baseField value, o => .map (walk_plays value o)
  | _, .block o stmts, _ => .bind (declareStmts_plays stmts) fun _ => .map (walk_plays stmts o)
  | _, .selectEntry o conditions body, _ =>
    inScope_plays (.map₂ (walk_plays conditions o) (walk_plays body o))
  | _, .lambdaParam id ident t, o =>
    .bind (walk_plays t o) fun _ => .map (declare_plays ⟨.value, ident, .param, id⟩)
  | _, .handler id binding body, o =>
    inScope_plays (.bind (declare_plays ⟨.value, binding, .localVar, id⟩) fun _ =>
      .map (inScope_plays (walk_plays body o)))
  | _, .type o form, _ => .map (walk_plays form o)
  | _, .pathType (.path global segments span slot), o =>
    path_plays_alone (f := Node.pathType) (walk_plays segments o)
  | _, .tupleType items, o => .map (walk_plays items o)
  | _, .funcType params result, o => .map₂ (walk_plays params o) (walk_plays result o)
  | _, .arrayType element size, o => .map₂ (walk_plays element o) (walk_plays size o)
  | _, .sliceType element, o => .map (walk_plays element o)
  | _, .parenType inner, o => .map (walk_plays inner o)
  | _, .unitType, _ => .pure
  | _, .errorType, _ => .stopped
  | _, .stmt o form, _ => .map (walk_plays form o)
  | _, .exprStmt e, o => .map (walk_plays e o)
  | _, .varStmt kind ident t init, o =>
    .bind (walk_plays t o) fun _ => .bind (walk_plays init o) fun _ =>
      .map (declare_plays ⟨.value, ident, .localVar, o.id⟩)
  | _, .forStmt binding source body, o =>
    .bind (walk_plays source o) fun _ =>
      inScope_plays (.bind (declare_plays ⟨.value, binding, .localVar, o.id⟩) fun _ =>
        .map (inScope_plays (walk_plays body o)))
  | _, .whileStmt condition body, o =>
    .map₂ (walk_plays condition o) (inScope_plays (walk_plays body o))
  | _, .itemStmt i, o => .map (walk_plays i o)
  | _, .errorStmt, _ => .stopped
  | _, .item o attrs modifiers form, _ => .map (walk_plays form o)
  | _, .funcItem ident generics params result body, o =>
    inScope_plays (.bind (walk_plays generics o) fun _ => .bind (walk_plays params o) fun _ =>
      .map₂ (walk_plays result o) (walk_plays body o))
  | _, .classItem isStruct ident generics supers members, o =>
    inScope_plays (.bind (walk_plays generics o) fun _ => .bind (walk_plays supers o) fun _ =>
      .bind (declareMembers_plays members) fun _ => .map (walk_plays members o))
  | _, .enumItem ident generics entries members, o =>
    inScope_plays (.bind (walk_plays generics o) fun _ => .bind (walk_plays entries o) fun _ =>
      .bind (declareMembers_plays members) fun _ => .map (walk_plays members o))
  | _, .traitItem ident generics supers members, o =>
    inScope_plays (.bind (walk_plays generics o) fun _ => .bind (walk_plays supers o) fun _ =>
      .bind (declareMembers_plays members) fun _ => .map (walk_plays members o))
  | _, .aliasItem ident generics t, o =>
    inScope_plays (.map₂ (walk_plays generics o) (walk_plays t o))
  | _, .objectItem ident supers members, o =>
    inScope_plays (.bind (walk_plays supers o) fun _ =>
      .bind (declareMembers_plays members) fun _ => .map (walk_plays members o))
  | _, .fieldItem kind? ident t default, o => .map₂ (walk_plays t o) (walk_plays default o)
  | _, .initItem params body, o =>
    inScope_plays (.map₂ (walk_plays params o) (inScope_plays (walk_plays body o)))
  | _, .attr ident args span, _ => .pure
  | _, .blockBody b, o => .map (inScope_plays (walk_plays b o))
  | _, .exprBody e, o => .map (walk_plays e o)
  | _, .param o ident t default, _ =>
    .bind (walk_plays t o) fun _ => .bind (walk_plays default o) fun _ =>
      .map (declare_plays ⟨.value, ident, .param, o.id⟩)
  | _, .generic o ident form, _ =>
    .bind_of (walk_plays form o) (fun _ _ _ hwalked => walk_genericDeclares hwalked ident o.id)
      fun walked hdeclares => by
        rw [← hdeclares]
        exact .map (declareGeneric_plays ident o.id walked)
  | _, .typeGeneric bounds, o => .map (walk_plays bounds o)
  | _, .lifetimeGeneric, _ => .pure
  | _, .constGeneric t default, o => .map₂ (walk_plays t o) (walk_plays default o)
  | _, .enumEntry o ident form, _ => .map (walk_plays form o)
  | _, .bareEntry, _ => .pure
  | _, .valueEntry value, o => .map (walk_plays value o)
  | _, .tupleEntry types, o => .map (walk_plays types o)
  | _, .structEntry fields, o => .map (walk_plays fields o)
  | _, .entryField ident t, o => .map (walk_plays t o)

/-- The statements of a module are walked one after the other. -/
theorem walkStmts_plays (stmts : List Stmt) :
    Plays ((Node.ofList stmts).script default) (walkStmts stmts) := by
  induction stmts with
  | nil => exact .pure
  | cons s stmts ih => exact .map₂ (walk_plays s default) ih

end Resolve

/-- Resolving a module plays its script: the errors are those reported at the points of the walk, in
their order, and the names of the top level are those declared outside all constructs. -/
theorem resolve_plays {stmts : List Stmt} {r : Resolved} (h : resolve stmts = .ok r) :
    r.errors = (visits .start (moduleScript stmts)).filterMap Visit.error? ∧
      ScopeStack.start.play (moduleScript stmts) = ⟨[], r.root⟩ := by
  unfold resolve at h
  dsimp only at h
  split at h
  · cases h
  · rename_i filled s hrun
    have plays : Plays (moduleScript stmts) (do
        stmts.forM Resolve.declareStmt
        Resolve.walkStmts stmts) := by
      refine .bind ?_ fun _ => Resolve.walkStmts_plays stmts
      have declares := Resolve.declareStmts_plays (Node.ofList stmts)
      rwa [Node.toList_ofList] at declares
    obtain ⟨hscopes, herrors⟩ := plays Resolve.start filled s hrun
    cases hroot : s.scopes.intoModule with
    | error d =>
      rw [hroot] at h
      cases h
    | ok root =>
      rw [hroot] at h
      cases h
      refine ⟨herrors, hscopes.symm.trans ?_⟩
      unfold ScopeStack.intoModule at hroot
      split at hroot
      · rename_i hempty
        cases hroot
        rw [← List.isEmpty_iff.1 hempty]
      · cases hroot

end FrontEnd
