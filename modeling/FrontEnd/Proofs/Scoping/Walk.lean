import FrontEnd.Proofs.Scoping.Environment

/-!
# The walk binds names by environments

The walk over a tree keeps its scopes on a stack that is changed in place. An environment
describes a stack if both give every name the same meaning, scope by scope. From a described stack
the walk over a node ends without a defect, with the node bound as the environment says, and with a
stack that is described by the environment for what comes next.
-/

namespace FrontEnd

/-- What a name stands for in one scope. -/
def Scope.target? (s : Scope) (space : Namespace) (name : String) : Option Target :=
  (s.get? space name).map (·.target)

/-- An environment and a stack give every name the same meaning, scope by scope. -/
structure Env.Describes (env : Env) (stack : ScopeStack) : Prop where
  /-- The scopes inside the module. -/
  inner : env.inner.map Decl.first? = stack.inner.map Scope.target?
  /-- The scope of the module. -/
  top : Decl.first? env.top = stack.root.target?

namespace Decl

/-- Later declarations count only for names that have no earlier one. -/
theorem first?_append (as bs : List Decl) (space : Namespace) (name : String) :
    first? (as ++ bs) space name = (first? as space name).or (first? bs space name) := by
  unfold first?
  rw [List.find?_append]
  cases as.find? fun d => d.space = space ∧ d.name = name <;> rfl

/-- The only declaration of a list. -/
theorem first?_singleton (d : Decl) (space : Namespace) (name : String) :
    first? [d] space name = if d.space = space ∧ d.name = name then some d.target else none := by
  unfold first?
  by_cases h : d.space = space ∧ d.name = name
  · simp [h]
  · simp [h]

/-- Declarations of one namespace that are given by their names. -/
theorem first?_map (names : List String) (target : String → Target) (space space' : Namespace)
    (name : String) : first? (names.map fun n => ⟨space, n, target n⟩) space' name =
      if space = space' then (names.find? (· = name)).map target else none := by
  unfold first?
  rw [List.find?_map, Option.map_map]
  by_cases h : space = space'
  · simp [h, Function.comp_def]
  · simp [h, Function.comp_def]

/-- Bindings that are given by their names. -/
theorem lookup_map (names : List String) (f : String → Binding) (name : String) :
    (names.map fun n => (n, f n)).lookup name = (names.find? (· = name)).map f := by
  induction names with
  | nil => rfl
  | cons n names ih =>
    rw [List.map_cons, List.lookup_cons, List.find?_cons]
    by_cases h : n = name
    · simp [h]
    · have hne : (name == n) = false := by simpa using fun h' => h h'.symm
      simp [h, hne, ih]

/-- The language provides the same on both sides. -/
theorem first?_provided : first? provided = Scope.prelude.target? := by
  funext space name
  unfold provided
  rw [first?_append, first?_map, first?_map]
  unfold Scope.target? Scope.get? Scope.bindings Scope.prelude
  cases space with
  | type =>
    dsimp only
    rw [lookup_map, Option.map_map]
    simp [Function.comp_def]
  | value =>
    dsimp only
    rw [lookup_map, Option.map_map]
    simp [Function.comp_def]

/-- A new binding stands at the end of its namespace. -/
theorem bindings_insert (scope : Scope) (space space' : Namespace) (name : String) (b : Binding) :
    (scope.insert space name b).bindings space' =
      scope.bindings space' ++ if space = space' then [(name, b)] else [] := by
  cases space <;> cases space' <;> simp [Scope.insert, Scope.bindings]

/-- A name that is new in a scope is declared there. -/
theorem first?_insert {decls : List Decl} {scope : Scope} (h : first? decls = scope.target?)
    (space : Namespace) (name : String) (b : Binding) :
    first? (decls ++ [⟨space, name, b.target⟩]) = (scope.insert space name b).target? := by
  funext space' name'
  rw [first?_append, first?_singleton, h]
  unfold Scope.target? Scope.get?
  rw [bindings_insert, List.lookup_append]
  split
  · rename_i heq
    obtain ⟨rfl, rfl⟩ := heq
    cases List.lookup name (scope.bindings space) <;> simp
  · rename_i hne
    have hlookup : (if space = space' then [(name, b)] else []).lookup name' = none := by
      split
      · rename_i hspace
        have : (name' == name) = false := by simpa using fun h' => hne ⟨hspace, h'.symm⟩
        simp [List.lookup_cons, this]
      · rfl
    rw [hlookup, Option.or_none, Option.or_none]

/-- A name that is not new keeps its meaning. -/
theorem first?_taken {decls : List Decl} {scope : Scope} (h : first? decls = scope.target?)
    {space : Namespace} {name : String} {previous : Binding}
    (hget : scope.get? space name = some previous) (target : Target) :
    first? (decls ++ [⟨space, name, target⟩]) = scope.target? := by
  funext space' name'
  rw [first?_append, first?_singleton, h]
  split
  · rename_i heq
    obtain ⟨rfl, rfl⟩ := heq
    simp [Scope.target?, hget]
  · exact Option.or_none

/-- Declaring a name in a scope, whether it is new there or not. -/
theorem first?_define {decls : List Decl} {scope : Scope} (h : first? decls = scope.target?)
    (space : Namespace) (name : String) (b : Binding) :
    (∃ after, scope.define space name b = .ok after ∧
      first? (decls ++ [⟨space, name, b.target⟩]) = after.target?) ∨
    ∃ previous, scope.define space name b = .error previous ∧
      first? (decls ++ [⟨space, name, b.target⟩]) = scope.target? := by
  unfold Scope.define
  cases hget : scope.get? space name with
  | some previous => exact Or.inr ⟨previous, rfl, first?_taken h hget _⟩
  | none => exact Or.inl ⟨_, rfl, first?_insert h space name b⟩

end Decl

namespace Env

@[simp] theorem add_nil (env : Env) : env.add [] = env := by
  obtain ⟨inner, top⟩ := env
  cases inner <;> simp [add]

/-- Declarations are added one after the other. -/
theorem add_append (env : Env) (as bs : List Decl) : env.add (as ++ bs) = (env.add as).add bs := by
  obtain ⟨inner, top⟩ := env
  cases inner <;> simp [add]

/-- The empty module. -/
theorem describes_start : Describes ⟨[], []⟩ ScopeStack.start :=
  ⟨rfl, by funext space name; cases space <;> rfl⟩

variable {env : Env} {stack : ScopeStack}

/-- Both sides have the same scopes around a place. -/
theorem Describes.enter (h : env.Describes stack) (kind : ScopeKind) :
    env.nested.Describes (stack.enter kind) := by
  refine ⟨?_, h.top⟩
  have hempty : Decl.first? [] = (Scope.empty kind).target? := by
    funext space name
    cases space <;> rfl
  simp [nested, ScopeStack.enter, hempty, h.inner]

/-- A scope that was entered can be left, whatever was declared in it. -/
theorem Describes.exit {decls : List Decl} (h : (env.nested.add decls).Describes stack) :
    ∃ scope outer, stack.exit = .ok (scope, outer) ∧ env.Describes outer := by
  obtain ⟨hinner, htop⟩ := h
  unfold ScopeStack.exit
  cases hstack : stack.inner with
  | nil => simp [hstack, nested, add] at hinner
  | cons scope scopes =>
    refine ⟨scope, { stack with inner := scopes }, rfl, ?_, htop⟩
    rw [hstack] at hinner
    exact (List.cons.inj hinner).2

/-- A name is declared in the nearest scope, or had been there before. -/
theorem Describes.define (h : env.Describes stack) (space : Namespace) (name : String)
    (b : Binding) :
    (∃ after, stack.define space name b = .ok after ∧
      (env.add [⟨space, name, b.target⟩]).Describes after) ∨
    ∃ previous, stack.define space name b = .error previous ∧
      (env.add [⟨space, name, b.target⟩]).Describes stack := by
  obtain ⟨inner, top⟩ := env
  obtain ⟨inner', root⟩ := stack
  obtain ⟨hinner, htop⟩ := h
  dsimp only at hinner htop
  unfold ScopeStack.define
  cases inner with
  | nil =>
    obtain rfl : inner' = [] := by simpa using hinner.symm
    dsimp only [ScopeStack.current, List.head?_nil, Option.getD_none]
    obtain ⟨after, hdefine, hafter⟩ | ⟨previous, hdefine, hafter⟩ :=
      Decl.first?_define htop space name b
    · rw [hdefine]
      exact Or.inl ⟨_, rfl, rfl, hafter⟩
    · rw [hdefine]
      exact Or.inr ⟨previous, rfl, rfl, hafter⟩
  | cons decls inner =>
    cases inner' with
    | nil => simp at hinner
    | cons scope scopes =>
      obtain ⟨hscope, hscopes⟩ := List.cons.inj hinner
      dsimp only [ScopeStack.current, List.head?_cons, Option.getD_some]
      obtain ⟨after, hdefine, hafter⟩ | ⟨previous, hdefine, hafter⟩ :=
        Decl.first?_define hscope space name b
      · rw [hdefine]
        exact Or.inl ⟨_, rfl, List.cons_eq_cons.2 ⟨hafter, hscopes⟩, htop⟩
      · rw [hdefine]
        exact Or.inr ⟨previous, rfl, List.cons_eq_cons.2 ⟨hafter, hscopes⟩, htop⟩

/-- The nearest scope that has a name is the same in two rows of scopes with the same meaning. -/
theorem findSome?_target {rows : List (List Decl)} {scopes : List Scope}
    (h : rows.map Decl.first? = scopes.map Scope.target?) (space : Namespace) (name : String) :
    (scopes.findSome? (·.get? space name)).map (·.target) =
      rows.findSome? fun decls => Decl.first? decls space name := by
  have hrows := List.findSome?_map (f := Decl.first?) (p := fun f => f space name) (l := rows)
  have hscopes := List.findSome?_map (f := Scope.target?) (p := fun f => f space name) (l := scopes)
  rw [List.map_findSome?]
  rw [h, hscopes] at hrows
  exact hrows

/-- Both sides give every name the same meaning. -/
theorem Describes.find? (h : env.Describes stack) (use : NameUse) (global : Bool) (name : String) :
    Resolve.find? stack use global name = env.meaning use global name := by
  have hbottom : [env.top, Decl.provided].map Decl.first? =
      [stack.root, Scope.prelude].map Scope.target? := by
    simp [h.top, Decl.first?_provided]
  have hlookup (space : Namespace) :
      (if global then stack.lookupGlobal space name else stack.lookup space name).map (·.target) =
        env.lookup global space name := by
    cases global with
    | true => exact findSome?_target hbottom space name
    | false =>
      refine findSome?_target ?_ space name
      rw [if_neg Bool.false_ne_true, List.map_append, h.inner, hbottom, ← List.map_append]
      rfl
  unfold Resolve.find? Env.meaning
  simp only [hlookup]
  cases use with
  | type => simp [NameUse.namespaces]
  | value =>
    cases h : env.lookup global .value name <;> simp [NameUse.namespaces, h]

end Env

/-- A step behind another one has a result only if both have. -/
theorem Resolve.of_bind {α β : Type} {m : Resolver α} {k : α → Resolver β} {s t : ResolveState}
    {b : β} (h : (m >>= k) s = .ok b t) : ∃ a s₁, m s = .ok a s₁ ∧ k a s₁ = .ok b t := by
  change EStateM.bind m k s = _ at h
  unfold EStateM.bind at h
  split at h
  · rename_i a s₁ h₁
    exact ⟨a, s₁, h₁, h⟩
  · cases h

/-- Two steps that have results. -/
theorem Resolve.run_bind {α β : Type} {m : Resolver α} {k : α → Resolver β} {s s₁ : ResolveState}
    {a : α} (h : m s = .ok a s₁) : (m >>= k) s = k a s₁ := by
  change EStateM.bind m k s = _
  unfold EStateM.bind
  rw [h]

/-- From a stack that an environment describes, a step of the walk has a result, and another
environment describes the stack then. -/
def Walks {α : Type} (env : Env) (step : Resolver α) (a : α) (env' : Env) : Prop :=
  ∀ s, env.Describes s.scopes → ∃ s', step s = .ok a s' ∧ env'.Describes s'.scopes

namespace Walks

variable {α β γ : Type} {env env' env'' : Env}

/-- A result without a step. -/
theorem pure {a : α} : Walks env (Pure.pure a) a env := fun s h => ⟨s, rfl, h⟩

/-- One step after another. -/
theorem bind {m : Resolver α} {f : α → Resolver β} {a : α} {b : β} (hm : Walks env m a env')
    (hf : Walks env' (f a) b env'') : Walks env (m >>= f) b env'' := by
  intro s h
  obtain ⟨s₁, run₁, h₁⟩ := hm s h
  obtain ⟨s₂, run₂, h₂⟩ := hf s₁ h₁
  refine ⟨s₂, ?_, h₂⟩
  change EStateM.bind m f s = _
  unfold EStateM.bind
  rw [run₁]
  exact run₂

/-- A node with one part. -/
theorem map {m : Resolver α} {f : α → β} {a : α} (hm : Walks env m a env') :
    Walks env (do return f (← m)) (f a) env' :=
  hm.bind pure

/-- A node with two parts. -/
theorem map₂ {m : Resolver α} {m' : Resolver β} {f : α → β → γ} {a : α} {b : β}
    (hm : Walks env m a env') (hm' : Walks env' m' b env'') :
    Walks env (do return f (← m) (← m')) (f a b) env'' :=
  hm.bind (hm'.bind pure)

/-- A step that depends on the state. -/
theorem get {f : ResolveState → Resolver β} {b : β} (hf : ∀ s, env.Describes s.scopes →
    ∃ s', f s s = .ok b s' ∧ env'.Describes s'.scopes) : Walks env (MonadState.get >>= f) b env' :=
  hf

end Walks

namespace Resolve

variable {env env' : Env}

/-- Errors do not change what is in sight. -/
theorem report_walks (problem : ResolveProblem) (span : Span) :
    Walks env (report problem span) () env :=
  fun _ h => ⟨_, rfl, h⟩

/-- A keyword in the wrong place is only reported. -/
theorem check_walks {misplaced : ResolveState → Prop} [∀ s, Decidable (misplaced s)]
    {problem : ResolveProblem} {span : Span} :
    Walks env (do if misplaced (← get) then report problem span) () env := by
  refine Walks.get fun s h => ?_
  split
  · exact report_walks problem span s h
  · exact Walks.pure s h

theorem checkInLoop_walks (word : String) (span : Span) :
    Walks env (checkInLoop word span) () env :=
  check_walks

theorem checkInFunction_walks (span : Span) : Walks env (checkInFunction span) () env :=
  check_walks

theorem checkInType_walks (word : String) (span : Span) :
    Walks env (checkInType word span) () env :=
  check_walks

/-- A declared name is in sight afterwards, if only by an earlier declaration. -/
theorem declare_walks (d : Registration) : Walks env d.declare () (env.add [d.decl]) := by
  refine Walks.get fun s h => ?_
  obtain ⟨after, hdefine, hafter⟩ | ⟨previous, hdefine, hafter⟩ :=
    h.define d.space d.ident.name ⟨.declared d.kind d.id, some d.ident.span⟩
  · rw [hdefine]
    exact ⟨_, rfl, hafter⟩
  · rw [hdefine]
    exact ⟨_, rfl, hafter⟩

/-- A construct is left with the scopes that were around it. -/
theorem inScope_walks {α : Type} {inside : Resolver α} {a : α} (kind : ScopeKind)
    {decls : List Decl} (h : Walks env.nested inside a (env.nested.add decls)) :
    Walks env (inScope kind inside) a env := by
  have enter : Walks env (modify fun s => { s with scopes := s.scopes.enter kind }) () env.nested :=
    fun _ hs => ⟨_, rfl, hs.enter kind⟩
  refine enter.bind (h.bind (Walks.get fun s hs => ?_))
  obtain ⟨scope, outer, hexit, houter⟩ := hs.exit
  rw [hexit]
  exact ⟨_, rfl, houter⟩

/-- The same for a construct that declares in two places. -/
theorem inScope_walks₂ {α : Type} {inside : Resolver α} {a : α} (kind : ScopeKind)
    {decls later : List Decl} (h : Walks env.nested inside a ((env.nested.add decls).add later)) :
    Walks env (inScope kind inside) a env := by
  rw [← Env.add_append] at h
  exact inScope_walks kind h

/-- A name is bound to what it means where it is used. -/
theorem bindName_walks (use : NameUse) (global : Bool) (owner : NodeId) (ident : Ident) :
    Walks env (bindName use global owner ident .empty) ⟨env.meaning use global ident.name⟩ env := by
  refine Walks.get fun s h => ?_
  dsimp only
  rw [h.find? use global ident.name]
  cases env.meaning use global ident.name with
  | some target => exact ⟨_, rfl, h⟩
  | none => exact ⟨_, rfl, h⟩

/-- The first name of a path that has one. -/
theorem firstName_walks {first : Node .segment} {others : Node (.many .segment)} (span : Span) :
    Walks env (firstName (.cons first others) span) first.segmentIdent env := by
  cases first with
  | segment ident generics => exact Walks.pure

/-- Names are declared one after the other. -/
theorem declares_walks (ds : List Registration) :
    Walks env (ds.forM Registration.declare) () (env.add (ds.map Registration.decl)) := by
  induction ds generalizing env with
  | nil =>
    rw [List.map_nil, Env.add_nil]
    exact Walks.pure
  | cons d ds ih =>
    have hadd : env.add ((d :: ds).map Registration.decl) =
        (env.add [d.decl]).add (ds.map Registration.decl) :=
      Env.add_append env [d.decl] (ds.map Registration.decl)
    rw [hadd]
    exact (declare_walks d).bind ih

/-- The walk keeps what a generic parameter declares. -/
theorem walk_genericDeclares {o : Origin} {form walked : Node .genericForm} {s s' : ResolveState}
    (h : walk o form s = .ok walked s') (ident : Ident) (id : NodeId) :
    walked.genericDeclares ident id = form.genericDeclares ident id := by
  cases form with
  | typeGeneric bounds =>
    obtain ⟨bounds', s₁, -, h⟩ := of_bind h
    cases h
    rfl
  | constGeneric t default =>
    obtain ⟨t', s₁, -, h⟩ := of_bind h
    obtain ⟨default', s₂, -, h⟩ := of_bind h
    cases h
    rfl
  | lifetimeGeneric =>
    cases h
    rfl

/-- A generic parameter is declared as it is, whatever was bound in its form. -/
theorem declareGeneric_walks (ident : Ident) (id : NodeId) (form : Node .genericForm) {o : Origin}
    {around : Env} : Walks env (declareGeneric ident id (form.bound o around)) ()
      (env.add ((form.genericDeclares ident id).map Registration.decl)) := by
  have hform : (form.bound o around).genericDeclares ident id = form.genericDeclares ident id := by
    cases form <;> rfl
  rw [declareGeneric_eq, hform]
  exact declares_walks _

/-- The members of a type are declared in advance. -/
theorem declareMembers_walks (members : Node (.many .item)) :
    Walks env (members.toList.forM declareItem) () (env.add members.hoisted) := by
  rw [declareMembers_eq]
  exact declares_walks members.hoists

/-- The declarations of a block are declared in advance. -/
theorem declareStmts_walks (stmts : Node (.many .stmt)) :
    Walks env (stmts.toList.forM declareStmt) () (env.add stmts.hoisted) := by
  rw [declareStmts_eq]
  exact declares_walks stmts.hoists

end Resolve

/-- A node that declares nothing adds nothing to what is in sight. -/
theorem declared_eq_nil {c : Category} (n : Node c) (hc : c.declares = false) (o : Origin) :
    n.declared o = [] :=
  congrArg (List.map Registration.decl) (n.registers_eq_nil hc o)

namespace Walks

variable {α : Type} {env env' : Env} {step : Resolver α} {a : α}

/-- Behind a node that declares nothing the environment is the same. -/
theorem plain {c : Category} {n : Node c} {o : Origin}
    (h : Walks env step a (env'.add (n.declared o)))
    (hc : c.declares = false := by rfl) : Walks env step a env' := by
  rwa [declared_eq_nil n hc, Env.add_nil] at h

/-- A node that declares nothing. -/
theorem closed (h : Walks env step a env') : Walks env step a (env'.add []) := by
  rwa [Env.add_nil]

end Walks

namespace Resolve

variable {env env' : Env}

/-- A name that was not bound before. -/
theorem slot_of_name {ident : Ident} {slot : Slot} (h : (Node.name ident slot).Fresh) :
    slot = .empty := by
  simpa [Node.Fresh, Node.isStub, Node.hasNames, Node.slot?] using h

/-- A path that was not bound before, with at least one name. -/
theorem names_of_path {global : Bool} {segments : Node (.many .segment)} {span : Span} {slot : Slot}
    (h : (Node.path global segments span slot).Fresh) : segments.toList ≠ [] ∧ slot = .empty := by
  simpa [Node.Fresh, Node.isStub, Node.hasNames, Node.slot?] using h

/-- A path is bound by its first name. -/
theorem bindPath_walks {β : Type} {global : Bool} {segments : Node (.many .segment)} {span : Span}
    {slot : Slot} {o : Origin} {b : β} {f : Path → Resolver β} (use : NameUse)
    (h : (Node.path global segments span slot).Fresh)
    (hsegments : Walks env (walk o segments) (segments.bound o env) env)
    (hf : Walks env (f (Node.bindPath env use (.path global (segments.bound o env) span slot)))
      b env') :
    Walks env (do
      let segments ← walk o segments
      let first ← firstName segments span
      let slot ← bindName use global o.id first slot
      f (.path global segments span slot)) b env' := by
  obtain ⟨hnames, rfl⟩ := names_of_path h
  cases segments with
  | nil => exact absurd rfl hnames
  | cons first others =>
    exact hsegments.bind ((firstName_walks span).bind ((bindName_walks use global o.id _).bind hf))

/-- The walk over a node that was read without errors ends, and binds it as the environment says. -/
theorem walk_bound : {c : Category} → (n : Node c) → n.Forall Node.Fresh → (o : Origin) →
    (env : Env) → Walks env (walk o n) (n.bound o env) (env.add (n.declared o))
  | _, .nil, _, _, _ => .closed .pure
  | _, .cons n ns, h, o, env => by
    rw [Node.declared_cons, Env.add_append]
    exact .map₂ (walk_bound n h.2.1 o env) (walk_bound ns h.2.2 o _)
  | _, .absent, _, _, _ => .closed .pure
  | _, .present n, h, o, env => .map (walk_bound n h.2 o env)
  | _, .expr o form, h, _, env => .closed (.map (walk_bound form h.2 o env).plain)
  | _, .assign target op value, h, o, env =>
    .closed (.map₂ (walk_bound target h.2.1 o env).plain (walk_bound value h.2.2 o env).plain)
  | _, .name ident slot, h, o, env => by
    obtain rfl := slot_of_name h
    exact .closed (.map (bindName_walks .value false o.id ident))
  | _, .pathExpr (.path global segments span slot), h, o, env =>
    .closed (bindPath_walks (f := fun p => pure (Node.pathExpr p)) .value h.2.1
      (walk_bound segments h.2.2 o env).plain .pure)
  | _, .literal l, _, _, _ => .closed .pure
  | _, .binary left op right, h, o, env =>
    .closed (.map₂ (walk_bound left h.2.1 o env).plain (walk_bound right h.2.2 o env).plain)
  | _, .unary op operand, h, o, env => .closed (.map (walk_bound operand h.2 o env).plain)
  | _, .suffixed op operand, h, o, env => .closed (.map (walk_bound operand h.2 o env).plain)
  | _, .call callee args, h, o, env =>
    .closed (.map₂ (walk_bound callee h.2.1 o env).plain (walk_bound args h.2.2 o env).plain)
  | _, .index target indices, h, o, env =>
    .closed (.map₂ (walk_bound target h.2.1 o env).plain (walk_bound indices h.2.2 o env).plain)
  | _, .member target field safe, h, o, env => .closed (.map (walk_bound target h.2 o env).plain)
  | _, .list items, h, o, env => .closed (.map (walk_bound items h.2 o env).plain)
  | _, .tuple items, h, o, env => .closed (.map (walk_bound items h.2 o env).plain)
  | _, .unit, _, _, _ => .closed .pure
  | _, .construct (.path global segments span slot) fields, h, o, env =>
    .closed (bindPath_walks (f := fun p => do return Node.construct p (← walk o fields)) .type
      h.2.1.1 (walk_bound segments h.2.1.2 o env).plain
      (.map (walk_bound fields h.2.2 o env).plain))
  | _, .blockExpr b, h, o, env =>
    .closed (.map (inScope_walks .block (walk_bound b h.2 o env.nested)))
  | _, .cond condition positive negative, h, o, env =>
    .closed (.bind (walk_bound condition h.2.1 o env).plain
      (.map₂ (inScope_walks .block (walk_bound positive h.2.2.1 o env.nested))
        (walk_bound negative h.2.2.2 o env).plain))
  | _, .loop body, h, o, env =>
    .closed (.map (inScope_walks .loop (walk_bound body h.2 o env.nested)))
  | _, .select subject entries, h, o, env =>
    .closed (.map₂ (walk_bound subject h.2.1 o env).plain (walk_bound entries h.2.2 o env).plain)
  | _, .lambda params result body, h, o, env =>
    .closed (inScope_walks .lambda (.bind (walk_bound params h.2.1 o env.nested)
      (.map₂ (walk_bound result h.2.2.1 o _).plain (walk_bound body h.2.2.2 o _).plain)))
  | _, .break_ value, h, o, env =>
    .closed (.bind (checkInLoop_walks "break" o.span) (.map (walk_bound value h.2 o env).plain))
  | _, .continue_, _, o, _ => .closed (.bind (checkInLoop_walks "continue" o.span) .pure)
  | _, .return_ value, h, o, env =>
    .closed (.bind (checkInFunction_walks o.span) (.map (walk_bound value h.2 o env).plain))
  | _, .throw value, h, o, env => .closed (.map (walk_bound value h.2 o env).plain)
  | _, .tryCatch body handler, h, o, env =>
    .closed (.map₂ (inScope_walks .block (walk_bound body h.2.1 o env.nested))
      (walk_bound handler h.2.2 o env).plain)
  | _, .paren inner, h, o, env => .closed (.map (walk_bound inner h.2 o env).plain)
  | _, .spread inner, h, o, env => .closed (.map (walk_bound inner h.2 o env).plain)
  | _, .cast inner t safe, h, o, env =>
    .closed (.map₂ (walk_bound inner h.2.1 o env).plain (walk_bound t h.2.2 o env).plain)
  | _, .this_, _, o, _ => .closed (.bind (checkInType_walks "this" o.span) .pure)
  | _, .super, _, o, _ => .closed (.bind (checkInType_walks "super" o.span) .pure)
  | _, .errorExpr, h, _, _ => absurd h Bool.false_ne_true
  | _, .path global segments span slot, h, o, env =>
    .closed (.map (walk_bound segments h.2 o env).plain)
  | _, .segment ident generics, h, o, env => .closed (.map (walk_bound generics h.2 o env).plain)
  | _, .argument name? value span, h, o, env => .closed (.map (walk_bound value h.2 o env).plain)
  | _, .namedField ident value, h, o, env => .closed (.map (walk_bound value h.2 o env).plain)
  | _, .shorthandField value, h, o, env => .closed (.map (walk_bound value h.2 o env).plain)
  | _, .baseField value, h, o, env => .closed (.map (walk_bound value h.2 o env).plain)
  | _, .block o stmts, h, _, env => by
    rw [Node.declared_block, Env.add_append]
    exact .bind (declareStmts_walks stmts) (.map (walk_bound stmts h.2 o _))
  | _, .selectEntry o conditions body, h, _, env =>
    .closed (inScope_walks .selectEntry (.closed
      (.map₂ (walk_bound conditions h.2.1 o env.nested).plain
        (walk_bound body h.2.2 o env.nested).plain)))
  | _, .lambdaParam id ident t, h, o, env =>
    .bind (walk_bound t h.2 o env).plain (.bind (declare_walks ⟨.value, ident, .param, id⟩) .pure)
  | _, .handler id binding body, h, o, env =>
    .closed (inScope_walks .handler (.bind (declare_walks ⟨.value, binding, .localVar, id⟩)
      (.map (inScope_walks .block (walk_bound body h.2 o _)))))
  | _, .type o form, h, _, env => .closed (.map (walk_bound form h.2 o env).plain)
  | _, .pathType (.path global segments span slot), h, o, env =>
    .closed (bindPath_walks (f := fun p => pure (Node.pathType p)) .type h.2.1
      (walk_bound segments h.2.2 o env).plain .pure)
  | _, .tupleType items, h, o, env => .closed (.map (walk_bound items h.2 o env).plain)
  | _, .funcType params result, h, o, env =>
    .closed (.map₂ (walk_bound params h.2.1 o env).plain (walk_bound result h.2.2 o env).plain)
  | _, .arrayType element size, h, o, env =>
    .closed (.map₂ (walk_bound element h.2.1 o env).plain (walk_bound size h.2.2 o env).plain)
  | _, .sliceType element, h, o, env => .closed (.map (walk_bound element h.2 o env).plain)
  | _, .parenType inner, h, o, env => .closed (.map (walk_bound inner h.2 o env).plain)
  | _, .unitType, _, _, _ => .closed .pure
  | _, .errorType, h, _, _ => absurd h Bool.false_ne_true
  | _, .stmt o form, h, _, env => .map (walk_bound form h.2 o env)
  | _, .exprStmt e, h, o, env => .closed (.map (walk_bound e h.2 o env).plain)
  | _, .varStmt kind ident t init, h, o, env =>
    .bind (walk_bound t h.2.1 o env).plain (.bind (walk_bound init h.2.2 o env).plain
      (.bind (declare_walks ⟨.value, ident, .localVar, o.id⟩) .pure))
  | _, .forStmt binding source body, h, o, env =>
    .closed (.bind (walk_bound source h.2.1 o env).plain
      (inScope_walks .loop (.bind (declare_walks ⟨.value, binding, .localVar, o.id⟩)
        (.map (inScope_walks .block (walk_bound body h.2.2 o _))))))
  | _, .whileStmt condition body, h, o, env =>
    .closed (.map₂ (walk_bound condition h.2.1 o env).plain
      (inScope_walks .loop (walk_bound body h.2.2 o env.nested)))
  | _, .itemStmt i, h, o, env => .closed (.map (walk_bound i h.2 o env).plain)
  | _, .errorStmt, h, _, _ => absurd h Bool.false_ne_true
  | _, .item o attrs modifiers form, h, _, env => .closed (.map (walk_bound form h.2.2 o env).plain)
  | _, .funcItem ident generics params result body, h, o, env =>
    .closed (inScope_walks₂ .func (.bind (walk_bound generics h.2.1 o env.nested)
      (.bind (walk_bound params h.2.2.1 o _)
        (.map₂ (walk_bound result h.2.2.2.1 o _).plain (walk_bound body h.2.2.2.2 o _).plain))))
  | _, .classItem isStruct ident generics supers members, h, o, env =>
    .closed (inScope_walks₂ _ (.bind (walk_bound generics h.2.1 o env.nested)
      (.bind (walk_bound supers h.2.2.1 o _).plain
        (.bind (declareMembers_walks members)
          (.map (walk_bound members h.2.2.2 o _).plain)))))
  | _, .enumItem ident generics entries members, h, o, env =>
    .closed (inScope_walks₂ _ (.bind (walk_bound generics h.2.1 o env.nested)
      (.bind (walk_bound entries h.2.2.1 o _).plain
        (.bind (declareMembers_walks members)
          (.map (walk_bound members h.2.2.2 o _).plain)))))
  | _, .traitItem ident generics supers members, h, o, env =>
    .closed (inScope_walks₂ _ (.bind (walk_bound generics h.2.1 o env.nested)
      (.bind (walk_bound supers h.2.2.1 o _).plain
        (.bind (declareMembers_walks members)
          (.map (walk_bound members h.2.2.2 o _).plain)))))
  | _, .aliasItem ident generics t, h, o, env =>
    .closed (inScope_walks _ (.map₂ (walk_bound generics h.2.1 o env.nested)
      (walk_bound t h.2.2 o _).plain))
  | _, .objectItem ident supers members, h, o, env =>
    .closed (inScope_walks _ (.bind (walk_bound supers h.2.1 o env.nested).plain
      (.bind (declareMembers_walks members)
        (.map (walk_bound members h.2.2 o _).plain))))
  | _, .fieldItem kind? ident t default, h, o, env =>
    .closed (.map₂ (walk_bound t h.2.1 o env).plain (walk_bound default h.2.2 o env).plain)
  | _, .initItem params body, h, o, env =>
    .closed (inScope_walks .func (.map₂ (walk_bound params h.2.1 o env.nested)
      (inScope_walks .block (walk_bound body h.2.2 o _))))
  | _, .attr ident args span, _, _, _ => .closed .pure
  | _, .blockBody b, h, o, env =>
    .closed (.map (inScope_walks .block (walk_bound b h.2 o env.nested)))
  | _, .exprBody e, h, o, env => .closed (.map (walk_bound e h.2 o env).plain)
  | _, .param o ident t default, h, _, env =>
    .bind (walk_bound t h.2.1 o env).plain (.bind (walk_bound default h.2.2 o env).plain
      (.bind (declare_walks ⟨.value, ident, .param, o.id⟩) .pure))
  | _, .generic o ident form, h, _, env =>
    .bind (walk_bound form h.2 o env).plain (.bind (declareGeneric_walks ident o.id form) .pure)
  | _, .typeGeneric bounds, h, o, env => .closed (.map (walk_bound bounds h.2 o env).plain)
  | _, .lifetimeGeneric, _, _, _ => .closed .pure
  | _, .constGeneric t default, h, o, env =>
    .closed (.map₂ (walk_bound t h.2.1 o env).plain (walk_bound default h.2.2 o env).plain)
  | _, .enumEntry o ident form, h, _, env => .closed (.map (walk_bound form h.2 o env).plain)
  | _, .bareEntry, _, _, _ => .closed .pure
  | _, .valueEntry value, h, o, env => .closed (.map (walk_bound value h.2 o env).plain)
  | _, .tupleEntry types, h, o, env => .closed (.map (walk_bound types h.2 o env).plain)
  | _, .structEntry fields, h, o, env => .closed (.map (walk_bound fields h.2 o env).plain)
  | _, .entryField ident t, h, o, env => .closed (.map (walk_bound t h.2 o env).plain)

end Resolve

end FrontEnd
