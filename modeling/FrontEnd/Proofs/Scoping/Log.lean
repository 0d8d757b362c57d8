import FrontEnd.Proofs.Scoping.Uses

/-!
# What the walk writes down

The walk over a tree fills slots, keeps a table and reports errors. `Logs` says of a step that all
three agree on the uses of names seen so far: the table has an entry for each slot that is filled,
a filled slot holds something of that name, and a slot that is left empty was reported. Only the
arguments of attributes are passed over in silence.
-/

namespace FrontEnd

/-- A target is right for a name: a declaration declares it, and what the language provides has
it. -/
def Target.Fits (declares : Declaration → Prop) (name : String) : Target → Prop
  | .declared kind id => declares ⟨kind, id, name⟩
  | .primitive provided => provided = name
  | .builtin provided => provided = name

/-- The error for a use of a name that is not in sight. -/
def Use.Reported (u : Use) (errors : List ResolveError) : Prop :=
  ∃ similar?, ⟨.unresolved u.kind u.ident.name similar?, u.ident.span⟩ ∈ errors

/-- The names in a scope stand for targets that are right for them. -/
def Scope.Known (declares : Declaration → Prop) (scope : Scope) : Prop :=
  ∀ space name b, scope.get? space name = some b → b.target.Fits declares name

/-- The same for all scopes around a place. -/
def ScopeStack.Known (declares : Declaration → Prop) (stack : ScopeStack) : Prop :=
  ∀ scope ∈ stack.scopes, scope.Known declares

section Known

variable {declares : Declaration → Prop}

/-- A scope without names has no unknown ones. -/
theorem Scope.known_empty (kind : ScopeKind) : (Scope.empty kind).Known declares := by
  intro space name b h
  cases space <;> cases h

/-- What the language provides has its own name. -/
theorem Scope.known_prelude : Scope.prelude.Known declares := by
  have hfind {names : List String} {name : String} {f : String → Binding} {b : Binding}
      (h : (names.map fun n => (n, f n)).lookup name = some b) : b = f name := by
    rw [Decl.lookup_map, Option.map_eq_some_iff] at h
    obtain ⟨found, hfound, rfl⟩ := h
    have hname : found = name := by simpa using List.find?_some hfound
    rw [hname]
  intro space name b h
  cases space with
  | type => rw [hfind (f := fun n => ⟨.primitive n, none⟩) h]; rfl
  | value => rw [hfind (f := fun n => ⟨.builtin n, none⟩) h]; rfl

/-- A further declaration in a scope. -/
theorem Scope.Known.define {scope after : Scope} (h : scope.Known declares) {space : Namespace}
    {name : String} {b : Binding} (hb : b.target.Fits declares name)
    (hdefine : scope.define space name b = .ok after) : after.Known declares := by
  unfold Scope.define at hdefine
  cases hget : scope.get? space name with
  | some previous => rw [hget] at hdefine; cases hdefine
  | none =>
    rw [hget] at hdefine
    cases hdefine
    intro space' name' b' h'
    unfold Scope.get? at h'
    rw [Decl.bindings_insert, List.lookup_append, Option.or_eq_some_iff] at h'
    rcases h' with h' | ⟨-, h'⟩
    · exact h space' name' b' h'
    · split at h'
      · rw [List.lookup_cons] at h'
        split at h'
        · rename_i hname
          rw [beq_iff_eq.1 hname]
          cases h'
          exact hb
        · cases h'
      · cases h'

namespace ScopeStack

variable {stack : ScopeStack}

/-- Around a module only the names of the prelude are known. -/
theorem known_start : ScopeStack.start.Known declares :=
  List.forall_mem_cons.2
    ⟨Scope.known_empty .module, List.forall_mem_singleton.2 Scope.known_prelude⟩

/-- Entering a scope adds none. -/
theorem Known.enter (h : stack.Known declares) (kind : ScopeKind) :
    (stack.enter kind).Known declares :=
  List.forall_mem_cons.2 ⟨Scope.known_empty kind, h⟩

/-- Leaving one takes some away. -/
theorem Known.exit (h : stack.Known declares) {scope : Scope} {outer : ScopeStack}
    (hexit : stack.exit = .ok (scope, outer)) : outer.Known declares := by
  obtain ⟨inner, root⟩ := stack
  cases inner with
  | nil => cases hexit
  | cons first inner =>
    cases hexit
    exact (List.forall_mem_cons.1 h).2

/-- A name that is defined stands for a declaration of the tree. -/
theorem Known.define (h : stack.Known declares) {space : Namespace} {name : String} {b : Binding}
    (hb : b.target.Fits declares name) {after : ScopeStack}
    (hdefine : stack.define space name b = .ok after) : after.Known declares := by
  obtain ⟨inner, root⟩ := stack
  unfold ScopeStack.define at hdefine
  cases hcurrent : (ScopeStack.mk inner root).current.define space name b with
  | error previous => rw [hcurrent] at hdefine; cases hdefine
  | ok scope =>
    rw [hcurrent] at hdefine
    cases hdefine
    cases inner with
    | nil =>
      obtain ⟨hroot, hprelude⟩ := List.forall_mem_cons.1 h
      exact List.forall_mem_cons.2 ⟨hroot.define hb hcurrent, hprelude⟩
    | cons first inner =>
      obtain ⟨hfirst, hothers⟩ := List.forall_mem_cons.1 h
      exact List.forall_mem_cons.2 ⟨hfirst.define hb hcurrent, hothers⟩

/-- What a name is found to stand for is right for it. -/
theorem Known.find? (h : stack.Known declares) {use : NameUse} {global : Bool} {name : String}
    {target : Target} (hfind : Resolve.find? stack use global name = some target) :
    target.Fits declares name := by
  have hlookup {scopes : List Scope} {space : Namespace} {b : Binding}
      (hscopes : scopes ⊆ stack.scopes)
      (hget : scopes.findSome? (·.get? space name) = some b) : b.target.Fits declares name := by
    obtain ⟨scope, hmem, hb⟩ := List.exists_of_findSome?_eq_some hget
    exact h scope (hscopes hmem) space name b hb
  obtain ⟨space, -, hspace⟩ := List.exists_of_findSome?_eq_some hfind
  obtain ⟨b, hb, rfl⟩ := Option.map_eq_some_iff.1 hspace
  cases global with
  | true => exact hlookup (List.subset_append_right _ _) hb
  | false => exact hlookup (List.Subset.refl _) hb

end ScopeStack

end Known

/-- The slots, the table and the errors agree on some uses of names. -/
structure Logged (declares : Declaration → Prop) (silent : Use → Prop) (uses : List Use)
    (s : ResolveState) : Prop where
  /-- The names in sight stand for what they should. -/
  known : s.scopes.Known declares
  /-- The table has what is in the slots. -/
  table : s.table.Perm (uses.filterMap Use.entry?)
  /-- What is in a slot is right for the name. -/
  fits : ∀ u ∈ uses, ∀ target ∈ u.slot.target?, target.Fits declares u.ident.name
  /-- An empty slot was reported. -/
  reported : ∀ u ∈ uses, u.slot.target? = none → silent u ∨ u.Reported s.errors

/-- From a state that agrees on some uses, a step leads to a state that agrees on those given by
its result. -/
def Logs (declares : Declaration → Prop) (silent : Use → Prop) {α : Type} (uses : List Use)
    (step : Resolver α) (after : α → List Use) : Prop :=
  ∀ s a s', Logged declares silent uses s → step s = .ok a s' →
    Logged declares silent (after a) s'

section Log

variable {declares : Declaration → Prop} {silent : Use → Prop} {uses : List Use}

namespace Logged

variable {s : ResolveState}

/-- The order of the uses does not matter. -/
theorem perm {uses' : List Use} (h : Logged declares silent uses s) (hperm : uses.Perm uses') :
    Logged declares silent uses' s where
  known := h.known
  table := h.table.trans (hperm.filterMap Use.entry?)
  fits u hu := h.fits u (hperm.mem_iff.2 hu)
  reported u hu := h.reported u (hperm.mem_iff.2 hu)

/-- Other scopes. -/
theorem scopes (h : Logged declares silent uses s) {stack : ScopeStack}
    (hstack : stack.Known declares) : Logged declares silent uses { s with scopes := stack } :=
  ⟨hstack, h.table, h.fits, h.reported⟩

/-- A further error. -/
theorem report (h : Logged declares silent uses s) (e : ResolveError) :
    Logged declares silent uses { s with errors := s.errors ++ [e] } :=
  ⟨h.known, h.table, h.fits, fun u hu hslot => (h.reported u hu hslot).imp_right
    fun ⟨similar?, hmem⟩ => ⟨similar?, List.mem_append_left _ hmem⟩⟩

/-- A use whose slot is filled. -/
theorem fill (h : Logged declares silent uses s) {owner : NodeId} {kind : NameUse} {ident : Ident}
    {target : Target} (hfits : target.Fits declares ident.name) :
    Logged declares silent (uses ++ [⟨owner, kind, ident, ⟨some target⟩⟩])
      { s with table := s.table ++ [(owner, target)] } where
  known := h.known
  table := by
    rw [List.filterMap_append]
    exact h.table.append_right _
  fits := List.forall_mem_append.2 ⟨h.fits, List.forall_mem_singleton.2 fun t ht => by
    cases ht
    exact hfits⟩
  reported := List.forall_mem_append.2 ⟨h.reported, List.forall_mem_singleton.2 fun ht => by
    cases ht⟩

/-- Uses with empty slots that were reported or are passed over. -/
theorem pass (h : Logged declares silent uses s) {others : List Use}
    (hempty : ∀ u ∈ others, u.slot.target? = none)
    (hothers : ∀ u ∈ others, silent u ∨ u.Reported s.errors) :
    Logged declares silent (uses ++ others) s where
  known := h.known
  table := by
    have hnone : others.filterMap Use.entry? = [] := List.filterMap_eq_nil_iff.2 fun u hu => by
      rw [Use.entry?, hempty u hu]
      rfl
    rw [List.filterMap_append, hnone, List.append_nil]
    exact h.table
  fits := List.forall_mem_append.2 ⟨h.fits, fun u hu t ht => by
    rw [hempty u hu] at ht
    cases ht⟩
  reported := List.forall_mem_append.2 ⟨h.reported, fun u hu _ => hothers u hu⟩

end Logged

namespace Logs

variable {α β γ : Type}

/-- A result without a step. -/
theorem pure {a : α} {after : α → List Use} (h : after a = uses) :
    Logs declares silent uses (Pure.pure a) after := by
  intro s a' s' hs hrun
  cases hrun
  rw [h]
  exact hs

/-- One step after another. -/
theorem bind {m : Resolver α} {f : α → Resolver β} {mid : α → List Use} {after : β → List Use}
    (hm : Logs declares silent uses m mid) (hf : ∀ a, Logs declares silent (mid a) (f a) after) :
    Logs declares silent uses (m >>= f) after := by
  intro s b s' hs hrun
  change EStateM.bind m f s = _ at hrun
  unfold EStateM.bind at hrun
  cases hfirst : m s with
  | error d s₁ => rw [hfirst] at hrun; cases hrun
  | ok a s₁ =>
    rw [hfirst] at hrun
    exact hf a s₁ b s' (hm s a s₁ hs hfirst) hrun

/-- A node with one part. -/
theorem map {m : Resolver α} {f : α → β} {mid : α → List Use} {after : β → List Use}
    (hm : Logs declares silent uses m mid) (h : ∀ a, after (f a) = mid a) :
    Logs declares silent uses (do return f (← m)) after :=
  hm.bind fun a => pure (h a)

/-- A node with two parts. -/
theorem map₂ {m : Resolver α} {m' : Resolver β} {f : α → β → γ} {mid : α → List Use}
    {last : α → β → List Use} {after : γ → List Use} (hm : Logs declares silent uses m mid)
    (hm' : ∀ a, Logs declares silent (mid a) m' (last a)) (h : ∀ a b, after (f a b) = last a b) :
    Logs declares silent uses (do return f (← m) (← m')) after :=
  hm.bind fun a => (hm' a).bind fun b => pure (h a b)

/-- A result whose uses come in another order. -/
theorem pure_perm {a : α} {after : α → List Use} (h : uses.Perm (after a)) :
    Logs declares silent uses (Pure.pure a) after := by
  intro s a' s' hs hrun
  cases hrun
  exact hs.perm h

/-- A node with one part, and what comes after it. -/
theorem bind_map {m : Resolver α} {f : α → β} {k : β → Resolver γ} {mid : α → List Use}
    {after : γ → List Use} (hm : Logs declares silent uses m mid)
    (hk : ∀ a, Logs declares silent (mid a) (k (f a)) after) :
    Logs declares silent uses ((do return f (← m)) >>= k) after := by
  rw [bind_assoc]
  exact hm.bind hk

/-- A node with two parts, and what comes after it. -/
theorem bind_map₂ {δ : Type} {m : Resolver α} {m' : Resolver β} {f : α → β → γ}
    {k : γ → Resolver δ} {mid : α → List Use} {last : α → β → List Use} {after : δ → List Use}
    (hm : Logs declares silent uses m mid) (hm' : ∀ a, Logs declares silent (mid a) m' (last a))
    (hk : ∀ a b, Logs declares silent (last a b) (k (f a b)) after) :
    Logs declares silent uses ((do return f (← m) (← m')) >>= k) after := by
  rw [bind_assoc]
  exact hm.bind fun a => bind_map (hm' a) (hk a)

/-- A step that depends on the state. -/
theorem get {f : ResolveState → Resolver β} {after : β → List Use}
    (hf : ∀ s b s', Logged declares silent uses s → f s s = .ok b s' →
      Logged declares silent (after b) s') :
    Logs declares silent uses (MonadState.get >>= f) after :=
  hf

end Logs

namespace Resolve

/-- A report resolves nothing. -/
theorem report_logs (problem : ResolveProblem) (span : Span) :
    Logs declares silent uses (report problem span) fun _ => uses := by
  intro s a s' hs hrun
  cases hrun
  exact hs.report ⟨problem, span⟩

/-- A keyword in the wrong place is only reported. -/
theorem check_logs {misplaced : ResolveState → Prop} [∀ s, Decidable (misplaced s)]
    {problem : ResolveProblem} {span : Span} :
    Logs declares silent uses (do if misplaced (← get) then report problem span)
      fun _ => uses := by
  refine Logs.get fun s a s' hs hrun => ?_
  split at hrun
  · exact report_logs problem span s a s' hs hrun
  · cases hrun
    exact hs

/-- Neither does the check that there is a loop around. -/
theorem checkInLoop_logs (word : String) (span : Span) :
    Logs declares silent uses (checkInLoop word span) fun _ => uses :=
  check_logs

/-- Neither does the check that there is a function around. -/
theorem checkInFunction_logs (span : Span) :
    Logs declares silent uses (checkInFunction span) fun _ => uses :=
  check_logs

/-- Neither does the check that there is a type around. -/
theorem checkInType_logs (word : String) (span : Span) :
    Logs declares silent uses (checkInType word span) fun _ => uses :=
  check_logs

/-- A declared name stands for a declaration of that name. -/
theorem define_logs {space : Namespace} {ident : Ident} {kind : DeclKind} {id : NodeId}
    (h : declares ⟨kind, id, ident.name⟩) :
    Logs declares silent uses (define space ident kind id) fun _ => uses := by
  refine Logs.get fun s a s' hs hrun => ?_
  cases hdefine : s.scopes.define space ident.name ⟨.declared kind id, some ident.span⟩ with
  | ok after =>
    rw [hdefine] at hrun
    cases hrun
    exact hs.scopes (hs.known.define (b := ⟨.declared kind id, some ident.span⟩) h hdefine)
  | error previous =>
    rw [hdefine] at hrun
    exact report_logs _ _ s a s' hs hrun

/-- A construct is left with the scopes that were around it. -/
theorem inScope_logs {α : Type} {inside : Resolver α} {after : α → List Use} (kind : ScopeKind)
    (h : Logs declares silent uses inside after) :
    Logs declares silent uses (inScope kind inside) after := by
  have enter : Logs declares silent uses
      (modify fun s => { s with scopes := s.scopes.enter kind }) fun _ => uses := by
    intro s a s' hs hrun
    cases hrun
    exact hs.scopes (hs.known.enter kind)
  refine enter.bind fun _ => h.bind fun a => Logs.get fun s b s' hs hrun => ?_
  cases hexit : s.scopes.exit with
  | error d => rw [hexit] at hrun; cases hrun
  | ok left =>
    rw [hexit] at hrun
    cases hrun
    exact hs.scopes (hs.known.exit hexit)

/-- A name is bound to something of that name, or reported. -/
theorem bindName_logs (use : NameUse) (global : Bool) (owner : NodeId) (ident : Ident) :
    Logs declares silent uses (bindName use global owner ident .empty) fun slot =>
      uses ++ [⟨owner, use, ident, slot⟩] := by
  refine Logs.get fun s slot s' hs hrun => ?_
  dsimp only at hrun
  cases hfind : find? s.scopes use global ident.name with
  | some target =>
    rw [hfind] at hrun
    cases hrun
    exact hs.fill (hs.known.find? hfind)
  | none =>
    rw [hfind] at hrun
    cases hrun
    refine (hs.report _).pass (List.forall_mem_singleton.2 rfl) (List.forall_mem_singleton.2 ?_)
    exact Or.inr ⟨_, List.mem_append_right _ (List.mem_singleton_self _)⟩

end Resolve

/-- What the walk relies on at a node: nothing is missing there, its declaration is known, and the
uses in the arguments of an attribute may be passed over. -/
structure Node.Ready (declares : Declaration → Prop) (silent : Use → Prop) {c : Category}
    (n : Node c) : Prop where
  fresh : n.Fresh
  declares : ∀ d ∈ n.declares?, declares d
  silent : ∀ args ∈ n.attrArgs?, ∀ u ∈ args.uses, silent u

/-- The node a form belongs to; other nodes stand for themselves. -/
def Node.held (o : Origin) : {c : Category} → Node c → (d : Category) × Node d
  | .exprForm, form => ⟨.expr, expr o form⟩
  | .typeForm, form => ⟨.type, type o form⟩
  | .stmtForm, form => ⟨.stmt, stmt o form⟩
  | c, n => ⟨c, n⟩

/-- A node that is not held stands for itself. -/
theorem Node.held_eq {c : Category} (n : Node c) (h : c.isHeld = false) (o : Origin) :
    n.held o = ⟨c, n⟩ := by
  cases c <;> first | rfl | cases h

namespace Logs

variable {α : Type}

/-- The arguments of an attribute are passed over. -/
theorem attr {m : Resolver α} {after : α → List Use} {ident : Ident}
    {args : Node (.many .argument)} {span : Span}
    (h : (Node.attr ident args span).Forall (Node.Ready declares silent))
    (hm : Logs declares silent (args.usesAfter uses) m after) :
    Logs declares silent uses m after := by
  intro s a s' hs hrun
  refine hm s a s' ?_ hrun
  rw [show args.usesAfter uses = uses ++ args.uses from Node.collect_eq_append Node.use? args uses]
  refine hs.pass (fun u hu => ?_) fun u hu => Or.inl (h.1.silent args rfl u hu)
  rw [Node.slot_of_uses args (h.2.imp fun n hn => hn.fresh) u hu]
  rfl

/-- The arguments of several attributes are passed over. -/
theorem attrs {m : Resolver α} {after : α → List Use} : {uses : List Use} →
    (ns : Node (.many .attr)) → ns.Forall (Node.Ready declares silent) →
    Logs declares silent (ns.usesAfter uses) m after → Logs declares silent uses m after
  | _, .nil, _, hm => hm
  | _, .cons (.attr _ _ _) ns, h, hm => .attr h.2.1 (attrs ns h.2.2 hm)

end Logs

namespace Resolve

/-- Declaring an item resolves nothing yet. -/
theorem declareItem_logs (i : Item) (h : i.Forall (Node.Ready declares silent)) :
    Logs declares silent uses (declareItem i) fun _ => uses := by
  cases i with
  | item o attrs modifiers form =>
    have hdeclares := h.1.declares
    cases form with
    | classItem isStruct =>
      cases isStruct with
      | true => exact define_logs (hdeclares _ rfl)
      | false => exact define_logs (hdeclares _ rfl)
    | initItem => exact .pure rfl
    | _ => exact define_logs (hdeclares _ rfl)

/-- Neither does declaring what a statement declares. -/
theorem declareStmt_logs (s : Stmt) (h : s.Forall (Node.Ready declares silent)) :
    Logs declares silent uses (declareStmt s) fun _ => uses := by
  cases s with
  | stmt o form =>
    cases form with
    | itemStmt i => exact declareItem_logs i h.2.2
    | _ => exact .pure rfl

/-- Nor does declaring what several of them declare. -/
theorem forM_logs {c : Category} {declare : Node c → Resolver Unit}
    (hdeclare : ∀ n : Node c, n.Forall (Node.Ready declares silent) →
      Logs declares silent uses (declare n) fun _ => uses)
    (ns : List (Node c)) (h : ∀ n ∈ ns, n.Forall (Node.Ready declares silent)) :
    Logs declares silent uses (ns.forM declare) fun _ => uses := by
  induction ns with
  | nil => exact .pure rfl
  | cons n ns ih =>
    obtain ⟨hn, hns⟩ := List.forall_mem_cons.1 h
    exact (hdeclare n hn).bind fun _ => ih hns

/-- A path is bound by its first name. -/
theorem bindPath_logs {β : Type} {global : Bool} {segments : Node (.many .segment)} {span : Span}
    {slot : Slot} {o : Origin} {f : Path → Resolver β} {after : β → List Use} (use : NameUse)
    (h : (Node.path global segments span slot).Fresh)
    (hsegments : Logs declares silent uses (walk o segments) fun ns => ns.usesAfter uses)
    (hf : ∀ ns slot, Logs declares silent
      (((Node.path global ns span slot).pathUse? o.id use).elim (ns.usesAfter uses)
        (ns.usesAfter uses ++ [·])) (f (.path global ns span slot)) after) :
    Logs declares silent uses (do
      let segments ← walk o segments
      let first ← firstName segments span
      let slot ← bindName use global o.id first slot
      f (.path global segments span slot)) after := by
  obtain ⟨-, rfl⟩ := names_of_path h
  refine hsegments.bind fun ns => ?_
  cases ns with
  | nil =>
    intro s b s' hs hrun
    cases hrun
  | cons first others =>
    cases first with
    | segment ident generics =>
      change Logs declares silent _ (bindName use global o.id ident .empty >>= fun slot => _) after
      exact (bindName_logs use global o.id ident).bind fun slot =>
        hf (.cons (.segment ident generics) others) slot

/-- The uses in a struct value, with its path before or after its fields. -/
theorem usesAfter_construct (o : Origin) (p : Path) (fields : Node (.many .fieldInit))
    (before : List Use) :
    (fields.usesAfter
      ((p.pathUse? o.id .type).elim (p.usesAfter before) (p.usesAfter before ++ [·]))).Perm
        ((Node.expr o (.construct p fields)).usesAfter before) := by
  change List.Perm _ ((p.pathUse? o.id .type).elim (fields.usesAfter (p.usesAfter before))
    (fields.usesAfter (p.usesAfter before) ++ [·]))
  have happend (uses : List Use) : fields.usesAfter uses = uses ++ fields.uses :=
    Node.collect_eq_append Node.use? fields uses
  cases p.pathUse? o.id .type with
  | none => exact .refl _
  | some u =>
    rw [Option.elim_some, Option.elim_some, happend, happend, List.append_assoc, List.append_assoc]
    exact List.perm_append_comm.append_left _

/-- The walk over a node agrees with the uses of names in it. -/
theorem walk_logs : {c : Category} → (n : Node c) → c.isWhole = true → (o : Origin) →
    (n.held o).2.Forall (Node.Ready declares silent) → {uses : List Use} →
    Logs declares silent uses (walk o n) fun n => (n.held o).2.usesAfter uses
  | _, .nil, _, _, _ => .pure rfl
  | _, .cons (c := c) n ns, hc, o, h => by
    obtain ⟨hheld, hwhole⟩ : c.isHeld = false ∧ c.isWhole = true := by
      simpa [Category.isWhole] using hc
    refine .map₂ (walk_logs n hwhole o ?_) (fun _ => walk_logs ns hc o h.2.2) fun a b => ?_
    · rw [Node.held_eq n hheld]
      exact h.2.1
    · rw [Node.held_eq a hheld]
      rfl
  | _, .absent, _, _, _ => .pure rfl
  | _, .present (c := c) n, hc, o, h => by
    obtain ⟨hheld, hwhole⟩ : c.isHeld = false ∧ c.isWhole = true := by
      simpa [Category.isWhole] using hc
    refine .map (walk_logs n hwhole o ?_) fun a => ?_
    · rw [Node.held_eq n hheld]
      exact h.2
    · rw [Node.held_eq a hheld]
      rfl
  | _, .expr o form, _, _, h => .map (walk_logs form rfl o h) fun _ => rfl
  | _, .assign target op value, _, o, h =>
    .map₂ (walk_logs target rfl o h.2.2.1) (fun _ => walk_logs value rfl o h.2.2.2)
      fun _ _ => rfl
  | _, .name ident slot, _, o, h => by
    obtain rfl := slot_of_name h.2.fresh
    exact .map (bindName_logs .value false o.id ident) fun _ => rfl
  | _, .pathExpr (.path global segments span slot), _, o, h =>
    bindPath_logs (f := fun p => pure (Node.pathExpr p)) .value h.2.2.1.fresh
      (walk_logs segments rfl o h.2.2.2) fun _ _ => .pure rfl
  | _, .literal l, _, _, _ => .pure rfl
  | _, .binary left op right, _, o, h =>
    .map₂ (walk_logs left rfl o h.2.2.1) (fun _ => walk_logs right rfl o h.2.2.2)
      fun _ _ => rfl
  | _, .unary op operand, _, o, h => .map (walk_logs operand rfl o h.2.2) fun _ => rfl
  | _, .suffixed op operand, _, o, h => .map (walk_logs operand rfl o h.2.2) fun _ => rfl
  | _, .call callee args, _, o, h =>
    .map₂ (walk_logs callee rfl o h.2.2.1) (fun _ => walk_logs args rfl o h.2.2.2)
      fun _ _ => rfl
  | _, .index target indices, _, o, h =>
    .map₂ (walk_logs target rfl o h.2.2.1) (fun _ => walk_logs indices rfl o h.2.2.2)
      fun _ _ => rfl
  | _, .member target field safe, _, o, h => .map (walk_logs target rfl o h.2.2) fun _ => rfl
  | _, .list items, _, o, h => .map (walk_logs items rfl o h.2.2) fun _ => rfl
  | _, .tuple items, _, o, h => .map (walk_logs items rfl o h.2.2) fun _ => rfl
  | _, .unit, _, _, _ => .pure rfl
  -- The fields are walked after the path is bound, but they come before the struct value that
  -- uses it.
  | _, .construct (.path global segments span slot) fields, _, o, h =>
    bindPath_logs (f := fun p => do return Node.construct p (← walk o fields)) .type
      h.2.2.1.1.fresh (walk_logs segments rfl o h.2.2.1.2) fun ns slot =>
        .bind (walk_logs fields rfl o h.2.2.2) fun _ => .pure_perm (usesAfter_construct _ _ _ _)
  | _, .blockExpr b, _, o, h => .map (inScope_logs .block (walk_logs b rfl o h.2.2)) fun _ => rfl
  | _, .cond condition positive negative, _, o, h =>
    .bind (walk_logs condition rfl o h.2.2.1) fun _ =>
      .map₂ (inScope_logs .block (walk_logs positive rfl o h.2.2.2.1))
        (fun _ => walk_logs negative rfl o h.2.2.2.2) fun _ _ => rfl
  | _, .loop body, _, o, h => .map (inScope_logs .loop (walk_logs body rfl o h.2.2)) fun _ => rfl
  | _, .select subject entries, _, o, h =>
    .map₂ (walk_logs subject rfl o h.2.2.1) (fun _ => walk_logs entries rfl o h.2.2.2)
      fun _ _ => rfl
  | _, .lambda params result body, _, o, h =>
    inScope_logs .lambda (.bind (walk_logs params rfl o h.2.2.1) fun _ =>
      .map₂ (walk_logs result rfl o h.2.2.2.1) (fun _ => walk_logs body rfl o h.2.2.2.2)
        fun _ _ => rfl)
  | _, .break_ value, _, o, h =>
    .bind (checkInLoop_logs "break" o.span) fun _ =>
      .map (walk_logs value rfl o h.2.2) fun _ => rfl
  | _, .continue_, _, o, _ => .bind (checkInLoop_logs "continue" o.span) fun _ => .pure rfl
  | _, .return_ value, _, o, h =>
    .bind (checkInFunction_logs o.span) fun _ => .map (walk_logs value rfl o h.2.2) fun _ => rfl
  | _, .throw value, _, o, h => .map (walk_logs value rfl o h.2.2) fun _ => rfl
  | _, .tryCatch body handler, _, o, h =>
    .map₂ (inScope_logs .block (walk_logs body rfl o h.2.2.1))
      (fun _ => walk_logs handler rfl o h.2.2.2) fun _ _ => rfl
  | _, .paren inner, _, o, h => .map (walk_logs inner rfl o h.2.2) fun _ => rfl
  | _, .spread inner, _, o, h => .map (walk_logs inner rfl o h.2.2) fun _ => rfl
  | _, .cast inner t safe, _, o, h =>
    .map₂ (walk_logs inner rfl o h.2.2.1) (fun _ => walk_logs t rfl o h.2.2.2)
      fun _ _ => rfl
  | _, .this_, _, o, _ => .bind (checkInType_logs "this" o.span) fun _ => .pure rfl
  | _, .super, _, o, _ => .bind (checkInType_logs "super" o.span) fun _ => .pure rfl
  | _, .errorExpr, _, _, h => absurd h.2.fresh Bool.false_ne_true
  | _, .path global segments span slot, _, o, h => .map (walk_logs segments rfl o h.2) fun _ => rfl
  | _, .segment ident generics, _, o, h => .map (walk_logs generics rfl o h.2) fun _ => rfl
  | _, .argument name? value span, _, o, h => .map (walk_logs value rfl o h.2) fun _ => rfl
  | _, .namedField ident value, _, o, h => .map (walk_logs value rfl o h.2) fun _ => rfl
  | _, .shorthandField value, _, o, h => .map (walk_logs value rfl o h.2) fun _ => rfl
  | _, .baseField value, _, o, h => .map (walk_logs value rfl o h.2) fun _ => rfl
  | _, .block o stmts, _, _, h =>
    .bind (forM_logs declareStmt_logs stmts.toList (stmts.forall_toList h.2)) fun _ =>
      .map (walk_logs stmts rfl o h.2) fun _ => rfl
  | _, .selectEntry o conditions body, _, _, h =>
    inScope_logs .selectEntry (.map₂ (walk_logs conditions rfl o h.2.1)
      (fun _ => walk_logs body rfl o h.2.2) fun _ _ => rfl)
  | _, .lambdaParam id ident t, _, o, h =>
    .bind (walk_logs t rfl o h.2) fun _ =>
      .bind (define_logs (h.1.declares _ rfl)) fun _ => .pure rfl
  | _, .handler id binding body, _, o, h =>
    inScope_logs .handler (.bind (define_logs (h.1.declares _ rfl)) fun _ =>
      .map (inScope_logs .block (walk_logs body rfl o h.2)) fun _ => rfl)
  | _, .type o form, _, _, h => .map (walk_logs form rfl o h) fun _ => rfl
  | _, .pathType (.path global segments span slot), _, o, h =>
    bindPath_logs (f := fun p => pure (Node.pathType p)) .type h.2.2.1.fresh
      (walk_logs segments rfl o h.2.2.2) fun _ _ => .pure rfl
  | _, .tupleType items, _, o, h => .map (walk_logs items rfl o h.2.2) fun _ => rfl
  | _, .funcType params result, _, o, h =>
    .map₂ (walk_logs params rfl o h.2.2.1) (fun _ => walk_logs result rfl o h.2.2.2)
      fun _ _ => rfl
  | _, .arrayType element size, _, o, h =>
    .map₂ (walk_logs element rfl o h.2.2.1) (fun _ => walk_logs size rfl o h.2.2.2)
      fun _ _ => rfl
  | _, .sliceType element, _, o, h => .map (walk_logs element rfl o h.2.2) fun _ => rfl
  | _, .parenType inner, _, o, h => .map (walk_logs inner rfl o h.2.2) fun _ => rfl
  | _, .unitType, _, _, _ => .pure rfl
  | _, .errorType, _, _, h => absurd h.2.fresh Bool.false_ne_true
  | _, .stmt o form, _, _, h => .map (walk_logs form rfl o h) fun _ => rfl
  | _, .exprStmt e, _, o, h => .map (walk_logs e rfl o h.2.2) fun _ => rfl
  | _, .varStmt kind ident t init, _, o, h =>
    .bind (walk_logs t rfl o h.2.2.1) fun _ => .bind (walk_logs init rfl o h.2.2.2) fun _ =>
      .bind (define_logs (h.1.declares _ rfl)) fun _ => .pure rfl
  | _, .forStmt binding source body, _, o, h =>
    .bind (walk_logs source rfl o h.2.2.1) fun _ => inScope_logs .loop
      (.bind (define_logs (h.1.declares _ rfl)) fun _ =>
        .map (inScope_logs .block (walk_logs body rfl o h.2.2.2)) fun _ => rfl)
  | _, .whileStmt condition body, _, o, h =>
    .map₂ (walk_logs condition rfl o h.2.2.1)
      (fun _ => inScope_logs .loop (walk_logs body rfl o h.2.2.2)) fun _ _ => rfl
  | _, .itemStmt i, _, o, h => .map (walk_logs i rfl o h.2.2) fun _ => rfl
  | _, .errorStmt, _, _, h => absurd h.2.fresh Bool.false_ne_true
  | _, .item o attrs modifiers form, _, _, h =>
    .attrs attrs h.2.1 (.map (walk_logs form rfl o h.2.2) fun _ => rfl)
  | _, .funcItem ident generics params result body, _, o, h =>
    inScope_logs .func (.bind (walk_logs generics rfl o h.2.1) fun _ =>
      .bind (walk_logs params rfl o h.2.2.1) fun _ =>
        .map₂ (walk_logs result rfl o h.2.2.2.1) (fun _ => walk_logs body rfl o h.2.2.2.2)
          fun _ _ => rfl)
  | _, .classItem isStruct ident generics supers members, _, o, h =>
    inScope_logs _ (.bind (walk_logs generics rfl o h.2.1) fun _ =>
      .bind (walk_logs supers rfl o h.2.2.1) fun _ =>
        .bind (forM_logs declareItem_logs members.toList (members.forall_toList h.2.2.2)) fun _ =>
          .map (walk_logs members rfl o h.2.2.2) fun _ => rfl)
  | _, .enumItem ident generics entries members, _, o, h =>
    inScope_logs _ (.bind (walk_logs generics rfl o h.2.1) fun _ =>
      .bind (walk_logs entries rfl o h.2.2.1) fun _ =>
        .bind (forM_logs declareItem_logs members.toList (members.forall_toList h.2.2.2)) fun _ =>
          .map (walk_logs members rfl o h.2.2.2) fun _ => rfl)
  | _, .traitItem ident generics supers members, _, o, h =>
    inScope_logs _ (.bind (walk_logs generics rfl o h.2.1) fun _ =>
      .bind (walk_logs supers rfl o h.2.2.1) fun _ =>
        .bind (forM_logs declareItem_logs members.toList (members.forall_toList h.2.2.2)) fun _ =>
          .map (walk_logs members rfl o h.2.2.2) fun _ => rfl)
  | _, .aliasItem ident generics t, _, o, h =>
    inScope_logs _ (.map₂ (walk_logs generics rfl o h.2.1) (fun _ => walk_logs t rfl o h.2.2)
      fun _ _ => rfl)
  | _, .objectItem ident supers members, _, o, h =>
    inScope_logs _ (.bind (walk_logs supers rfl o h.2.1) fun _ =>
      .bind (forM_logs declareItem_logs members.toList (members.forall_toList h.2.2)) fun _ =>
        .map (walk_logs members rfl o h.2.2) fun _ => rfl)
  | _, .fieldItem kind? ident t default, _, o, h =>
    .map₂ (walk_logs t rfl o h.2.1) (fun _ => walk_logs default rfl o h.2.2)
      fun _ _ => rfl
  | _, .initItem params body, _, o, h =>
    inScope_logs .func (.map₂ (walk_logs params rfl o h.2.1)
      (fun _ => inScope_logs .block (walk_logs body rfl o h.2.2)) fun _ _ => rfl)
  | _, .attr ident args span, _, _, h => .attr h (.pure rfl)
  | _, .blockBody b, _, o, h =>
    .map (inScope_logs .block (walk_logs b rfl o h.2)) fun _ => rfl
  | _, .exprBody e, _, o, h => .map (walk_logs e rfl o h.2) fun _ => rfl
  | _, .param o ident t default, _, _, h =>
    .bind (walk_logs t rfl o h.2.1) fun _ => .bind (walk_logs default rfl o h.2.2) fun _ =>
      .bind (define_logs (h.1.declares _ rfl)) fun _ => .pure rfl
  | _, .generic o ident (.typeGeneric bounds), _, _, h =>
    .bind_map (walk_logs bounds rfl o h.2.2) fun _ =>
      .bind (define_logs (h.1.declares _ rfl)) fun _ => .pure rfl
  | _, .generic o ident .lifetimeGeneric, _, _, _ => .pure rfl
  | _, .generic o ident (.constGeneric t default), _, _, h =>
    .bind_map₂ (walk_logs t rfl o h.2.2.1) (fun _ => walk_logs default rfl o h.2.2.2) fun _ _ =>
      .bind (define_logs (h.1.declares _ rfl)) fun _ => .pure rfl
  | _, .typeGeneric bounds, _, o, h => .map (walk_logs bounds rfl o h.2) fun _ => rfl
  | _, .lifetimeGeneric, _, _, _ => .pure rfl
  | _, .constGeneric t default, _, o, h =>
    .map₂ (walk_logs t rfl o h.2.1) (fun _ => walk_logs default rfl o h.2.2)
      fun _ _ => rfl
  | _, .enumEntry o ident form, _, _, h => .map (walk_logs form rfl o h.2) fun _ => rfl
  | _, .bareEntry, _, _, _ => .pure rfl
  | _, .valueEntry value, _, o, h => .map (walk_logs value rfl o h.2) fun _ => rfl
  | _, .tupleEntry types, _, o, h => .map (walk_logs types rfl o h.2) fun _ => rfl
  | _, .structEntry fields, _, o, h => .map (walk_logs fields rfl o h.2) fun _ => rfl
  | _, .entryField ident t, _, o, h => .map (walk_logs t rfl o h.2) fun _ => rfl

end Resolve

end Log

end FrontEnd
