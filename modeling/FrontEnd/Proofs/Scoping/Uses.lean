import FrontEnd.Proofs.Tracing.Traces
import FrontEnd.Proofs.Scoping.Walk
import Mathlib.Data.List.Forall2
import Mathlib.Data.List.Perm.Basic

/-!
# Uses and declarations of names

A name is used by an expression or a type, and declared by a statement, a declaration, a parameter
or a handler. Both are collected from all nodes of a tree. Binding the names of a tree changes
nothing of it but the slots, so the declarations stay the same.
-/

namespace FrontEnd

/-- A use of a name. -/
structure Use where
  /-- The number of the expression or type. -/
  owner : NodeId
  /-- How the name is used. -/
  kind : NameUse
  /-- The name itself; of a path it is the first one. -/
  ident : Ident
  /-- The slot for what the name stands for. -/
  slot : Slot
deriving DecidableEq

/-- What a use enters in the table: the number of its node and what its slot holds, if anything. -/
def Use.entry? (u : Use) : Option (NodeId × Target) := u.slot.target?.map (u.owner, ·)

/-- The declaration of a name. -/
structure Declaration where
  /-- What is declared. -/
  kind : DeclKind
  /-- The number of the declaring node. -/
  id : NodeId
  /-- The declared name. -/
  name : String
deriving DecidableEq

/-- The categories of nodes that are part of one certain node around them. -/
def Category.isHeld : Category → Bool
  | exprForm | typeForm | stmtForm | path => true
  | _ => false

/-- The categories of nodes a module is made of: held nodes do not stand in sequences. -/
def Category.isWhole : Category → Bool
  | many c | maybe c => !c.isHeld && c.isWhole
  | _ => true

namespace Node

/-- The use of the first name of a path. -/
def pathUse? (owner : NodeId) (kind : NameUse) : Path → Option Use
  | path _ (cons (segment ident _) _) _ slot => some ⟨owner, kind, ident, slot⟩
  | path _ nil _ _ => none

/-- The use of a name by a node: single names, paths and struct values among the expressions, and
named types. -/
def use? : {c : Category} → Node c → Option Use
  | _, expr o (name ident slot) => some ⟨o.id, .value, ident, slot⟩
  | _, expr o (pathExpr p) => p.pathUse? o.id .value
  | _, expr o (construct p _) => p.pathUse? o.id .type
  | _, type o (pathType p) => p.pathUse? o.id .type
  | _, _ => none

/-- The declaration a node makes. -/
def declares? : {c : Category} → Node c → Option Declaration
  | _, stmt o (varStmt _ ident _ _) => some ⟨.localVar, o.id, ident.name⟩
  | _, stmt o (forStmt binding _ _) => some ⟨.localVar, o.id, binding.name⟩
  | _, item o _ _ (funcItem ident ..) => some ⟨.func, o.id, ident.name⟩
  | _, item o _ _ (classItem isStruct ident ..) =>
    some ⟨if isStruct then .struct else .class_, o.id, ident.name⟩
  | _, item o _ _ (enumItem ident ..) => some ⟨.enum, o.id, ident.name⟩
  | _, item o _ _ (traitItem ident ..) => some ⟨.trait, o.id, ident.name⟩
  | _, item o _ _ (aliasItem ident ..) => some ⟨.typeAlias, o.id, ident.name⟩
  | _, item o _ _ (objectItem ident ..) => some ⟨.object, o.id, ident.name⟩
  | _, item o _ _ (fieldItem _ ident ..) => some ⟨.field, o.id, ident.name⟩
  | _, lambdaParam id ident _ => some ⟨.param, id, ident.name⟩
  | _, handler id binding _ => some ⟨.localVar, id, binding.name⟩
  | _, param o ident _ _ => some ⟨.param, o.id, ident.name⟩
  | _, generic o ident (typeGeneric _) => some ⟨.typeParam, o.id, ident.name⟩
  | _, generic o ident (constGeneric _ _) => some ⟨.constParam, o.id, ident.name⟩
  | _, _ => none

/-- The arguments of an attribute. -/
def attrArgs? : {c : Category} → Node c → Option (Node (.many .argument))
  | _, attr _ args _ => some args
  | _, _ => none

variable {c : Category}

/-- The uses of names in a tree, behind others. -/
def usesAfter (n : Node c) (uses : List Use) : List Use := n.collect use? uses

/-- The uses of names in a tree. -/
def uses (n : Node c) : List Use := n.usesAfter []

/-- The slots in a tree. -/
def slots (n : Node c) : List Slot := n.collect slot? []

/-- The uses of names in the arguments of the attributes of a tree. -/
def attrUses (n : Node c) : List Use := (n.collect attrArgs? []).flatMap uses

/-- The declarations in a tree. -/
def declarations (n : Node c) : List Declaration := n.collect declares? []

/-- What binding the names of a tree may make of it. -/
inductive Binds : {c : Category} → Node c → Node c → Prop
  | same {c : Category} (n : Node c) : Binds n n
  | bound {c : Category} (n : Node c) (o : Origin) (env : Env) : Binds n (n.bound o env)
  | path (p : Path) (o : Origin) (env : Env) (use : NameUse) :
    Binds p (bindPath env use (p.bound o env))

/-- The parts of a tree are bound one by one. -/
theorem Binds.parts {n n' : Node c} (h : n.Binds n') :
    List.Forall₂ (fun m m' => ∃ (d : Category) (a b : Node d), m = ⟨d, a⟩ ∧ m' = ⟨d, b⟩ ∧ a.Binds b)
      n.parts n'.parts := by
  cases h with
  | same => exact List.forall₂_same.2 fun m _ => ⟨m.1, m.2, m.2, rfl, rfl, .same m.2⟩
  | bound o env =>
    cases n
    all_goals
      repeat first
        | exact .nil
        | refine .cons ⟨_, _, _, rfl, rfl, .bound _ _ _⟩ ?_
        | refine .cons ⟨_, _, _, rfl, rfl, .path _ _ _ _⟩ ?_
        | refine .cons ⟨_, _, _, rfl, rfl, .same _⟩ ?_
  | path p o env use =>
    cases p with
    | path global segments span slot => exact .cons ⟨_, _, _, rfl, rfl, .bound segments o env⟩ .nil

/-- What a tree has of some kind, if it is not in the slots, is the same after binding. -/
theorem Binds.collect {α : Type} {f : {c : Category} → Node c → Option α}
    (hf : ∀ {c : Category} {n n' : Node c}, n.Binds n' → f n' = f n) {n n' : Node c}
    (h : n.Binds n') (before : List α) : n'.collect f before = n.collect f before := by
  refine induction_parts (motive := fun n => ∀ n', n.Binds n' → ∀ before : List α,
    n'.collect f before = n.collect f before) (fun n ih n' h before => ?_) n n' h before
  rw [collect_eq_foldl, collect_eq_foldl, hf h]
  have hparts := h.parts
  congr 1
  generalize n.parts = ms at ih hparts
  generalize n'.parts = ms' at hparts
  induction hparts generalizing before with
  | nil => rfl
  | cons hm _ ihms =>
    obtain ⟨d, a, b, rfl, rfl, hbinds⟩ := hm
    obtain ⟨iha, ihtail⟩ := List.forall_mem_cons.1 ih
    rw [List.foldl_cons, List.foldl_cons, iha b hbinds before]
    exact ihms _ ihtail

/-- What binding keeps at every node holds anywhere in a tree after binding. -/
theorem Binds.forall {P : {c : Category} → Node c → Prop}
    (hP : ∀ {c : Category} {n n' : Node c}, n.Binds n' → P n → P n') {n n' : Node c}
    (h : n.Binds n') (hn : n.Forall P) : n'.Forall P := by
  refine induction_parts (motive := fun n => ∀ n', n.Binds n' → n.Forall P → n'.Forall P)
    (fun n ih n' h hn => ?_) n n' h hn
  refine forall_of_parts (hP h hn.root) ?_
  have hparts := h.parts
  have hforall := hn.parts
  generalize n.parts = ms at ih hparts hforall
  generalize n'.parts = ms' at hparts
  induction hparts with
  | nil => exact List.forall_mem_nil _
  | cons hm _ ihms =>
    obtain ⟨d, a, b, rfl, rfl, hbinds⟩ := hm
    obtain ⟨iha, ihtail⟩ := List.forall_mem_cons.1 ih
    obtain ⟨ha, htail⟩ := List.forall_mem_cons.1 hforall
    exact List.forall_mem_cons.2 ⟨iha b hbinds ha, ihms ihtail htail⟩

/-- Binding keeps the number of a node. -/
theorem Binds.number? {n n' : Node c} (h : n.Binds n') : n'.number? = n.number? := by
  cases h with
  | same => rfl
  | bound o env => cases n <;> rfl
  | path p o env use => cases p; rfl

/-- Binding keeps the declaration a node makes. -/
theorem Binds.declares? {n n' : Node c} (h : n.Binds n') : n'.declares? = n.declares? := by
  cases h with
  | same => rfl
  | bound o env =>
    cases n
    all_goals first
      | rfl
      | (rename_i form; cases form <;> rfl)
  | path p o env use => cases p; rfl

/-- Attributes stay as they are. -/
theorem Binds.attrArgs? {n n' : Node c} (h : n.Binds n') : n'.attrArgs? = n.attrArgs? := by
  cases h with
  | same => rfl
  | bound o env => cases n <;> rfl
  | path p o env use => cases p; rfl

/-- Binding keeps the names of paths. -/
theorem Binds.hasNames {n n' : Node c} (h : n.Binds n') : n'.hasNames = n.hasNames := by
  cases h with
  | same => rfl
  | bound o env =>
    cases n with
    | path global segments span slot => cases segments <;> rfl
    | _ => rfl
  | path p o env use =>
    cases p with
    | path global segments span slot => cases segments <;> rfl

/-- The node that uses a name has a number. -/
theorem number?_of_use? (n : Node c) (u : Use) (h : u ∈ n.use?) : n.number? = some u.owner := by
  have hpath {owner : NodeId} {kind : NameUse} {p : Path} (hp : u ∈ p.pathUse? owner kind) :
      u.owner = owner := by
    unfold pathUse? at hp
    split at hp
    · cases hp; rfl
    · cases hp
  cases n with
  | expr o form =>
    cases form with
    | name => cases h; rfl
    | pathExpr p => exact congrArg some (hpath h).symm
    | construct p => exact congrArg some (hpath h).symm
    | _ => cases h
  | type o form =>
    cases form with
    | pathType p => exact congrArg some (hpath h).symm
    | _ => cases h
  | _ => cases h

/-- The uses in a tree belong to different nodes, in the order of their numbers. -/
theorem owners_sublist (n : Node c) : (n.uses.map Use.owner).Sublist n.numbers :=
  collect_sublist use? number?_of_use? n

/-- Before name resolution a use has an empty slot. -/
theorem slot_of_use? {n : Node c} (h : n.Forall Fresh) {u : Use} (hu : u ∈ n.use?) :
    u.slot = .empty := by
  have hpath {owner : NodeId} {kind : NameUse} {p : Path} (hp : p.Forall Fresh)
      (hu : u ∈ p.pathUse? owner kind) : u.slot = .empty := by
    unfold pathUse? at hu
    split at hu
    · cases hu
      exact (Resolve.names_of_path hp.1).2
    · cases hu
  cases n with
  | expr o form =>
    cases form with
    | name ident slot => cases hu; exact Resolve.slot_of_name h.2
    | pathExpr p => exact hpath h.2.2 hu
    | construct p => exact hpath h.2.2.1 hu
    | _ => cases hu
  | type o form =>
    cases form with
    | pathType p => exact hpath h.2.2 hu
    | _ => cases hu
  | _ => cases hu

/-- Before name resolution all uses have empty slots. -/
theorem slot_of_uses (n : Node c) (h : n.Forall Fresh) : ∀ u ∈ n.uses, u.slot = .empty :=
  forall_collect use? (fun _ hm _ hu => slot_of_use? hm hu) n h

/-- The slot of a form or path that belongs to the node that holds it. -/
def pending? : {c : Category} → Node c → Option Slot
  | _, name _ slot => some slot
  | _, path _ _ _ slot => some slot
  | _, pathExpr p => p.slot?
  | _, construct p _ => p.slot?
  | _, pathType p => p.slot?
  | _, _ => none

/-- A complete node leaves no slot to the node around it. -/
theorem pending?_eq_none (n : Node c) (h : c.isHeld = false) : n.pending? = none := by
  cases n <;> first | rfl | cases h

theorem flatMap_pending?_eq_nil {ms : List ((c : Category) × Node c)}
    (h : ∀ m ∈ ms, m.1.isHeld = false) : ms.flatMap (fun m => m.2.pending?.toList) = [] := by
  rw [List.flatMap_eq_nil_iff]
  intro m hm
  rw [pending?_eq_none m.2 (h m hm)]
  rfl

/-- The parts of nodes a module is made of are such nodes again. -/
theorem isWhole_parts (n : Node c) (hc : c.isWhole = true) : ∀ m ∈ n.parts, m.1.isWhole = true := by
  cases n with
  | cons n ns =>
    have hhead := (Bool.and_eq_true_iff.1 hc).2
    exact List.forall_mem_cons.2 ⟨hhead, List.forall_mem_singleton.2 hc⟩
  | present n => exact List.forall_mem_singleton.2 (Bool.and_eq_true_iff.1 hc).2
  | _ =>
    repeat refine List.forall_mem_cons.2 ⟨rfl, ?_⟩
    exact List.forall_mem_nil _

theorem pathUse?_slot {p : Path} (h : p.hasNames = true) (owner : NodeId) (kind : NameUse) :
    (p.pathUse? owner kind).map Use.slot = p.slot? := by
  cases p with
  | path global segments span slot =>
    cases segments with
    | nil => cases h
    | cons first others => cases first; rfl

/-- A node passes on the slots its parts left to it and its own one, unless it uses a name. -/
theorem pending?_parts (n : Node c) (hc : c.isWhole = true)
    (h : n.Forall fun m => m.hasNames = true) :
    n.parts.flatMap (fun m => m.2.pending?.toList) ++ n.slot?.toList =
      (n.use?.map Use.slot).toList ++ n.pending?.toList := by
  have complete {rest : List Slot} (hparts : ∀ m ∈ n.parts, m.1.isHeld = false) :
      n.parts.flatMap (fun m => m.2.pending?.toList) ++ rest = rest := by
    rw [flatMap_pending?_eq_nil hparts, List.nil_append]
  have used {p : Path} (hp : p.Forall fun m => m.hasNames = true) {owner : NodeId}
      {kind : NameUse} : p.slot?.toList ++ [] ++ [] =
        ((p.pathUse? owner kind).map Use.slot).toList ++ [] := by
    rw [pathUse?_slot hp.root, List.append_nil]
  cases n with
  | cons n ns =>
    have hheld := (Bool.and_eq_true_iff.1 hc).1
    exact complete (List.forall_mem_cons.2 ⟨by simpa using hheld, List.forall_mem_singleton.2 rfl⟩)
  | present n =>
    have hheld := (Bool.and_eq_true_iff.1 hc).1
    exact complete (List.forall_mem_singleton.2 (by simpa using hheld))
  | expr o form =>
    cases form with
    | pathExpr p => exact used h.2.2
    | construct p fields => exact used h.2.2.1
    | _ => rfl
  | type o form =>
    cases form with
    | pathType p => exact used h.2.2
    | _ => rfl
  | stmt o form => cases form <;> rfl
  | construct p fields =>
    have hfields : fields.pending? = none := pending?_eq_none fields rfl
    change p.pending?.toList ++ (fields.pending?.toList ++ []) ++ [] = [] ++ p.slot?.toList
    rw [hfields]
    cases p
    rfl
  | pathExpr p => cases p; rfl
  | pathType p => cases p; rfl
  | _ =>
    refine complete ?_
    repeat refine List.forall_mem_cons.2 ⟨rfl, ?_⟩
    exact List.forall_mem_nil _

/-- Every slot in a tree belongs to exactly one use of a name, or is left to the node around. -/
theorem slots_perm (n : Node c) (hc : c.isWhole = true) (h : n.Forall fun m => m.hasNames = true) :
    n.slots.Perm (n.uses.map Use.slot ++ n.pending?.toList) := by
  refine induction_parts (motive := fun {c} n => c.isWhole = true →
    (n.Forall fun m => m.hasNames = true) → n.slots.Perm (n.uses.map Use.slot ++ n.pending?.toList))
    (fun {c} n ih hc h => ?_) n hc h
  have hslots : n.slots = n.parts.flatMap (fun m => m.2.slots) ++ n.slot?.toList :=
    collect_nil slot? n
  have huses : n.uses = n.parts.flatMap (fun m => m.2.uses) ++ n.use?.toList := collect_nil use? n
  have hparts : (n.parts.flatMap fun m => m.2.slots).Perm
      (n.parts.flatMap fun m => m.2.uses.map Use.slot ++ m.2.pending?.toList) :=
    List.Perm.flatMap_left _ fun m hm => ih m hm (n.isWhole_parts hc m hm) (h.parts m hm)
  -- The slots that the parts leave over are used by the node itself or left over again.
  rw [hslots, huses, List.map_append, List.map_flatMap, List.append_assoc, ← Option.toList_map,
    ← pending?_parts n hc h, ← List.append_assoc]
  exact (hparts.trans (List.flatMap_append_perm _ _ _).symm).append_right _

/-- The uses in a sequence are those in its nodes. -/
theorem uses_ofList (ns : List (Node c)) : (ofList ns).uses = ns.flatMap uses :=
  collect_ofList use? (fun ns => by cases ns <;> rfl) ns

/-- The slots in a sequence are those in its nodes. -/
theorem slots_ofList (ns : List (Node c)) : (ofList ns).slots = ns.flatMap slots :=
  collect_ofList slot? (fun ns => by cases ns <;> rfl) ns

/-- The declarations in a sequence are those in its nodes. -/
theorem declarations_ofList (ns : List (Node c)) :
    (ofList ns).declarations = ns.flatMap declarations :=
  collect_ofList declares? (fun ns => by cases ns <;> rfl) ns

/-- The arguments of attributes in a sequence are those in its nodes. -/
theorem attrUses_ofList (ns : List (Node c)) : (ofList ns).attrUses = ns.flatMap attrUses := by
  unfold attrUses
  rw [collect_ofList attrArgs? (fun ns => by cases ns <;> rfl) ns, List.flatMap_assoc]

end Node

end FrontEnd
