import FrontEnd.Proofs.Tracing.Numbers
import FrontEnd.Proofs.Scoping.Log
import FrontEnd.Proofs.Scoping.Modules
import Mathlib.Data.List.Nodup

/-!
# The table of a module agrees with its tree

Name resolution fills the slots of a tree and returns a table beside it. For a module that is read
without errors both say the same: the numbers of the nodes are all different, so there is exactly
one entry for each slot that is filled. A name that stands for nothing is reported, unless it is
used in an argument of an attribute, where nothing is resolved.
-/

namespace FrontEnd

namespace Node

variable {c : Category}

/-- A tree in which nothing is missing is ready for the walk, which knows all its declarations. -/
theorem forall_ready (n : Node c) (h : n.Forall Fresh) :
    n.Forall (Ready (· ∈ n.declarations) (· ∈ n.attrUses)) := by
  refine ((h.and (forall_mem_collect declares? n)).and (forall_mem_collect attrArgs? n)).imp ?_
  rintro d m ⟨⟨hfresh, hdeclares⟩, hargs⟩
  exact ⟨hfresh, hdeclares, fun args ha u hu => List.mem_flatMap.2 ⟨args, hargs args ha, hu⟩⟩

/-- The arguments of attributes in a tree in which nothing is missing. -/
theorem fresh_attrArgs (n : Node c) (h : n.Forall Fresh) :
    ∀ args ∈ n.collect attrArgs? [], args.Forall Fresh := by
  refine forall_collect attrArgs? (fun m hm args hargs => ?_) n h
  cases m with
  | attr ident args' span =>
    cases hargs
    exact hm.2
  | _ => cases hargs

/-- The uses in them have empty slots. -/
theorem slot_of_attrUses (n : Node c) (h : n.Forall Fresh) : ∀ u ∈ n.attrUses, u.slot = .empty := by
  intro u hu
  obtain ⟨args, hargs, hu⟩ := List.mem_flatMap.1 hu
  exact slot_of_uses args (n.fresh_attrArgs h args hargs) u hu

end Node

namespace Resolve

variable {declares : Declaration → Prop} {silent : Use → Prop} {uses : List Use}

/-- The statements of a module are walked one after the other. -/
theorem walkStmts_logs (stmts : List Stmt)
    (h : ∀ s ∈ stmts, s.Forall (Node.Ready declares silent)) :
    Logs declares silent uses (walkStmts stmts) fun stmts =>
      (Node.ofList stmts).usesAfter uses := by
  induction stmts generalizing uses with
  | nil => exact .pure rfl
  | cons s stmts ih =>
    obtain ⟨hs, hstmts⟩ := List.forall_mem_cons.1 h
    exact .map₂ (walk_logs s rfl default hs) (fun _ => ih hstmts) fun _ _ => rfl

/-- What is written down for a whole module. -/
theorem module_logs (stmts : List Stmt)
    (h : ∀ s ∈ stmts, s.Forall (Node.Ready declares silent)) :
    Logs declares silent [] (do stmts.forM declareStmt; walkStmts stmts) fun stmts =>
      (Node.ofList stmts).uses :=
  .bind (forM_logs declareStmt_logs stmts h) fun _ => walkStmts_logs stmts h

end Resolve

/-- The outcome of name resolution comes from a state that agrees on all uses in the module. -/
theorem resolve_logged {declares : Declaration → Prop} {silent : Use → Prop} {stmts : List Stmt}
    (h : ∀ s ∈ stmts, s.Forall (Node.Ready declares silent)) {r : Resolved}
    (hr : resolve stmts = .ok r) : ∃ s, Logged declares silent (r.stmts.flatMap Node.uses) s ∧
      r.resolutions = s.table.mergeSort (fun a b => a.1.index ≤ b.1.index) ∧
      r.errors = s.errors := by
  unfold resolve at hr
  dsimp only at hr
  split at hr
  · cases hr
  · rename_i filled s hrun
    have hstart : Logged declares silent [] Resolve.start :=
      ⟨ScopeStack.known_start, .refl _, List.forall_mem_nil _, List.forall_mem_nil _⟩
    have hlogged : Logged declares silent (Node.ofList filled).uses s :=
      Resolve.module_logs stmts h Resolve.start filled s hstart hrun
    rw [Node.uses_ofList] at hlogged
    cases hroot : s.scopes.intoModule with
    | error d => rw [hroot] at hr; cases hr
    | ok root =>
      rw [hroot] at hr
      cases hr
      exact ⟨s, hlogged, rfl, rfl⟩

/-- Binding the names of a module changes only its slots. -/
theorem binds_boundModule (stmts : List Stmt) :
    (Node.ofList stmts).Binds (.ofList (boundModule stmts)) := by
  unfold boundModule
  rw [Node.ofList_toList]
  exact .bound _ _ _

/-- Name resolution of a module in which nothing is missing keeps numbers, declarations and
attributes, and what it writes down agrees with the tree. -/
theorem resolve_agrees (stmts : List Stmt) (h : ∀ s ∈ stmts, s.Forall Node.Fresh) :
    ∃ r s, resolve stmts = .ok r ∧
      r.stmts.flatMap Node.numbers = stmts.flatMap Node.numbers ∧
      (r.stmts.flatMap Node.slots).Perm ((r.stmts.flatMap Node.uses).map Use.slot) ∧
      (∀ u ∈ r.stmts.flatMap Node.attrUses, u.slot = .empty) ∧
      Logged (· ∈ r.stmts.flatMap Node.declarations) (· ∈ r.stmts.flatMap Node.attrUses)
        (r.stmts.flatMap Node.uses) s ∧
      r.resolutions = s.table.mergeSort (fun a b => a.1.index ≤ b.1.index) ∧
      r.errors = s.errors := by
  obtain ⟨r, hr, hstmts⟩ := resolve_bound stmts h
  -- The walk knows what the module declares before it is bound, the statement is about the module
  -- after that; binding changes neither declarations nor attributes.
  have hbinds := binds_boundModule stmts
  rw [← hstmts] at hbinds
  have hfresh := (Node.forall_fresh_ofList stmts).2 h
  have hnumbers : (Node.ofList r.stmts).numbers = (Node.ofList stmts).numbers :=
    Node.Binds.collect Node.Binds.number? hbinds []
  have hdeclarations : (Node.ofList r.stmts).declarations = (Node.ofList stmts).declarations :=
    Node.Binds.collect Node.Binds.declares? hbinds []
  have hattrUses : (Node.ofList r.stmts).attrUses = (Node.ofList stmts).attrUses :=
    congrArg (List.flatMap Node.uses) (Node.Binds.collect Node.Binds.attrArgs? hbinds [])
  have hnames : (Node.ofList r.stmts).Forall fun m => m.hasNames = true :=
    hbinds.forall (fun hb hm => hb.hasNames.trans hm)
      (hfresh.imp fun n hn => (n.fresh_iff.1 hn).2.1)
  have hslots := (Node.ofList r.stmts).slots_perm rfl hnames
  rw [Node.pending?_eq_none _ rfl, Option.toList_none, List.append_nil] at hslots
  have hempty := (Node.ofList stmts).slot_of_attrUses hfresh
  have hready := (Node.ofList stmts).forall_ready hfresh
  rw [← hdeclarations, ← hattrUses] at hready
  rw [← hattrUses] at hempty
  obtain ⟨s, hlogged, hrest⟩ := resolve_logged
    (Node.toList_ofList stmts ▸ Node.forall_toList _ hready) hr
  simp only [Node.numbers_ofList, Node.declarations_ofList, Node.attrUses_ofList,
    Node.slots_ofList, Node.uses_ofList] at hnumbers hslots hempty hlogged
  exact ⟨r, s, hr, hnumbers, hslots, hempty, hlogged, hrest⟩

/-- Entries sorted by numbers that are all different have only one order. -/
theorem mergeSort_eq_of_increasing {table entries : List (NodeId × Target)}
    (hperm : table.Perm entries) (h : Node.Increasing (entries.map Prod.fst)) :
    table.mergeSort (fun a b => a.1.index ≤ b.1.index) = entries := by
  have hperm' := (List.mergeSort_perm table fun a b => a.1.index ≤ b.1.index).trans hperm
  refine @List.Perm.eq_of_pairwise _ (fun a b => decide (a.1.index ≤ b.1.index) = true) _ _ ?_ ?_ ?_
    hperm'
  · intro a b ha hb hab hba
    have hid : a.1 = b.1 := congrArg NodeId.mk
      (Nat.le_antisymm (of_decide_eq_true hab) (of_decide_eq_true hba))
    exact List.inj_on_of_nodup_map h.nodup (hperm'.mem_iff.1 ha) hb hid
  · refine List.pairwise_mergeSort (fun a b c hab hbc => ?_) (fun a b => ?_) table
    · exact decide_eq_true (Nat.le_trans (of_decide_eq_true hab) (of_decide_eq_true hbc))
    · simpa using Nat.le_total a.1.index b.1.index
  · exact (List.pairwise_map.1 h).imp fun hlt => decide_eq_true (Nat.le_of_lt hlt)

/-- The entries for the uses in a tree have numbers of its nodes, in their order. -/
theorem entries_sublist (stmts : List Stmt) :
    (((stmts.flatMap Node.uses).filterMap Use.entry?).map Prod.fst).Sublist
      (stmts.flatMap Node.numbers) := by
  rw [← Node.numbers_ofList, ← Node.uses_ofList]
  refine List.Sublist.trans ?_ (Node.owners_sublist _)
  -- A use whose slot is empty has no entry, so the numbers of some uses are left out.
  induction (Node.ofList stmts).uses with
  | nil => exact .slnil
  | cons u uses ih =>
    rw [List.filterMap_cons, List.map_cons]
    unfold Use.entry? at ih ⊢
    cases u.slot.target? with
    | none => exact ih.cons _
    | some target => exact ih.cons_cons _

/-- So they increase where the numbers do. -/
theorem increasing_entries {stmts : List Stmt}
    (h : Node.Increasing (stmts.flatMap Node.numbers)) :
    Node.Increasing (((stmts.flatMap Node.uses).filterMap Use.entry?).map Prod.fst) :=
  h.sublist (entries_sublist stmts)

/-- The table of a module that is read without errors has exactly one entry for each node whose slot
is filled, by the number of the node and with what the slot holds. What is in a slot has the name
that is used: a declaration of the same tree declares it with that kind, and what the language
provides carries it. -/
theorem resolve_table {file : FileId} {tokens : List Token} {p : Parsed}
    (h : parse file tokens = .ok p) (free : Diagnostic.anyError p.diagnostics = false) :
    ∃ r, resolve p.stmts = .ok r ∧
      (r.stmts.flatMap Node.slots).Perm ((r.stmts.flatMap Node.uses).map Use.slot) ∧
      r.resolutions = (r.stmts.flatMap Node.uses).filterMap Use.entry? ∧
      (r.resolutions.map Prod.fst).Nodup ∧
      ∀ u ∈ r.stmts.flatMap Node.uses, ∀ target ∈ u.slot.target?,
        target.Fits (· ∈ r.stmts.flatMap Node.declarations) u.ident.name := by
  obtain ⟨r, s, hr, hnumbers, hslots, -, hlogged, htable, -⟩ :=
    resolve_agrees p.stmts (fresh_of_parse h free)
  have hincreasing := increasing_entries (hnumbers ▸ increasing_of_parse h)
  have hresolutions := htable.trans (mergeSort_eq_of_increasing hlogged.table hincreasing)
  exact ⟨r, hr, hslots, hresolutions, hresolutions ▸ hincreasing.nodup, hlogged.fits⟩

/-- A function and its parameter, a primitive type and a builtin function in one text. -/
theorem resolve_table_call : ∃ lexed p r,
    lex ⟨0⟩ "func f(x: int) => x\nprint(f(1))" = .ok lexed ∧ parse ⟨0⟩ lexed.tokens = .ok p ∧
      resolve p.stmts = .ok r ∧
      r.resolutions = (r.stmts.flatMap Node.uses).filterMap Use.entry? ∧
      (r.resolutions.map Prod.fst).Nodup ∧
      ∀ u ∈ r.stmts.flatMap Node.uses, ∀ target ∈ u.slot.target?,
        target.Fits (· ∈ r.stmts.flatMap Node.declarations) u.ident.name := by
  obtain ⟨lexed, p, hlex, hparse, free⟩ :=
    exists_of_readsClean ⟨0⟩ "func f(x: int) => x\nprint(f(1))" (by decide +kernel)
  obtain ⟨r, hr, -, htable⟩ := resolve_table hparse free
  exact ⟨lexed, p, r, hlex, hparse, hr, htable⟩

/-- In a module that is read without errors, every slot outside the arguments of attributes is
filled or its name is reported, and without errors all of them are filled. The slots in arguments
of attributes stay empty. -/
theorem resolve_reports {file : FileId} {tokens : List Token} {p : Parsed}
    (h : parse file tokens = .ok p) (free : Diagnostic.anyError p.diagnostics = false) :
    ∃ r, resolve p.stmts = .ok r ∧
      (r.stmts.flatMap Node.slots).Perm ((r.stmts.flatMap Node.uses).map Use.slot) ∧
      (∀ u ∈ r.stmts.flatMap Node.uses, u ∉ r.stmts.flatMap Node.attrUses →
        u.slot.target?.isSome = true ∨ u.Reported r.errors) ∧
      (r.errors = [] → ∀ u ∈ r.stmts.flatMap Node.uses, u ∉ r.stmts.flatMap Node.attrUses →
        u.slot.target?.isSome = true) ∧
      ∀ u ∈ r.stmts.flatMap Node.attrUses, u.slot = .empty := by
  obtain ⟨r, s, hr, -, hslots, hempty, hlogged, -, herrors⟩ :=
    resolve_agrees p.stmts (fresh_of_parse h free)
  have hreported : ∀ u ∈ r.stmts.flatMap Node.uses, u ∉ r.stmts.flatMap Node.attrUses →
      u.slot.target?.isSome = true ∨ u.Reported r.errors := by
    intro u hu hsilent
    cases hslot : u.slot.target? with
    | some target => exact Or.inl rfl
    | none => exact Or.inr (herrors ▸ (hlogged.reported u hu hslot).resolve_left hsilent)
  refine ⟨r, hr, hslots, hreported, fun hnone u hu hsilent => ?_, hempty⟩
  refine (hreported u hu hsilent).resolve_right ?_
  rintro ⟨similar?, hmem⟩
  rw [hnone] at hmem
  cases hmem

/-- A variable, and a name that is not declared. -/
theorem resolve_reports_undeclared : ∃ lexed p r,
    lex ⟨0⟩ "val x = 1\nval y = x + z" = .ok lexed ∧ parse ⟨0⟩ lexed.tokens = .ok p ∧
      resolve p.stmts = .ok r ∧
      ∀ u ∈ r.stmts.flatMap Node.uses, u ∉ r.stmts.flatMap Node.attrUses →
        u.slot.target?.isSome = true ∨ u.Reported r.errors := by
  obtain ⟨lexed, p, hlex, hparse, free⟩ :=
    exists_of_readsClean ⟨0⟩ "val x = 1\nval y = x + z" (by decide +kernel)
  obtain ⟨r, hr, -, hreported, -⟩ := resolve_reports hparse free
  exact ⟨lexed, p, r, hlex, hparse, hr, hreported⟩

/-- Whether a text is read without errors, and what its names are resolved to passes a test. -/
def resolvesTo (file : FileId) (text : String) (test : Resolved → Bool) : Bool :=
  readsTo file text fun _ p =>
    !Diagnostic.anyError p.diagnostics &&
      match resolve p.stmts with
      | .error _ => false
      | .ok r => test r

theorem exists_of_resolvesTo {file : FileId} {text : String} {test : Resolved → Bool}
    (h : resolvesTo file text test = true) : ∃ lexed p r, lex file text = .ok lexed ∧
      parse file lexed.tokens = .ok p ∧ Diagnostic.anyError p.diagnostics = false ∧
      resolve p.stmts = .ok r ∧ test r = true := by
  obtain ⟨lexed, p, hlex, hparse, htest⟩ := exists_of_readsTo h
  obtain ⟨hfree, hresolve⟩ := Bool.and_eq_true_iff.1 htest
  split at hresolve
  · cases hresolve
  · rename_i r hr
    exact ⟨lexed, p, r, hlex, hparse, by simpa using hfree, hr, hresolve⟩

/-- A name that is not declared, in an argument of an attribute: its slot is empty, and there is no
error at all. -/
theorem resolve_silent : ∃ lexed p r,
    lex ⟨0⟩ "@deprecated(undefined_reason) func f() \x7b\x7d" = .ok lexed ∧
      parse ⟨0⟩ lexed.tokens = .ok p ∧ Diagnostic.anyError p.diagnostics = false ∧
      resolve p.stmts = .ok r ∧ r.errors = [] ∧
      ∃ u ∈ r.stmts.flatMap Node.uses, u.slot.target? = none := by
  obtain ⟨lexed, p, r, hlex, hparse, free, hr, htest⟩ := exists_of_resolvesTo
    (show resolvesTo ⟨0⟩ "@deprecated(undefined_reason) func f() \x7b\x7d" (fun r =>
      r.errors.isEmpty && (r.stmts.flatMap Node.uses).any fun u => u.slot.target?.isNone) = true by
        decide +kernel)
  obtain ⟨herrors, huse⟩ := Bool.and_eq_true_iff.1 htest
  obtain ⟨u, hu, hslot⟩ := List.any_eq_true.1 huse
  exact ⟨lexed, p, r, hlex, hparse, free, hr, List.isEmpty_iff.1 herrors, u, hu,
    Option.isNone_iff_eq_none.1 hslot⟩

end FrontEnd
