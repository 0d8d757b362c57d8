import FrontEnd.Proofs.Scoping.Reordering
import FrontEnd.Proofs.Scoping.Table

/-!
# Declarations in another order

Two declarations that stand side by side may change places if they declare different names, or names
in different namespaces: all declarations of a block are declared before its statements are walked,
so neither finds anything else than before. The table and the names of the module stay as they are,
and the same errors are reported, perhaps in another order.
-/

namespace FrontEnd

/-- Whether a statement is a declaration. -/
def Node.isItem : Stmt → Bool
  | .stmt _ (.itemStmt _) => true
  | _ => false

/-- Two statements are declarations and do not declare one name in one namespace. -/
def Apart (a b : Stmt) : Prop :=
  (a.isItem = true ∧ b.isItem = true) ∧
    ∀ d ∈ a.hoists, ∀ d' ∈ b.hoists, d.space ≠ d'.space ∨ d.ident.name ≠ d'.ident.name

instance decidableApart (a b : Stmt) : Decidable (Apart a b) :=
  inferInstanceAs (Decidable (_ ∧ _))

/-- Statements in another order: neighbouring declarations that are apart have changed places, any
number of times. -/
inductive Swaps : List Stmt → List Stmt → Prop
  | refl (stmts : List Stmt) : Swaps stmts stmts
  | swap (front : List Stmt) {a b : Stmt} (back : List Stmt) (apart : Apart a b) :
    Swaps (front ++ a :: b :: back) (front ++ b :: a :: back)
  | trans {stmts stmts' stmts'' : List Stmt} (h : Swaps stmts stmts') (h' : Swaps stmts' stmts'') :
    Swaps stmts stmts''

namespace Resolve

/-- A walk is like itself. -/
theorem walk_self {c : Category} (n : Node c) (o : Origin) :
    Parallel (!c.declares) (walk o n) (walk o n) := by
  have h := walk_parallel (f := id) (fun stmts stmts' h => by rwa [id, Node.ofList_toList]) n o
  rwa [Node.rearrange_id] at h

/-- A name may be declared before other names or after them. -/
theorem declare_exchange_many {d : Registration} {ds : List Registration}
    (h : ∀ d' ∈ ds, d.space ≠ d'.space ∨ d.ident.name ≠ d'.ident.name) :
    Parallel false (do d.declare; ds.forM Registration.declare)
      (do ds.forM Registration.declare; d.declare) := by
  induction ds with
  | nil =>
    change Parallel false (d.declare >>= fun _ => pure ()) (pure () >>= fun _ => d.declare)
    rw [bind_pure_unit, pure_bind]
    exact declare_parallel d
  | cons d' ds ih =>
    obtain ⟨hd', hds⟩ := List.forall_mem_cons.1 h
    have hfirst := (declare_exchange hd').bind fun _ _ => declares_parallel ds
    have hothers := (declare_parallel d').bind fun _ _ => ih hds
    rw [bind_assoc, bind_assoc] at hfirst
    rw [List.forM_eq_forM, List.forM_cons, bind_assoc]
    exact hfirst.trans hothers

/-- Names that are apart from others may be declared before them or after them. -/
theorem declares_exchange {ds ds' : List Registration}
    (h : ∀ d ∈ ds, ∀ d' ∈ ds', d.space ≠ d'.space ∨ d.ident.name ≠ d'.ident.name) :
    Parallel false (do ds.forM Registration.declare; ds'.forM Registration.declare)
      (do ds'.forM Registration.declare; ds.forM Registration.declare) := by
  induction ds with
  | nil =>
    change Parallel false (pure () >>= fun _ => ds'.forM Registration.declare)
      (ds'.forM Registration.declare >>= fun _ => pure ())
    rw [bind_pure_unit, pure_bind]
    exact declares_parallel ds'
  | cons d ds ih =>
    obtain ⟨hd, hds⟩ := List.forall_mem_cons.1 h
    have hothers := (declare_parallel d).bind fun _ _ => ih hds
    have hfirst := (declare_exchange_many hd).bind fun _ _ => declares_parallel ds
    rw [bind_assoc, bind_assoc] at hfirst
    rw [List.forM_eq_forM, List.forM_cons, bind_assoc]
    exact hothers.trans hfirst

/-- Declarations that are apart may be declared in any order. -/
theorem declareStmt_exchange {a b : Stmt} (h : Apart a b) :
    Parallel false (do declareStmt a; declareStmt b) (do declareStmt b; declareStmt a) := by
  rw [declareStmt_eq, declareStmt_eq]
  exact declares_exchange h.2

/-- The walk over a declaration leaves the scopes around it as they are. -/
theorem walk_quiet {s : Stmt} (h : s.isItem = true) (o : Origin) :
    Parallel true (walk o s) (walk o s) := by
  cases s with
  | stmt o' form =>
    cases form with
    | itemStmt i =>
      cases i with
      | item p attrs modifiers form => exact .map (.map (.map (walk_self form p)))
    | _ => cases h

/-- The declarations among some statements are declared as they were. -/
theorem forM_parallel (stmts : List Stmt) :
    Parallel false (stmts.forM declareStmt) (stmts.forM declareStmt) := by
  rw [forM_declares declareStmt_eq]
  exact declares_parallel _

/-- Statements whose order was changed are declared. -/
theorem declare_swaps {stmts stmts' : List Stmt} (h : Swaps stmts stmts') :
    Parallel false (stmts.forM declareStmt) (stmts'.forM declareStmt) := by
  induction h with
  | refl stmts => exact forM_parallel stmts
  | trans _ _ ih ih' => exact ih.trans ih'
  | @swap front a b back apart =>
    induction front with
    | nil =>
      change Parallel false (do declareStmt a; declareStmt b; back.forM declareStmt)
        (do declareStmt b; declareStmt a; back.forM declareStmt)
      have hexchange := (declareStmt_exchange apart).bind fun _ _ => forM_parallel back
      rwa [bind_assoc, bind_assoc] at hexchange
    | cons s front ih =>
      have hs : Parallel false (declareStmt s) (declareStmt s) := by
        rw [declareStmt_eq]
        exact declares_parallel s.hoists
      exact .bind hs fun _ _ => ih

/-- Statements whose order was changed are walked. -/
theorem walk_swaps {stmts stmts' : List Stmt} (h : Swaps stmts stmts') (o : Origin) :
    Parallel false (walk o (.ofList stmts)) (walk o (.ofList stmts')) := by
  induction h with
  | refl stmts => exact walk_self _ o
  | trans _ _ ih ih' => exact ih.trans ih'
  | @swap front a b back apart =>
    induction front with
    | nil =>
      obtain ⟨⟨ha, hb⟩, -⟩ := apart
      have hback := (walk_self (Node.ofList back) o).loose
      change Parallel false
        (walk o a >>= fun a => (walk o b >>= fun b => _) >>= fun bs => pure (Node.cons a bs))
        (walk o b >>= fun b => (walk o a >>= fun a => _) >>= fun as => pure (Node.cons b as))
      simp only [bind_assoc, pure_bind]
      exact .exchange (walk_quiet ha o) (walk_quiet hb o) fun _ _ _ _ => .map hback
    | cons s front ih => exact .map₂ (walk_self s o) ih

/-- Both for the statements of one block. -/
theorem walkBody_swaps {stmts stmts' : List Stmt} (h : Swaps stmts stmts') :
    Parallel false (walkBody (.ofList stmts)) (walkBody (.ofList stmts')) := by
  unfold walkBody
  rw [Node.toList_ofList, Node.toList_ofList]
  exact .bind (declare_swaps h) fun _ _ => walk_swaps h default

/-- What is done with the statements of a module is done with those of a block too. -/
theorem walkBody_ofList (stmts : List Stmt) : walkBody (.ofList stmts) =
    (do stmts.forM declareStmt; walkStmts stmts) >>= fun filled => pure (.ofList filled) := by
  have hwalk : walk default (.ofList stmts) = (do return Node.ofList (← walkStmts stmts)) := by
    induction stmts with
    | nil => rfl
    | cons s stmts ih =>
      change (do return Node.cons (← walk default s) (← walk default (.ofList stmts))) = _
      rw [ih, walkStmts]
      simp only [bind_assoc, pure_bind]
      rfl
  unfold walkBody
  rw [Node.toList_ofList, hwalk, bind_assoc]

/-- A module in which the order of declarations was changed is walked as it was before. -/
theorem module_parallel {f : List Stmt → List Stmt} (hf : ∀ stmts, Swaps stmts (f stmts))
    (stmts : List Stmt) : Parallel false (do stmts.forM declareStmt; walkStmts stmts) (do
      (f (stmts.map (Node.rearrange f))).forM declareStmt
      walkStmts (f (stmts.map (Node.rearrange f)))) := by
  have hblock (stmts stmts' : Node (.many .stmt))
      (h : Parallel false (walkBody stmts) (walkBody stmts')) :
      Parallel false (walkBody stmts) (walkBody (.ofList (f stmts'.toList))) := by
    have hswaps := walkBody_swaps (hf stmts'.toList)
    rw [Node.ofList_toList] at hswaps
    exact h.trans hswaps
  have hwalk := walk_parallel hblock (.block default (.ofList stmts)) default
  unfold Node.rearrange at hwalk
  rw [walk_block, walk_block, Node.toList_rearrange, Node.toList_ofList, walkBody_ofList,
    walkBody_ofList] at hwalk
  exact hwalk.of_map.of_map

end Resolve

/-- In the table of a module that is read without errors no node has two entries. -/
theorem nodup_resolutions {stmts : List Stmt} (fresh : ∀ s ∈ stmts, s.Forall Node.Fresh)
    (nodup : (stmts.flatMap Node.numbers).Nodup) {r : Resolved} (hr : resolve stmts = .ok r) :
    (r.resolutions.map Prod.fst).Nodup := by
  obtain ⟨r', s, hr', hnumbers, -, -, hlogged, htable, -⟩ := resolve_agrees stmts fresh
  obtain rfl : r = r' := Except.ok.inj (hr.symm.trans hr')
  have hperm := (List.mergeSort_perm s.table fun a b => a.1.index ≤ b.1.index).trans hlogged.table
  rw [htable, (hperm.map Prod.fst).nodup_iff]
  exact (hnumbers ▸ nodup).sublist (entries_sublist r.stmts)

/-- A table in which no node has two entries is sorted to the same, whatever its order was. -/
theorem sorted_eq_of_perm {table table' : List (NodeId × Target)} (h : table.Perm table')
    (nodup : (table.map Prod.fst).Nodup) :
    table.mergeSort (fun a b => a.1.index ≤ b.1.index) =
      table'.mergeSort (fun a b => a.1.index ≤ b.1.index) := by
  refine mergeSort_eq_of_perm h (fun a b c hab hbc => ?_) (fun a b => ?_)
    fun a ha b hb hab hba => ?_
  · exact decide_eq_true (Nat.le_trans (of_decide_eq_true hab) (of_decide_eq_true hbc))
  · simpa using Nat.le_total a.1.index b.1.index
  · have hid : a.1 = b.1 := congrArg NodeId.mk
      (Nat.le_antisymm (of_decide_eq_true hab) (of_decide_eq_true hba))
    exact List.inj_on_of_nodup_map nodup ha hb hid

/-- The outcome of name resolution is read off the state behind the walk. -/
theorem exists_of_resolve {stmts : List Stmt} {r : Resolved} (h : resolve stmts = .ok r) :
    ∃ s, (do stmts.forM Resolve.declareStmt; Resolve.walkStmts stmts) Resolve.start =
        .ok r.stmts s ∧
      s.scopes.inner = [] ∧ r.root = s.scopes.root ∧
      r.resolutions = s.table.mergeSort (fun a b => a.1.index ≤ b.1.index) ∧
      r.errors = s.errors := by
  unfold resolve at h
  dsimp only at h
  split at h
  · cases h
  · rename_i filled s hrun
    unfold ScopeStack.intoModule at h
    split at h
    · rename_i hinner
      cases h
      exact ⟨s, hrun, List.isEmpty_iff.1 hinner, rfl, rfl, rfl⟩
    · cases h

/-- A walk that leaves all constructs again has an outcome. -/
theorem resolve_of_walk {stmts filled : List Stmt} {s : ResolveState}
    (hrun : (do stmts.forM Resolve.declareStmt; Resolve.walkStmts stmts) Resolve.start =
      .ok filled s) (hinner : s.scopes.inner = []) :
    resolve stmts = .ok ⟨filled, s.scopes.root,
      s.table.mergeSort (fun a b => a.1.index ≤ b.1.index), s.errors⟩ := by
  have hroot : s.scopes.intoModule = .ok s.scopes.root := by
    simp [ScopeStack.intoModule, hinner]
  unfold resolve
  dsimp only
  rw [hrun]
  dsimp only
  rw [hroot]
  rfl

/-- The order of declarations does not matter: in a module in which nothing is missing and no two
nodes have one number, the statements at the top level and those of every block, inner blocks first,
are put in an order that comes from neighbouring declarations which are apart changing places. Then
the table is the same, the module has the same names with the same bindings, and the same errors are
reported, perhaps in another order. -/
theorem resolve_rearranged (f : List Stmt → List Stmt) (hf : ∀ stmts, Swaps stmts (f stmts))
    {stmts : List Stmt} (fresh : ∀ s ∈ stmts, s.Forall Node.Fresh)
    (nodup : (stmts.flatMap Node.numbers).Nodup) :
    ∃ r r', resolve stmts = .ok r ∧ resolve (f (stmts.map (Node.rearrange f))) = .ok r' ∧
      r'.resolutions = r.resolutions ∧
      r.root.Alike r'.root ∧
      (∀ space, r'.root.get? space = r.root.get? space ∧
        r'.root.sorted space = r.root.sorted space) ∧
      r'.diagnostics.Perm r.diagnostics := by
  obtain ⟨r, hr, -⟩ := resolve_bound stmts fresh
  have hkeys := nodup_resolutions fresh nodup hr
  obtain ⟨s, hrun, hinner, hroot, hresolutions, herrors⟩ := exists_of_resolve hr
  obtain ⟨filled', s', hrun', alike, -, -, htable, herrors'⟩ := Resolve.module_parallel hf stmts
    Resolve.start Resolve.start r.stmts s ScopeStack.alike_start hrun
  have hinner' : s'.scopes.inner = [] :=
    List.forall₂_nil_left_iff.1 (hinner ▸ alike.inner)
  have hr' := resolve_of_walk hrun' hinner'
  refine ⟨r, _, hr, hr', ?_, hroot ▸ alike.root, fun space => ?_, ?_⟩
  · rw [hresolutions] at hkeys ⊢
    have hsorted := List.mergeSort_perm s.table fun a b => a.1.index ≤ b.1.index
    exact (sorted_eq_of_perm htable.perm ((hsorted.map Prod.fst).nodup_iff.1 hkeys)).symm
  · rw [hroot]
    exact ⟨funext fun name => (alike.root.get? space name).symm, (alike.root.sorted space).symm⟩
  · unfold Resolved.diagnostics
    rw [herrors]
    exact herrors'.perm.symm.map _

/-- The first two statements in the other order, if they are declarations that are apart. -/
def swapFirst : List Stmt → List Stmt
  | a :: b :: stmts => if Apart a b then b :: a :: stmts else a :: b :: stmts
  | stmts => stmts

theorem swaps_swapFirst (stmts : List Stmt) : Swaps stmts (swapFirst stmts) := by
  unfold swapFirst
  split
  · split
    · exact .swap [] _ ‹_›
    · exact .refl _
  · exact .refl _

/-- Two functions and, in the first one, a struct and a function change places; a name in them is
not declared. -/
theorem resolve_rearranged_nested : ∃ lexed p r r',
    lex ⟨0⟩ "func f() {
struct s { a: s }
func g() => h(x)
}
func h(y: int) => f" =
        .ok lexed ∧
      parse ⟨0⟩ lexed.tokens = .ok p ∧
      (swapFirst (p.stmts.map (Node.rearrange swapFirst))).map Node.stmtId ≠
        p.stmts.map Node.stmtId ∧
      resolve p.stmts = .ok r ∧
      resolve (swapFirst (p.stmts.map (Node.rearrange swapFirst))) = .ok r' ∧
      r'.resolutions = r.resolutions ∧ r'.diagnostics.Perm r.diagnostics := by
  have htest : readsTo ⟨0⟩
      "func f() \x7b\nstruct s \x7b a: s \x7d\nfunc g() => h(x)\n\x7d\nfunc h(y: int) => f"
      (fun _ p => !Diagnostic.anyError p.diagnostics &&
        decide ((swapFirst (p.stmts.map (Node.rearrange swapFirst))).map Node.stmtId ≠
          p.stmts.map Node.stmtId)) = true := by
    decide +kernel
  obtain ⟨lexed, p, hlex, hparse, htest⟩ := exists_of_readsTo htest
  obtain ⟨free, hmoved⟩ := Bool.and_eq_true_iff.1 htest
  obtain ⟨r, r', hr, hr', hresolutions, -, -, hdiagnostics⟩ := resolve_rearranged swapFirst
    swaps_swapFirst (fresh_of_parse hparse (by simpa using free)) (increasing_of_parse hparse).nodup
  exact ⟨lexed, p, r, r', hlex, hparse, of_decide_eq_true hmoved, hr, hr', hresolutions,
    hdiagnostics⟩

end FrontEnd
