import FrontEnd.Proofs.Scoping.Script
import Mathlib.Data.List.Perm.Basic

/-!
# Scopes and what is declared in them

Which scopes a tree opens can be seen in the tree, and so can what is declared in each of them and
in which order. In every scope the first declaration of a name counts, and each later one of the
same name is an error that points back at it.
-/

namespace FrontEnd

/-- Whether a problem is that of a name declared again. -/
def ResolveProblem.isRedeclared : ResolveProblem → Bool
  | redeclared _ _ => true
  | _ => false

namespace Registration

/-- The first declaration of every name, in order. -/
def firsts : List Registration → List Registration
  | [] => []
  | d :: ds => d :: (firsts ds).filter (·.key ≠ d.key)

/-- The error for a declaration of a name that was declared before. -/
def error (first d : Registration) : ResolveError :=
  ⟨.redeclared d.ident.name (some first.ident.span), d.ident.span⟩

/-- The errors for the declarations of one scope: of each name, all declarations but the first. -/
def again (ds : List Registration) : List ResolveError :=
  (firsts ds).flatMap fun first => (ds.filter (·.key = first.key)).tail.map first.error

theorem firsts_subset (ds : List Registration) : firsts ds ⊆ ds := by
  induction ds with
  | nil => exact List.Subset.refl _
  | cons d ds ih =>
    exact List.cons_subset_cons d (List.Subset.trans List.filter_sublist.subset ih)

/-- Of one name, only the first declaration is the first one. -/
theorem filter_firsts (ds : List Registration) (k : Namespace × String) :
    (firsts ds).filter (·.key = k) = (ds.find? (·.key = k)).toList := by
  induction ds with
  | nil => rfl
  | cons d ds ih =>
    rw [firsts, List.filter_cons, List.find?_cons, List.filter_filter]
    by_cases hd : d.key = k
    · simp [hd]
    · have hsame : (firsts ds).filter (fun a => a.key = k && decide (a.key ≠ d.key)) =
          (firsts ds).filter (·.key = k) := by
        refine List.filter_congr fun a _ => ?_
        by_cases ha : a.key = k
        · simp [ha, Ne.symm hd]
        · simp [ha]
      simp only [hd, decide_false, hsame, ih]
      rfl

/-- The first declaration of a name is found among the first ones. -/
theorem find?_firsts (ds : List Registration) (k : Namespace × String) :
    (firsts ds).find? (·.key = k) = ds.find? (·.key = k) := by
  rw [← List.head?_filter, filter_firsts]
  cases ds.find? (·.key = k) <;> rfl

/-- Behind other declarations, only those of new names are first ones. -/
theorem firsts_append (as bs : List Registration) : firsts (as ++ bs) =
    firsts as ++ (firsts bs).filter fun b => (as.find? (·.key = b.key)).isNone := by
  induction as with
  | nil => exact (List.filter_true _).symm
  | cons a as ih =>
    rw [List.cons_append, firsts, ih, List.filter_append, List.filter_filter, firsts,
      List.cons_append]
    refine congrArg (fun later => a :: ((firsts as).filter (·.key ≠ a.key) ++ later)) ?_
    refine List.filter_congr fun b _ => ?_
    rw [List.find?_cons]
    by_cases hab : a.key = b.key
    · simp [hab]
    · simp [hab, Ne.symm hab]

/-- A further declaration of a new name is a first one. -/
theorem firsts_new {ds : List Registration} {d : Registration}
    (hnew : ds.find? (·.key = d.key) = none) : firsts (ds ++ [d]) = firsts ds ++ [d] := by
  rw [firsts_append]
  exact congrArg _ (List.filter_cons_of_pos (by rw [hnew]; rfl))

/-- A further declaration of the same name is not. -/
theorem firsts_old {ds : List Registration} {d first : Registration}
    (hold : ds.find? (·.key = d.key) = some first) : firsts (ds ++ [d]) = firsts ds := by
  have hnone : [d].filter (fun b => (ds.find? (·.key = b.key)).isNone) = [] :=
    List.filter_cons_of_neg (by rw [hold]; exact Bool.false_ne_true)
  rw [firsts_append]
  exact (congrArg _ hnone).trans (List.append_nil _)

/-- A new name is no error. -/
theorem again_new {ds : List Registration} {d : Registration}
    (hnew : ds.find? (·.key = d.key) = none) : again (ds ++ [d]) = again ds := by
  have hother {first : Registration} (hfirst : first ∈ ds) : first.key ≠ d.key := by
    simpa using List.find?_eq_none.1 hnew first hfirst
  unfold again
  rw [firsts_new hnew, List.flatMap_append]
  have hlast : ([d].flatMap fun first =>
      ((ds ++ [d]).filter (·.key = first.key)).tail.map first.error) = [] := by
    have hnone : ds.filter (·.key = d.key) = [] :=
      List.filter_eq_nil_iff.2 fun first hfirst => by simpa using hother hfirst
    rw [List.flatMap_singleton, List.filter_append, hnone]
    simp
  rw [hlast, List.append_nil]
  refine List.flatMap_congr fun first hfirst => ?_
  have hnone : [d].filter (·.key = first.key) = [] :=
    List.filter_cons_of_neg (by simpa using (hother (firsts_subset ds hfirst)).symm)
  rw [List.filter_append, hnone, List.append_nil]

/-- A further declaration of the same name is one more error. -/
theorem again_old {ds : List Registration} {d first : Registration}
    (hold : ds.find? (·.key = d.key) = some first) :
    (again (ds ++ [d])).Perm (again ds ++ [first.error d]) := by
  -- Of each first declaration there are the errors so far, and one more if the name is the same.
  have hgroup : ∀ f ∈ firsts ds, ((ds ++ [d]).filter (·.key = f.key)).tail.map f.error =
      (ds.filter (·.key = f.key)).tail.map f.error ++
        if f.key = d.key then [f.error d] else [] := by
    intro f hf
    have hne : ds.filter (·.key = f.key) ≠ [] :=
      List.ne_nil_of_mem (List.mem_filter.2 ⟨firsts_subset ds hf, decide_eq_true rfl⟩)
    rw [List.filter_append, List.tail_append_of_ne_nil hne, List.map_append]
    congr 1
    by_cases hkey : f.key = d.key
    · simp [hkey]
    · simp [hkey, Ne.symm hkey]
  have hmore : ((firsts ds).flatMap fun f => if f.key = d.key then [f.error d] else []) =
      [first.error d] := by
    have hsame : ((firsts ds).flatMap fun f => if f.key = d.key then [f.error d] else []) =
        ((firsts ds).filter (·.key = d.key)).map (·.error d) := by
      induction firsts ds with
      | nil => rfl
      | cons f fs ih =>
        rw [List.flatMap_cons, ih, List.filter_cons]
        by_cases hkey : f.key = d.key <;> simp [hkey]
    rw [hsame, filter_firsts, hold]
    rfl
  unfold again
  rw [firsts_old hold, List.flatMap_congr hgroup, ← hmore]
  exact (List.flatMap_append_perm _ _ _).symm

end Registration

namespace Scope

/-- A scope keeps the first of some declarations of every name. -/
def Keeps (s : Scope) (ds : List Registration) : Prop :=
  ∀ space, s.bindings space =
    ((Registration.firsts ds).filter (·.space = space)).map fun d => (d.ident.name, d.binding)

theorem keeps_empty (kind : ScopeKind) : (empty kind).Keeps [] := by
  intro space
  cases space <;> rfl

/-- The binding of a name is that of its first declaration. -/
theorem Keeps.get? {s : Scope} {ds : List Registration} (h : s.Keeps ds) (space : Namespace)
    (name : String) : s.get? space name = (ds.find? (·.key = (space, name))).map (·.binding) := by
  have hlookup (ds : List Registration) :
      ((ds.filter (·.space = space)).map fun d => (d.ident.name, d.binding)).lookup name =
        (ds.find? (·.key = (space, name))).map (·.binding) := by
    induction ds with
    | nil => rfl
    | cons d ds ih =>
      rw [List.filter_cons, List.find?_cons]
      by_cases hspace : d.space = space
      · by_cases hname : d.ident.name = name
        · simp [Registration.key, hspace, hname]
        · have hne : (name == d.ident.name) = false := by simpa using Ne.symm hname
          simpa [Registration.key, hspace, hname, List.lookup_cons, hne] using ih
      · simpa [Registration.key, hspace] using ih
  unfold Scope.get?
  rw [h space, hlookup, Registration.find?_firsts]

/-- A new name is added. -/
theorem Keeps.insert {s : Scope} {ds : List Registration} (h : s.Keeps ds) {d : Registration}
    (hnew : ds.find? (·.key = d.key) = none) :
    (s.insert d.space d.ident.name d.binding).Keeps (ds ++ [d]) := by
  intro space
  rw [Decl.bindings_insert, h space, Registration.firsts_new hnew, List.filter_append,
    List.map_append]
  congr 1
  by_cases hspace : d.space = space <;> simp [hspace]

/-- A name that is not new changes nothing. -/
theorem Keeps.keep {s : Scope} {ds : List Registration} (h : s.Keeps ds) {d first : Registration}
    (hold : ds.find? (·.key = d.key) = some first) : s.Keeps (ds ++ [d]) := by
  intro space
  rw [Registration.firsts_old hold]
  exact h space

end Scope

namespace Node

/-- The scopes a node opens for its parts, each with what is declared in it, in order. -/
def opens : {c : Category} → Origin → Node c → List (List Registration)
  | _, o, blockExpr b => [b.registers o]
  | _, o, cond _ positive _ => [positive.registers o]
  | _, o, loop body => [body.registers o]
  | _, o, lambda params _ _ => [params.registers o]
  | _, o, tryCatch body _ => [body.registers o]
  | _, o, handler id binding body =>
    [[⟨.value, binding, .localVar, id⟩], body.registers o]
  | _, _, selectEntry _ _ _ => [[]]
  | _, o, forStmt binding _ body =>
    [[⟨.value, binding, .localVar, o.id⟩], body.registers o]
  | _, o, whileStmt _ body => [body.registers o]
  | _, o, funcItem _ generics params _ _ => [generics.registers o ++ params.registers o]
  | _, o, classItem _ _ generics _ members => [generics.registers o ++ members.hoists]
  | _, o, enumItem _ generics _ members => [generics.registers o ++ members.hoists]
  | _, o, traitItem _ generics _ members => [generics.registers o ++ members.hoists]
  | _, o, aliasItem _ generics _ => [generics.registers o]
  | _, _, objectItem _ _ members => [members.hoists]
  | _, o, initItem params body => [params.registers o, body.registers o]
  | _, o, blockBody b => [b.registers o]
  | _, _, _ => []

/-- The node that holds the parts of a node: itself, if it has a number, or the one around it. -/
def holder (o : Origin) : {c : Category} → Node c → Origin
  | _, expr o _ | _, type o _ | _, stmt o _ | _, item o _ _ _ | _, block o _ => o
  | _, selectEntry o _ _ | _, param o _ _ _ | _, generic o _ _ | _, enumEntry o _ _ => o
  | _, _ => o

/-- The parts of a node that are walked: all but the arguments of attributes. -/
def walked {α : Type} : {c : Category} → Node c → List α → List α
  | _, attr _ _ _, _ => []
  | _, _, parts => parts

/-- The scopes in a tree, each with what is declared in it. -/
def scopesIn {c : Category} (n : Node c) : Origin → List (List Registration) :=
  n.build fun m inside o => m.opens o ++ (m.walked inside).flatMap (· (m.holder o))

/-- They are opened by the root and inside its parts. -/
theorem scopesIn_eq {c : Category} (n : Node c) (o : Origin) : n.scopesIn o =
    n.opens o ++ (n.walked n.parts).flatMap fun m => m.2.scopesIn (n.holder o) := by
  have hwalked : n.walked (n.parts.map fun m => m.2.scopesIn) =
      (n.walked n.parts).map fun m => m.2.scopesIn := by
    cases n <;> rfl
  have hbuild := congrFun (build_eq (fun {_} m inside o =>
    m.opens o ++ (m.walked inside).flatMap (· (m.holder o))) n) o
  change n.scopesIn o =
    n.opens o ++ (n.walked (n.parts.map fun m => m.2.scopesIn)).flatMap (· (n.holder o)) at hbuild
  rw [hbuild, hwalked, List.flatMap_map]

end Node

/-- What a module declares at its top level: its declarations, and behind them its variables. -/
def moduleRegisters (stmts : List Stmt) : List Registration :=
  let whole := Node.ofList stmts
  whole.hoists ++ whole.registers default

/-- The scopes of a module, each with what is declared in it. -/
def moduleScopes (stmts : List Stmt) : List (List Registration) :=
  moduleRegisters stmts :: (Node.ofList stmts).scopesIn default

end FrontEnd
