import FrontEnd.Proofs.Scoping.Discipline
import FrontEnd.Proofs.Scoping.Walk
import Mathlib.Data.List.Forall2
import Mathlib.Data.List.Nodup
import Mathlib.Data.List.Perm.Basic
import Mathlib.Data.String.Basic

/-!
# Scopes that differ in order

Two scopes are alike if they have the same bindings, perhaps declared in another order. Nothing the
walk asks a stack of scopes depends on that order: what a name stands for, which constructs are
around, and which names are in sight.
-/

namespace FrontEnd

/-- Lists that differ in order are sorted alike, if the order tells all their elements apart. -/
theorem mergeSort_eq_of_perm {α : Type} {le : α → α → Bool} {as bs : List α} (h : as.Perm bs)
    (trans : ∀ a b c, le a b = true → le b c = true → le a c = true)
    (total : ∀ a b, (le a b || le b a) = true)
    (antisymm : ∀ a ∈ as, ∀ b ∈ as, le a b = true → le b a = true → a = b) :
    as.mergeSort le = bs.mergeSort le := by
  have has := List.mergeSort_perm as le
  have hbs := List.mergeSort_perm bs le
  refine List.Perm.eq_of_pairwise (fun a b ha hb => ?_) (List.pairwise_mergeSort trans total as)
    (List.pairwise_mergeSort trans total bs) (has.trans (h.trans hbs.symm))
  exact antisymm a (has.mem_iff.1 ha) b (h.mem_iff.2 (hbs.mem_iff.1 hb))

/-- Where all keys are different, the order does not matter for what is found. -/
theorem lookup_eq_of_perm {β : Type} {as bs : List (String × β)} (h : as.Perm bs)
    (nodup : (as.map Prod.fst).Nodup) (name : String) : as.lookup name = bs.lookup name := by
  induction h with
  | nil => rfl
  | cons x _ ih =>
    rw [List.lookup_cons, List.lookup_cons, ih (List.nodup_cons.1 nodup).2]
  | swap x y xs =>
    have hne : (x.1 == y.1) = false :=
      beq_eq_false_iff_ne.2 fun h => (List.nodup_cons.1 nodup).1 (h ▸ List.mem_cons_self)
    rw [List.lookup_cons, List.lookup_cons, List.lookup_cons, List.lookup_cons]
    cases hx : name == x.1 with
    | false => rfl
    | true => rw [eq_of_beq hx, hne]
  | trans h h' ih ih' => exact (ih nodup).trans (ih' ((h.map Prod.fst).nodup_iff.1 nodup))

namespace Scope

/-- Two scopes of one kind with the same bindings, perhaps in another order. -/
structure Alike (a b : Scope) : Prop where
  kind : a.kind = b.kind
  bindings : ∀ space, (a.bindings space).Perm (b.bindings space)
  /-- No name is bound twice. -/
  nodup : ∀ space, ((a.bindings space).map Prod.fst).Nodup

namespace Alike

variable {a b c : Scope}

/-- The other way round. -/
theorem symm (h : a.Alike b) : b.Alike a where
  kind := h.kind.symm
  bindings space := (h.bindings space).symm
  nodup space := ((h.bindings space).map Prod.fst).nodup_iff.1 (h.nodup space)

/-- By way of a third one. -/
theorem trans (h : a.Alike b) (h' : b.Alike c) : a.Alike c where
  kind := h.kind.trans h'.kind
  bindings space := (h.bindings space).trans (h'.bindings space)
  nodup := h.nodup

/-- The binding of a name. -/
theorem get? (h : a.Alike b) (space : Namespace) (name : String) :
    a.get? space name = b.get? space name :=
  lookup_eq_of_perm (h.bindings space) (h.nodup space) name

/-- The bindings sorted by name. -/
theorem sorted (h : a.Alike b) (space : Namespace) : a.sorted space = b.sorted space := by
  have hle (x y : String × Binding) : (!decide (y.1 < x.1)) = true ↔ x.1 ≤ y.1 := by
    rw [Bool.not_eq_true', decide_eq_false_iff_not, not_lt]
  refine mergeSort_eq_of_perm (h.bindings space) (fun x y z hxy hyz => ?_) (fun x y => ?_)
    fun x hx y hy hxy hyx => ?_
  · exact (hle x z).2 (((hle x y).1 hxy).trans ((hle y z).1 hyz))
  · rw [Bool.or_eq_true, hle, hle]
    exact le_total x.1 y.1
  · exact List.inj_on_of_nodup_map (h.nodup space) hx hy
      (le_antisymm ((hle x y).1 hxy) ((hle y x).1 hyx))

end Alike

/-- A scope without names. -/
theorem alike_empty (kind : ScopeKind) : (Scope.empty kind).Alike (.empty kind) :=
  ⟨rfl, fun _ => .refl _, fun space => by cases space <;> exact List.nodup_nil⟩

/-- What the language provides. -/
theorem alike_prelude : Scope.prelude.Alike .prelude :=
  ⟨rfl, fun _ => .refl _, fun space => by cases space <;> decide⟩

/-- The scope behind a declaration, whether the name is new or not. -/
def declare (s : Scope) (space : Namespace) (name : String) (b : Binding) : Scope :=
  if (s.get? space name).isNone then s.insert space name b else s

/-- The bindings behind a declaration. -/
theorem bindings_declare (s : Scope) (space space' : Namespace) (name : String) (b : Binding) :
    (s.declare space name b).bindings space' = s.bindings space' ++
      if space = space' ∧ (s.get? space name).isNone then [(name, b)] else [] := by
  unfold declare
  by_cases hnew : (s.get? space name).isNone
  · simp [hnew, Decl.bindings_insert]
  · simp [hnew]

/-- A declaration changes only what the name itself stands for. -/
theorem get?_declare (s : Scope) {space space' : Namespace} {name name' : String} (b : Binding)
    (h : space ≠ space' ∨ name ≠ name') :
    (s.declare space name b).get? space' name' = s.get? space' name' := by
  have hnone : (if space = space' ∧ (s.get? space name).isNone then [(name, b)]
      else []).lookup name' = none := by
    split
    · rename_i hspace
      have hne : (name' == name) = false :=
        beq_eq_false_iff_ne.2 ((h.resolve_left (not_not_intro hspace.1)).symm)
      simp [List.lookup_cons, hne]
    · rfl
  unfold Scope.get?
  rw [bindings_declare, List.lookup_append, hnone, Option.or_none]

/-- A declaration does not change what kind of scope it is in. -/
theorem declare_kind (s : Scope) (space : Namespace) (name : String) (b : Binding) :
    (s.declare space name b).kind = s.kind := by
  unfold declare
  split
  · exact s.insert_kind space name b
  · rfl

namespace Alike

variable {a b : Scope}

/-- Behind a declaration scopes are still alike. -/
theorem declare (h : a.Alike b) (space : Namespace) (name : String) (x : Binding) :
    (a.declare space name x).Alike (b.declare space name x) where
  kind := by rw [declare_kind, declare_kind, h.kind]
  bindings space' := by
    rw [bindings_declare, bindings_declare, h.get? space name]
    exact (h.bindings space').append_right _
  nodup space' := by
    rw [bindings_declare, List.map_append]
    split
    · rename_i hnew
      obtain ⟨rfl, hnew⟩ := hnew
      rw [List.map_singleton, List.nodup_append]
      refine ⟨h.nodup space, List.nodup_singleton _, fun n hn n' hn' => ?_⟩
      rw [List.mem_singleton.1 hn']
      rintro rfl
      obtain ⟨y, hy, rfl⟩ := List.mem_map.1 hn
      exact absurd (List.lookup_eq_none_iff.1 (Option.isNone_iff_eq_none.1 hnew) y hy) (by simp)
    · rw [List.map_nil, List.append_nil]
      exact h.nodup space'

/-- Two declarations of different names may be made in any order. -/
theorem declare_comm (h : a.Alike b) {space space' : Namespace} {name name' : String}
    (hne : space ≠ space' ∨ name ≠ name') (x y : Binding) :
    ((a.declare space name x).declare space' name' y).Alike
      ((b.declare space' name' y).declare space name x) := by
  have hswap : ((a.declare space name x).declare space' name' y).Alike
      ((b.declare space name x).declare space' name' y) :=
    (h.declare space name x).declare space' name' y
  refine ⟨?_, fun ns => ?_, hswap.nodup⟩
  · simp only [declare_kind, h.kind]
  · refine (hswap.bindings ns).trans ?_
    rw [bindings_declare, bindings_declare, bindings_declare, bindings_declare,
      get?_declare b x hne, get?_declare b y (hne.imp Ne.symm Ne.symm), List.append_assoc,
      List.append_assoc]
    exact List.perm_append_comm.append_left _

end Alike

end Scope

/-- What is searched for in two rows of scopes that are alike one by one. -/
theorem findSome?_alike {as bs : List Scope} (h : List.Forall₂ Scope.Alike as bs)
    (space : Namespace)
    (name : String) : as.findSome? (·.get? space name) = bs.findSome? (·.get? space name) := by
  induction h with
  | nil => rfl
  | cons hscope _ ih => rw [List.findSome?_cons, List.findSome?_cons, hscope.get?, ih]

namespace ScopeStack

/-- Two stacks whose scopes are alike. -/
structure Alike (s t : ScopeStack) : Prop where
  inner : List.Forall₂ Scope.Alike s.inner t.inner
  root : s.root.Alike t.root

/-- The stack behind a declaration, whether the name is new or not. -/
def declare (s : ScopeStack) (space : Namespace) (name : String) (b : Binding) : ScopeStack :=
  s.setCurrent (s.current.declare space name b)

/-- The innermost scope is the one that was put there. -/
theorem current_setCurrent (s : ScopeStack) (scope : Scope) :
    (s.setCurrent scope).current = scope := by
  obtain ⟨inner, root⟩ := s
  cases inner <;> rfl

/-- Only the last one that was put there counts. -/
theorem setCurrent_setCurrent (s : ScopeStack) (scope scope' : Scope) :
    (s.setCurrent scope).setCurrent scope' = s.setCurrent scope' := by
  obtain ⟨inner, root⟩ := s
  cases inner <;> rfl

/-- Nothing changes if the innermost scope is put where it is. -/
theorem setCurrent_current (s : ScopeStack) : s.setCurrent s.current = s := by
  obtain ⟨inner, root⟩ := s
  cases inner <;> rfl

/-- At the start there is an empty module. -/
theorem alike_start : ScopeStack.start.Alike .start := ⟨.nil, Scope.alike_empty .module⟩

namespace Alike

variable {s t u : ScopeStack}

/-- The other way round. -/
theorem symm (h : s.Alike t) : t.Alike s :=
  ⟨h.inner.flip.imp fun _ _ h => h.symm, h.root.symm⟩

/-- By way of a third one. -/
theorem trans (h : s.Alike t) (h' : t.Alike u) : s.Alike u := by
  refine ⟨?_, h.root.trans h'.root⟩
  have hinner := h.inner
  have hinner' := h'.inner
  generalize s.inner = as at hinner
  generalize t.inner = bs at hinner hinner'
  generalize u.inner = cs at hinner'
  induction hinner generalizing cs with
  | nil => cases hinner'; exact .nil
  | cons hscope _ ih =>
    cases hinner' with
    | cons hscope' htail => exact .cons (hscope.trans hscope') (ih _ htail)

/-- All scopes, with those of the language. -/
theorem scopes (h : s.Alike t) : List.Forall₂ Scope.Alike s.scopes t.scopes :=
  List.rel_append h.inner (.cons h.root (.cons Scope.alike_prelude .nil))

/-- The innermost scopes are alike. -/
theorem current (h : s.Alike t) : s.current.Alike t.current := by
  have hinner := h.inner
  unfold ScopeStack.current
  generalize s.inner = as at hinner
  generalize t.inner = bs at hinner
  cases hinner with
  | nil => exact h.root
  | cons hscope _ => exact hscope

/-- So are stacks with other innermost scopes, if these are. -/
theorem setCurrent (h : s.Alike t) {a b : Scope} (hab : a.Alike b) :
    (s.setCurrent a).Alike (t.setCurrent b) := by
  obtain ⟨inner, root⟩ := s
  obtain ⟨inner', root'⟩ := t
  obtain ⟨hinner, hroot⟩ := h
  cases hinner with
  | nil => exact ⟨.nil, hab⟩
  | cons _ htail => exact ⟨.cons hab htail, hroot⟩

/-- A new scope is empty on both sides. -/
theorem enter (h : s.Alike t) (kind : ScopeKind) : (s.enter kind).Alike (t.enter kind) :=
  ⟨.cons (Scope.alike_empty kind) h.inner, h.root⟩

/-- One of the stacks is left if the other is. -/
theorem exit (h : s.Alike t) {scope : Scope} {outer : ScopeStack}
    (hexit : s.exit = .ok (scope, outer)) :
    ∃ scope' outer', t.exit = .ok (scope', outer') ∧ outer.Alike outer' := by
  obtain ⟨inner, root⟩ := s
  obtain ⟨inner', root'⟩ := t
  obtain ⟨hinner, hroot⟩ := h
  cases hinner with
  | nil => cases hexit
  | cons _ htail =>
    cases hexit
    exact ⟨_, _, rfl, htail, hroot⟩

/-- The same name is declared on both sides. -/
theorem declare (h : s.Alike t) (space : Namespace) (name : String) (b : Binding) :
    (s.declare space name b).Alike (t.declare space name b) :=
  h.setCurrent (h.current.declare space name b)

/-- Two declarations of different names may be made in any order. -/
theorem declare_comm (h : s.Alike t) {space space' : Namespace} {name name' : String}
    (hne : space ≠ space' ∨ name ≠ name') (b b' : Binding) :
    ((s.declare space name b).declare space' name' b').Alike
      ((t.declare space' name' b').declare space name b) := by
  unfold ScopeStack.declare
  rw [current_setCurrent, current_setCurrent, setCurrent_setCurrent, setCurrent_setCurrent]
  exact h.setCurrent (h.current.declare_comm hne b b')

/-- Names stand for the same. -/
theorem find? (h : s.Alike t) (use : NameUse) (global : Bool) (name : String) :
    Resolve.find? s use global name = Resolve.find? t use global name := by
  unfold Resolve.find?
  congr 1
  funext space
  congr 1
  cases global with
  | true => exact findSome?_alike (.cons h.root (.cons Scope.alike_prelude .nil)) space name
  | false => exact findSome?_alike h.scopes space name

/-- The same constructs are around. -/
theorem find (h : s.Alike t) (wanted stop : ScopeKind → Bool) :
    s.find wanted stop = t.find wanted stop := by
  have hkinds : s.scopes.map (·.kind) = t.scopes.map (·.kind) := by
    have hscopes := h.scopes
    generalize s.scopes = as at hscopes
    generalize t.scopes = bs at hscopes
    induction hscopes with
    | nil => rfl
    | cons hscope _ ih => rw [List.map_cons, List.map_cons, hscope.kind, ih]
  unfold ScopeStack.find
  rw [hkinds]

/-- The same names are in sight, in the same order. -/
theorem visibleNames (h : s.Alike t) (namespaces : List Namespace) :
    s.visibleNames namespaces = t.visibleNames namespaces := by
  have hscopes := h.scopes
  unfold ScopeStack.visibleNames
  generalize s.scopes = as at hscopes
  generalize t.scopes = bs at hscopes
  induction hscopes with
  | nil => rfl
  | cons hscope _ ih =>
    rw [List.flatMap_cons, List.flatMap_cons, ih]
    simp only [hscope.sorted]

end Alike

end ScopeStack

end FrontEnd
