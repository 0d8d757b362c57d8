import FrontEnd.Proofs.Parts
import FrontEnd.Scope.Error

/-!
# Keywords and the constructs around them

Jumps out of a loop need a loop around them, a `return` needs a function, and the names of an object
for itself need a type. Every node puts constructs like these around some of its parts. From that
follows what is around each keyword in a tree, and so whether the keyword is misplaced.
-/

namespace FrontEnd

/-- A construct that some keywords need around them. -/
inductive Fence where
  /-- The body of a loop. -/
  | loop
  /-- A function, an initializer or a lambda. -/
  | func
  /-- A class, a struct, a trait or an object. -/
  | type
deriving DecidableEq

/-- The keywords that need a construct around them. -/
inductive Dependent where
  | break_
  | continue_
  | return_
  | this_
  | super
deriving DecidableEq

/-- What is wrong with a keyword that is misplaced. -/
def Dependent.problem : Dependent → ResolveProblem
  | break_ => .outsideLoop "break"
  | continue_ => .outsideLoop "continue"
  | return_ => .outsideFunction
  | this_ => .outsideType "this"
  | super => .outsideType "super"

/-- Whether a problem is that of a misplaced keyword. -/
def ResolveProblem.isMisplaced : ResolveProblem → Bool
  | outsideLoop _ | outsideFunction | outsideType _ => true
  | _ => false

/-- An expression that begins with such a keyword. -/
structure KeywordUse where
  /-- The keyword. -/
  word : Dependent
  /-- The place of the expression. -/
  span : Span
  /-- The constructs around the expression, nearest first. -/
  around : List Fence

namespace KeywordUse

/-- The expression with more constructs around it. -/
def inside (u : KeywordUse) (fences : List Fence) : KeywordUse :=
  { u with around := u.around ++ fences }

/-- Whether the keyword lacks what it needs. A jump does not leave the function it stands in. -/
def misplaced (u : KeywordUse) : Bool :=
  match u.word with
  | .break_ | .continue_ => .loop ∉ u.around.takeWhile (· ≠ .func)
  | .return_ => .func ∉ u.around
  | .this_ | .super => .type ∉ u.around

/-- The error for the keyword, if it is misplaced. -/
def error? (u : KeywordUse) : Option ResolveError :=
  if u.misplaced then some ⟨u.word.problem, u.span⟩ else none

theorem inside_inside (u : KeywordUse) (fences fences' : List Fence) :
    (u.inside fences).inside fences' = u.inside (fences ++ fences') := by
  unfold inside
  rw [List.append_assoc]

theorem isMisplaced_problem (u : KeywordUse) : u.word.problem.isMisplaced = true := by
  cases u.word <;> rfl

end KeywordUse

namespace Node

variable {c : Category}

section Build

variable {α : Type} [Inhabited α] (f : {c : Category} → Node c → List α → α)

/-- Make something of a node and of what was made of its parts, which is found in front of what was
made before, the last part first. -/
def buildOn (n : Node c) (made : List α) : List α :=
  match made.splitAt n.parts.length with
  | (parts, before) => f n parts.reverse :: before

/-- What is made of a tree, when something is made of every node and of what was made of its
parts. -/
def build (n : Node c) : α := (n.fold (buildOn f) []).headD default

/-- What is made of a node is made of what was made of its parts. -/
theorem build_eq (n : Node c) : n.build f = f n (n.parts.map fun m => m.2.build f) := by
  -- The fold goes through the parts and leaves what it made of them, the last one first.
  have parts (ms : List ((c : Category) × Node c)) (made : List α)
      (h : ∀ m ∈ ms, ∀ made, m.2.fold (buildOn f) made = m.2.build f :: made) :
      ms.foldl (fun made m => m.2.fold (buildOn f) made) made =
        (ms.map fun m => m.2.build f).reverse ++ made := by
    induction ms generalizing made with
    | nil => rfl
    | cons m ms ih =>
      obtain ⟨hm, hms⟩ := List.forall_mem_cons.1 h
      rw [List.foldl_cons, hm, ih _ hms, List.map_cons, List.reverse_cons, List.append_assoc]
      rfl
  have root {d : Category} (m : Node d) (made : List α)
      (h : ∀ k ∈ m.parts, ∀ made, k.2.fold (buildOn f) made = k.2.build f :: made) :
      m.fold (buildOn f) made = f m (m.parts.map fun k => k.2.build f) :: made := by
    rw [fold_eq, parts _ _ h]
    have hlength : m.parts.length = (m.parts.map fun k => k.2.build f).reverse.length := by simp
    unfold buildOn
    rw [List.splitAt_eq, hlength, List.take_left, List.drop_left]
    dsimp only
    rw [List.reverse_reverse]
  have all {d : Category} (m : Node d) : ∀ made, m.fold (buildOn f) made = m.build f :: made := by
    refine induction_parts (motive := fun m => ∀ made, m.fold (buildOn f) made = m.build f :: made)
      (fun m ih made => ?_) m
    have hbuild : m.build f = f m (m.parts.map fun k => k.2.build f) := by
      change (m.fold (buildOn f) []).headD default = _
      rw [root m [] ih]
      rfl
    rw [root m made ih, hbuild]
  have hroot := root n [] fun m _ => all m.2
  rw [all n []] at hroot
  exact (List.cons.inj hroot).1

end Build

/-- The keyword of a form. -/
def word? : {c : Category} → Node c → Option Dependent
  | _, break_ _ => some .break_
  | _, continue_ => some .continue_
  | _, return_ _ => some .return_
  | _, this_ => some .this_
  | _, super => some .super
  | _, _ => none

/-- The keyword an expression begins with. -/
def keyword? : {c : Category} → Node c → Option KeywordUse
  | _, expr o form => form.word?.map (⟨·, o.span, []⟩)
  | _, _ => none

/-- The construct each part of a node has around it, beside those around the node. The source of a
`for` and the condition of a `while` are not in the loop. Arguments of attributes are left out. -/
def fences : {c : Category} → Node c → List (Option Fence)
  | _, loop _ => [some .loop]
  | _, forStmt _ _ _ | _, whileStmt _ _ => [none, some .loop]
  | _, lambda _ _ _ => [some .func, some .func, some .func]
  | _, funcItem _ _ _ _ _ => [some .func, some .func, some .func, some .func]
  | _, initItem _ _ => [some .func, some .func]
  | _, classItem _ _ _ _ _ | _, traitItem _ _ _ _ => [some .type, some .type, some .type]
  | _, objectItem _ _ _ => [some .type, some .type]
  | _, attr _ _ _ => []
  | _, n => n.parts.map fun _ => none

/-- The keywords in a tree, each with the constructs around it. -/
def keywords (n : Node c) : List KeywordUse :=
  n.build fun m found => m.keyword?.toList ++
    (found.zip m.fences).flatMap fun p => p.1.map (·.inside p.2.toList)

/-- The keywords in a tree are the one at its root and those in its parts, which have around them
what the root puts there. -/
theorem keywords_eq (n : Node c) : n.keywords = n.keyword?.toList ++
    (n.parts.zip n.fences).flatMap fun m => m.1.2.keywords.map (·.inside m.2.toList) := by
  unfold keywords
  rw [build_eq, List.zip_map_left, List.flatMap_map]
  rfl

/-- The errors for the keywords in a tree that is inside some constructs. -/
def misplaced (around : List Fence) (n : Node c) : List ResolveError :=
  n.keywords.filterMap fun u => (u.inside around).error?

/-- They are found at the root and in the parts. -/
theorem misplaced_eq (around : List Fence) (n : Node c) : n.misplaced around =
    (n.keyword?.bind fun u => (u.inside around).error?).toList ++
      (n.parts.zip n.fences).flatMap fun m => m.1.2.misplaced (m.2.toList ++ around) := by
  unfold misplaced
  rw [keywords_eq, List.filterMap_append, List.filterMap_flatMap]
  congr 1
  · cases n.keyword? with
    | none => rfl
    | some u =>
      rw [Option.toList_some, Option.bind_some, List.filterMap_cons, List.filterMap_nil]
      cases (u.inside around).error? <;> rfl
  · refine congrArg (List.flatMap · _) (funext fun m => ?_)
    rw [List.filterMap_map]
    simp only [Function.comp_def, KeywordUse.inside_inside]

/-- Only expressions have forms that begin with such a keyword. -/
theorem word?_eq_none (n : Node c) (h : c ≠ .exprForm) : n.word? = none := by
  cases n <;> first | rfl | exact absurd rfl h

/-- The places of the keywords in a tree are places of its nodes. -/
theorem forall_keywords {P : Span → Prop} {n : Node c}
    (h : n.Forall fun m => ∀ u ∈ m.keyword?, P u.span) : ∀ u ∈ n.keywords, P u.span := by
  refine induction_parts (motive := fun n => (n.Forall fun m => ∀ u ∈ m.keyword?, P u.span) →
    ∀ u ∈ n.keywords, P u.span) (fun n ih h u hu => ?_) n h
  rw [keywords_eq, List.mem_append, Option.mem_toList, List.mem_flatMap] at hu
  rcases hu with hroot | ⟨m, hm, hinside⟩
  · exact h.root u hroot
  · obtain ⟨v, hv, rfl⟩ := List.mem_map.1 hinside
    have hpart := (List.of_mem_zip hm).1
    exact ih m.1 hpart (h.parts m.1 hpart) v hv

end Node

end FrontEnd
