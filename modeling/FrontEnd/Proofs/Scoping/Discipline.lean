import FrontEnd.Scope.Stack

/-!
# The discipline of the stack

While a module is walked, constructs are entered and left and names are declared in the innermost
scope, in any order. What one of these operations does to the list of all scopes is said once. From
it follow what all sequences of operations keep, and that a construct which is left again leaves
nothing behind.
-/

namespace FrontEnd

/-- What is done to a stack of scopes. -/
inductive ScopeOp where
  | enter (kind : ScopeKind)
  | exit
  /-- A name is declared in the innermost scope. -/
  | define (ns : Namespace) (name : String) (b : Binding)

/-- What is answered to an operation. -/
inductive ScopeReply where
  | done
  /-- The scope that was left. -/
  | left (scope : Scope)
  /-- Leaving broke a rule. -/
  | refused (defect : Defect)
  /-- The innermost scope has the name already. -/
  | taken (previous : Binding)

/-- What an operation answers, and what it does to the scopes, innermost first. -/
inductive ScopeOp.Does : ScopeOp → List Scope → ScopeReply → List Scope → Prop
  | enter {kind : ScopeKind} {scopes : List Scope} :
    Does (.enter kind) scopes .done (.empty kind :: scopes)
  | exit {scope : Scope} {outer : List Scope} (above : 2 ≤ outer.length) :
    Does .exit (scope :: outer) (.left scope) outer
  | refuse {scope : Scope} {outer : List Scope} (outermost : outer.length < 2) :
    Does .exit (scope :: outer) (.refused (.outermostScope scope.kind)) (scope :: outer)
  | define {ns : Namespace} {name : String} {b : Binding} {scope : Scope} {outer : List Scope}
    (new : scope.get? ns name = none) :
    Does (.define ns name b) (scope :: outer) .done (scope.insert ns name b :: outer)
  | keep {ns : Namespace} {name : String} {b previous : Binding} {scope : Scope}
    {outer : List Scope} (old : scope.get? ns name = some previous) :
    Does (.define ns name b) (scope :: outer) (.taken previous) (scope :: outer)

/-- A module above the prelude, and perhaps more scopes above it. -/
def Grounded (scopes : List Scope) : Prop :=
  ∃ inner root, scopes = inner ++ [root, .prelude] ∧ root.kind = .module

/-- Declaring a name keeps the kind of a scope. -/
theorem Scope.insert_kind (s : Scope) (ns : Namespace) (name : String) (b : Binding) :
    (s.insert ns name b).kind = s.kind := by
  cases ns <;> rfl

/-- No operation removes the module or touches the prelude. -/
theorem ScopeOp.Does.grounded {op : ScopeOp} {scopes scopes' : List Scope} {reply : ScopeReply}
    (h : op.Does scopes reply scopes') (hscopes : Grounded scopes) : Grounded scopes' := by
  obtain ⟨inner, root, hsplit, hkind⟩ := hscopes
  cases h with
  | @enter kind => exact ⟨.empty kind :: inner, root, congrArg _ hsplit, hkind⟩
  | exit above =>
    cases inner with
    | nil =>
      -- Only the prelude would be left.
      have hlength := congrArg List.length hsplit
      simp at hlength
      omega
    | cons scope inner => exact ⟨inner, root, (List.cons.inj hsplit).2, hkind⟩
  | refuse => exact ⟨inner, root, hsplit, hkind⟩
  | @define ns name b =>
    cases inner with
    | nil =>
      obtain ⟨rfl, rfl⟩ := List.cons.inj hsplit
      exact ⟨[], _, rfl, (Scope.insert_kind ..).trans hkind⟩
    | cons scope inner =>
      obtain ⟨rfl, rfl⟩ := List.cons.inj hsplit
      exact ⟨_ :: inner, root, rfl, hkind⟩
  | keep => exact ⟨inner, root, hsplit, hkind⟩

namespace ScopeStack

/-- One operation: its answer, and the stack behind it. -/
def step (s : ScopeStack) : ScopeOp → ScopeReply × ScopeStack
  | .enter kind => (.done, s.enter kind)
  | .exit =>
    match s.exit with
    | .ok (scope, outer) => (.left scope, outer)
    | .error defect => (.refused defect, s)
  | .define ns name b =>
    match s.define ns name b with
    | .ok next => (.done, next)
    | .error previous => (.taken previous, s)

/-- The stack behind some operations. -/
def run (s : ScopeStack) (ops : List ScopeOp) : ScopeStack :=
  ops.foldl (fun s op => (s.step op).2) s

/-- All scopes are the innermost one and those around it. -/
theorem scopes_eq (s : ScopeStack) : s.scopes = s.current :: s.scopes.tail := by
  obtain ⟨inner, root⟩ := s
  cases inner <;> rfl

/-- Replacing the innermost scope. -/
theorem scopes_setCurrent (s : ScopeStack) (scope : Scope) :
    (s.setCurrent scope).scopes = scope :: s.scopes.tail := by
  obtain ⟨inner, root⟩ := s
  cases inner <;> rfl

/-- Declaring a name that the innermost scope does not have. -/
theorem define_new {s : ScopeStack} {ns : Namespace} {name : String}
    (h : s.current.get? ns name = none) (b : Binding) :
    s.define ns name b = .ok (s.setCurrent (s.current.insert ns name b)) := by
  unfold define Scope.define
  rw [h]
  rfl

/-- Declaring a name that the innermost scope has. -/
theorem define_old {s : ScopeStack} {ns : Namespace} {name : String} {previous : Binding}
    (h : s.current.get? ns name = some previous) (b : Binding) :
    s.define ns name b = .error previous := by
  unfold define Scope.define
  rw [h]
  rfl

/-- A name that the innermost scope has is not declared again. -/
theorem step_define_taken {s : ScopeStack} {ns : Namespace} {name : String} {previous : Binding}
    (h : s.current.get? ns name = some previous) (b : Binding) :
    s.step (.define ns name b) = (.taken previous, s) := by
  unfold step
  dsimp only
  rw [define_old h]

/-- What each operation does. -/
theorem step_does (s : ScopeStack) (op : ScopeOp) :
    op.Does s.scopes (s.step op).1 (s.step op).2.scopes := by
  cases op with
  | enter kind => exact .enter
  | exit =>
    obtain ⟨inner, root⟩ := s
    cases inner with
    | nil => exact .refuse (by simp)
    | cons scope inner => exact .exit (by simp)
  | define ns name b =>
    cases hname : s.current.get? ns name with
    | none =>
      unfold step
      dsimp only
      rw [define_new hname]
      dsimp only
      rw [scopes_setCurrent, scopes_eq]
      exact .define hname
    | some previous =>
      rw [step_define_taken hname, scopes_eq]
      exact .keep hname

/-- Whatever is done, the module and the prelude stay. -/
theorem run_grounded (ops : List ScopeOp) {s : ScopeStack} (h : Grounded s.scopes) :
    Grounded (s.run ops).scopes := by
  induction ops generalizing s with
  | nil => exact h
  | cons op ops ih => exact ih ((s.step_does op).grounded h)

/-- The operations inside a construct: names are declared, and other constructs are entered and left
again. -/
inductive Inside : List ScopeOp → Prop
  | nil : Inside []
  | define (ns : Namespace) (name : String) (b : Binding) {ops : List ScopeOp} (h : Inside ops) :
    Inside (.define ns name b :: ops)
  | construct (kind : ScopeKind) {body ops : List ScopeOp} (hbody : Inside body)
    (h : Inside ops) : Inside (.enter kind :: (body ++ .exit :: ops))

/-- A stack is given by the list of its scopes. -/
theorem eq_of_scopes {s t : ScopeStack} (h : s.scopes = t.scopes) : s = t := by
  obtain ⟨inner, root⟩ := s
  obtain ⟨inner', root'⟩ := t
  obtain ⟨rfl, hbottom⟩ := List.append_inj' h rfl
  obtain ⟨rfl, -⟩ := List.cons.inj hbottom
  rfl

/-- Around the innermost scope a declaration changes nothing. -/
theorem step_define_tail (s : ScopeStack) (ns : Namespace) (name : String) (b : Binding) :
    (s.step (.define ns name b)).2.scopes.tail = s.scopes.tail := by
  have hdoes := s.step_does (.define ns name b)
  generalize (s.step (.define ns name b)).2.scopes = after at hdoes ⊢
  generalize (s.step (.define ns name b)).1 = reply at hdoes
  rw [scopes_eq] at hdoes ⊢
  cases hdoes <;> rfl

/-- A construct that changes only its own scope is left behind as if it had never been entered. -/
theorem run_construct {body : List ScopeOp}
    (hbody : ∀ s : ScopeStack, (s.run body).scopes.tail = s.scopes.tail) (kind : ScopeKind)
    (s : ScopeStack) : s.run (.enter kind :: (body ++ [.exit])) = s := by
  let inside := (s.enter kind).run body
  have hrun : s.run (.enter kind :: (body ++ [.exit])) = (inside.step .exit).2 :=
    List.foldl_append ..
  have htail : inside.scopes.tail = s.scopes := hbody (s.enter kind)
  have hdoes := inside.step_does .exit
  rw [scopes_eq, htail] at hdoes
  refine eq_of_scopes ?_
  rw [hrun]
  generalize (inside.step .exit).2.scopes = after at hdoes ⊢
  generalize (inside.step .exit).1 = reply at hdoes
  cases hdoes with
  | exit => rfl
  | refuse outermost =>
    -- Around the construct there are the module and the prelude at least.
    have hlength : s.scopes.length = s.inner.length + 2 := List.length_append
    omega

/-- Operations inside a construct change only its scope. -/
theorem run_inside {ops : List ScopeOp} (h : Inside ops) (s : ScopeStack) :
    (s.run ops).scopes.tail = s.scopes.tail := by
  induction h generalizing s with
  | nil => rfl
  | define ns name b _ ih => exact (ih _).trans (s.step_define_tail ns name b)
  | @construct kind body ops _ _ ihbody ih =>
    have hsplit : ScopeOp.enter kind :: (body ++ .exit :: ops) =
        .enter kind :: (body ++ [.exit]) ++ ops := by simp
    have hrun : s.run (.enter kind :: (body ++ .exit :: ops)) =
        (s.run (.enter kind :: (body ++ [.exit]))).run ops := by
      rw [hsplit]
      exact List.foldl_append ..
    rw [hrun, run_construct ihbody]
    exact ih s

/-- A construct that is entered and left again. -/
def Balanced (ops : List ScopeOp) : Prop :=
  ∃ kind body, Inside body ∧ ops = .enter kind :: (body ++ [.exit])

/-- It leaves nothing behind. -/
theorem run_balanced {ops : List ScopeOp} (h : Balanced ops) (s : ScopeStack) : s.run ops = s := by
  obtain ⟨kind, body, hbody, rfl⟩ := h
  exact run_construct (run_inside hbody) kind s

/-- Leaving is refused only where nothing but the module and the prelude is left. -/
theorem exit_refused {s : ScopeStack} (two_le : 2 ≤ s.scopes.length) {defect : Defect}
    (h : (s.step .exit).1 = .refused defect) : s.scopes.length = 2 ∧ (s.step .exit).2 = s := by
  have hdoes := s.step_does .exit
  rw [h, scopes_eq] at hdoes
  rw [scopes_eq] at two_le ⊢
  generalize hafter : (s.step .exit).2.scopes = after at hdoes
  cases hdoes with
  | refuse outermost =>
    rw [List.length_cons] at two_le ⊢
    exact ⟨by omega, eq_of_scopes (hafter.trans s.scopes_eq.symm)⟩

/-- The discipline of a stack of scopes. -/
structure Disciplined (s : ScopeStack) : Prop where
  /-- There are at least two scopes. -/
  two_le : 2 ≤ s.scopes.length
  /-- The outermost one is the prelude, as it was from the start. -/
  bottom : s.scopes.getLast? = some .prelude
  /-- The one above it belongs to the module. -/
  module : s.scopes.dropLast.getLast?.map (·.kind) = some .module
  /-- Each operation does to the list of scopes what it should. -/
  steps : ∀ op : ScopeOp, op.Does s.scopes (s.step op).1 (s.step op).2.scopes
  /-- Leaving is refused for the module alone, and changes nothing then. -/
  refused : ∀ defect, (s.step .exit).1 = .refused defect →
    s.scopes.length = 2 ∧ (s.step .exit).2 = s
  /-- A name that the innermost scope has keeps its binding, which is the answer. -/
  taken : ∀ (ns : Namespace) (name : String) (b previous : Binding),
    s.current.get? ns name = some previous → s.step (.define ns name b) = (.taken previous, s)
  /-- A construct leaves no trace, -/
  restored : ∀ ops, Balanced ops → s.run ops = s
  /-- and all names and kinds are found as before. -/
  found : ∀ ops, Balanced ops → (s.run ops).lookup = s.lookup ∧
    (s.run ops).lookupGlobal = s.lookupGlobal ∧ (s.run ops).find = s.find

/-- Whatever is entered, left and declared, the stack keeps its discipline. -/
theorem run_disciplined (ops : List ScopeOp) : (start.run ops).Disciplined := by
  obtain ⟨inner, root, hscopes, hkind⟩ := run_grounded (s := start) ops ⟨[], _, rfl, rfl⟩
  generalize start.run ops = s at hscopes
  have two_le : 2 ≤ s.scopes.length := by simp [hscopes]
  exact
    { two_le := two_le
      bottom := by simp [hscopes]
      module := by simp [hscopes, hkind]
      steps := s.step_does
      refused := fun _ hrefused => exit_refused two_le hrefused
      taken := fun _ _ b _ hname => step_define_taken hname b
      restored := fun _ hops => run_balanced hops s
      found := fun _ hops => by rw [run_balanced hops]; exact ⟨rfl, rfl, rfl⟩ }

end ScopeStack

end FrontEnd
