import FrontEnd.Defect

/-!
# The stack of scopes

While a program is walked, the scopes around the place at hand form a stack. At its bottom lie
the prelude, which never changes, and the scope of the module. A name is looked up from the
innermost scope outwards.
-/

namespace FrontEnd

/-- The scopes around a place of the program. -/
structure ScopeStack where
  /-- The scopes inside the module, innermost first. -/
  inner : List Scope
  /-- The scope of the module. -/
  root : Scope
deriving DecidableEq, Inhabited

namespace ScopeStack

/-- The stack at the top level of a module without declarations. -/
def start : ScopeStack := ⟨[], .empty .module⟩

/-- All scopes, innermost first. -/
def scopes (s : ScopeStack) : List Scope := s.inner ++ [s.root, .prelude]

/-- The innermost scope. -/
def current (s : ScopeStack) : Scope := s.inner.head?.getD s.root

/-- Enter a construct. -/
def enter (s : ScopeStack) (kind : ScopeKind) : ScopeStack :=
  { s with inner := .empty kind :: s.inner }

/-- Leave the innermost construct, whose scope is returned. The module cannot be left. -/
def exit (s : ScopeStack) : Except Defect (Scope × ScopeStack) :=
  match s.inner with
  | [] => .error (.outermostScope s.root.kind)
  | scope :: inner => .ok (scope, { s with inner := inner })

/-- Replace the innermost scope. -/
def setCurrent (s : ScopeStack) (scope : Scope) : ScopeStack :=
  match s.inner with
  | [] => { s with root := scope }
  | _ :: inner => { s with inner := scope :: inner }

/-- Declare a name in the innermost scope; the error is the binding it already has there. -/
def define (s : ScopeStack) (ns : Namespace) (name : String) (b : Binding) :
    Except Binding ScopeStack := do
  return s.setCurrent (← s.current.define ns name b)

/-- The binding of a name in the nearest scope that has one. -/
def lookup (s : ScopeStack) (ns : Namespace) (name : String) : Option Binding :=
  s.scopes.findSome? (·.get? ns name)

/-- The binding of a name in the module or the prelude. -/
def lookupGlobal (s : ScopeStack) (ns : Namespace) (name : String) : Option Binding :=
  [s.root, .prelude].findSome? (·.get? ns name)

/-- The first kind that is wanted, provided no kind that stops the search comes before it. -/
def searchKinds (wanted stop : ScopeKind → Bool) : List ScopeKind → Option ScopeKind
  | [] => none
  | kind :: kinds =>
    if wanted kind then some kind
    else if stop kind then none
    else searchKinds wanted stop kinds

/-- The kind of the nearest scope that is wanted, provided no scope that stops the search is
nearer. -/
def find (s : ScopeStack) (wanted stop : ScopeKind → Bool) : Option ScopeKind :=
  searchKinds wanted stop (s.scopes.map (·.kind))

/-- All names in sight, innermost scope first, by namespace, sorted within each. -/
def visibleNames (s : ScopeStack) (namespaces : List Namespace) : List String :=
  s.scopes.flatMap fun scope =>
    namespaces.flatMap fun ns => (scope.sorted ns).map (·.1)

/-- The scope of the module, once all other scopes are left. -/
def intoModule (s : ScopeStack) : Except Defect Scope :=
  if s.inner.isEmpty then .ok s.root else .error (.openScopes s.inner.length)

end ScopeStack

end FrontEnd
