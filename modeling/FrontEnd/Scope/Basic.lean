import FrontEnd.Syntax.Name

/-!
# Scopes

A scope is what one construct of the program adds to the names in sight. Types and values have
names of their own, so a variable and a type may share one. The first declaration of a name in a
scope is kept.
-/

namespace FrontEnd

/-- The two separate sets of names. -/
inductive Namespace where
  | value
  | type
deriving DecidableEq, Inhabited

/-- The construct a scope belongs to. -/
inductive ScopeKind where
  /-- What the language provides. -/
  | prelude
  /-- The top level of a file. -/
  | module
  | block
  | func
  | lambda
  | loop
  /-- The body of a declaration of some kind. -/
  | item (kind : DeclKind)
  | selectEntry
  | handler
deriving DecidableEq, Inhabited

/-- The label of a kind of scopes. -/
def ScopeKind.label : ScopeKind → String
  | prelude => "Prelude"
  | module => "Module"
  | block => "Block"
  | func => "Func"
  | lambda => "Lambda"
  | loop => "Loop"
  | item kind => "Item(" ++ kind.label ++ ")"
  | selectEntry => "WhenEntry"
  | handler => "Catch"

/-- What a declared name stands for, and where it is declared. -/
structure Binding where
  /-- What the name stands for. -/
  target : Target
  /-- The declaring name; what the language provides has none. -/
  span? : Option Span
deriving DecidableEq, Inhabited

/-- The names one construct declares. -/
structure Scope where
  /-- The construct. -/
  kind : ScopeKind
  /-- Names of types, in the order of their declaration. -/
  types : List (String × Binding)
  /-- Names of values, in the order of their declaration. -/
  values : List (String × Binding)
deriving DecidableEq, Inhabited

namespace Scope

/-- A scope without names. -/
def empty (kind : ScopeKind) : Scope := ⟨kind, [], []⟩

/-- The names of one namespace. -/
def bindings (s : Scope) : Namespace → List (String × Binding)
  | .type => s.types
  | .value => s.values

/-- The binding of a name in this scope. -/
def get? (s : Scope) (ns : Namespace) (name : String) : Option Binding :=
  (s.bindings ns).lookup name

/-- Add a binding at the end of a namespace. -/
def insert (s : Scope) (ns : Namespace) (name : String) (b : Binding) : Scope :=
  match ns with
  | .type => { s with types := s.types ++ [(name, b)] }
  | .value => { s with values := s.values ++ [(name, b)] }

/-- Declare a name. A name that is already declared keeps its binding, which is the error. -/
def define (s : Scope) (ns : Namespace) (name : String) (b : Binding) : Except Binding Scope :=
  match s.get? ns name with
  | some previous => .error previous
  | none => .ok (s.insert ns name b)

/-- The bindings of a namespace, sorted by name. -/
def sorted (s : Scope) (ns : Namespace) : List (String × Binding) :=
  (s.bindings ns).mergeSort fun a b => !(b.1 < a.1)

/-- The primitive types. -/
def primitiveTypes : List String :=
  ["bool", "char", "str", "String", "i8", "i16", "i32", "i64", "u8", "u16", "u32", "u64", "int",
    "uint", "f32", "f64"]

/-- The builtin functions. -/
def builtinFunctions : List String := ["print", "println"]

/-- The names the language provides. -/
def prelude : Scope where
  kind := .prelude
  types := primitiveTypes.map fun name => (name, ⟨.primitive name, none⟩)
  values := builtinFunctions.map fun name => (name, ⟨.builtin name, none⟩)

end Scope

end FrontEnd
