import FrontEnd.Diagnostic.Basic
import FrontEnd.Scope.Basic

/-!
# Errors of name resolution
-/

namespace FrontEnd

/-- How a name is used. -/
inductive NameUse where
  /-- As an expression: a value, or else a type. -/
  | value
  /-- As a type. -/
  | type
deriving DecidableEq, Inhabited

/-- The namespaces a use is looked up in, in order. -/
def NameUse.namespaces : NameUse → List Namespace
  | value => [.value, .type]
  | type => [.type]

/-- What is wrong with a name or keyword. -/
inductive ResolveProblem where
  /-- The scope already has the name, declared elsewhere. -/
  | redeclared (name : String) (previous? : Option Span)
  /-- No scope has the name; perhaps a similar one was meant. -/
  | unresolved (use : NameUse) (name : String) (similar? : Option String)
  /-- A keyword that needs a loop around it. -/
  | outsideLoop (word : String)
  /-- A `return` that needs a function around it. -/
  | outsideFunction
  /-- A keyword that needs a type around it. -/
  | outsideType (word : String)
deriving DecidableEq, Inhabited

/-- A problem and where it stands. -/
structure ResolveError where
  /-- What is wrong. -/
  problem : ResolveProblem
  /-- The name or keyword. -/
  span : Span
deriving DecidableEq, Inhabited

namespace ResolveError

/-- The error message. -/
def message (e : ResolveError) : String :=
  match e.problem with
  | .redeclared name _ => "`" ++ name ++ "` has already been declared in this scope"
  | .unresolved .value name _ => "Cannot find `" ++ name ++ "` in this scope"
  | .unresolved .type name _ => "Cannot find type `" ++ name ++ "` in this scope"
  | .outsideLoop word => "`" ++ word ++ "` outside of a loop"
  | .outsideFunction => "`return` outside of a function"
  | .outsideType word => "`" ++ word ++ "` outside of a class, struct, trait or object"

/-- The error as a diagnostic, with a link to the earlier declaration or a similar name. -/
def toDiagnostic (e : ResolveError) : Diagnostic :=
  let plain := Diagnostic.error e.message e.span
  match e.problem with
  | .redeclared _ (some previous) => plain.withLink "previously declared here" previous
  | .unresolved _ _ similar? => plain.withHelp? similar?
  | _ => plain

end ResolveError

end FrontEnd
