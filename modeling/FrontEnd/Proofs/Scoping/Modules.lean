import FrontEnd.Proofs.Tracing.Files
import FrontEnd.Proofs.Scoping.Uses

/-!
# Name resolution of modules without errors

The parser leaves no error stub, no path without names and no written slot behind unless it
reports an error, and these are the only things that can stop the walk. So a module that is read
without errors is resolved, and every name in it stands for what the environments say.
-/

namespace FrontEnd

/-- What name resolution relies on, said of one node. -/
theorem Node.fresh_iff {c : Category} (n : Node c) :
    n.Fresh ↔ n.isStub = false ∧ n.hasNames = true ∧ ∀ slot ∈ n.slot?, slot = .empty := by
  unfold Node.Fresh
  cases n.slot? <;> simp [and_assoc]

namespace Resolve

/-- The statements of a module are walked one after the other. -/
theorem walkStmts_bound (stmts : List Stmt) (h : ∀ s ∈ stmts, s.Forall Node.Fresh) (env : Env) :
    Walks env (walkStmts stmts) ((Node.ofList stmts).bound default env).toList
      (env.add ((Node.ofList stmts).declared default)) := by
  induction stmts generalizing env with
  | nil => exact .closed .pure
  | cons s stmts ih =>
    obtain ⟨hs, hstmts⟩ := List.forall_mem_cons.1 h
    have hdeclared := s.declared_cons default (Node.ofList stmts)
    rw [Node.ofList, hdeclared, Env.add_append]
    exact .map₂ (walk_bound s hs default env) (ih hstmts _)

/-- Declaring the names of a module and walking its statements. -/
theorem module_walks (stmts : List Stmt) (h : ∀ s ∈ stmts, s.Forall Node.Fresh) :
    Walks ⟨[], []⟩ (do stmts.forM declareStmt; walkStmts stmts) (boundModule stmts)
      ⟨[], (Node.ofList stmts).hoisted ++ (Node.ofList stmts).declared default⟩ := by
  have declare : Walks ⟨[], []⟩ (stmts.forM declareStmt) () ⟨[], (Node.ofList stmts).hoisted⟩ := by
    have hstmts := @declareStmts_walks ⟨[], []⟩ (Node.ofList stmts)
    rwa [Node.toList_ofList] at hstmts
  exact declare.bind (walkStmts_bound stmts h _)

end Resolve

/-- Resolving a module in which nothing is missing gives every name its meaning. -/
theorem resolve_bound (stmts : List Stmt) (h : ∀ s ∈ stmts, s.Forall Node.Fresh) :
    ∃ r, resolve stmts = .ok r ∧ r.stmts = boundModule stmts := by
  obtain ⟨s, hrun, hs⟩ := Resolve.module_walks stmts h Resolve.start Env.describes_start
  have hinner : s.scopes.inner = [] := by simpa using hs.inner.symm
  have hroot : s.scopes.intoModule = .ok s.scopes.root := by
    simp [ScopeStack.intoModule, hinner]
  unfold resolve
  dsimp only
  rw [hrun]
  dsimp only
  rw [hroot]
  exact ⟨_, rfl, rfl⟩

/-- In a module that is read without errors nothing is missing. -/
theorem fresh_of_parse {file : FileId} {tokens : List Token} {p : Parsed}
    (h : parse file tokens = .ok p) (free : Diagnostic.anyError p.diagnostics = false) :
    ∀ s ∈ p.stmts, s.Forall Node.Fresh :=
  (Node.forall_fresh_ofList p.stmts).1 (parse_spells h free).1

/-- A module that is read without errors has no error stubs, a name on every path and only empty
slots, at any depth, and name resolution ends on it without a defect. -/
theorem parse_then_resolve {file : FileId} {tokens : List Token} {p : Parsed}
    (h : parse file tokens = .ok p) (free : Diagnostic.anyError p.diagnostics = false) :
    (∀ s ∈ p.stmts, s.Forall fun n =>
      n.isStub = false ∧ n.hasNames = true ∧ ∀ slot ∈ n.slot?, slot = .empty) ∧
    ∃ r, resolve p.stmts = .ok r := by
  have hfresh := fresh_of_parse h free
  obtain ⟨r, hr, -⟩ := resolve_bound p.stmts hfresh
  have hiff : (fun {c : Category} (n : Node c) => n.Fresh) = fun {c : Category} (n : Node c) =>
      n.isStub = false ∧ n.hasNames = true ∧ ∀ slot ∈ n.slot?, slot = .empty := by
    funext c n
    exact propext n.fresh_iff
  refine ⟨fun s hs => ?_, r, hr⟩
  rw [← hiff]
  exact hfresh s hs

/-- A parameter that hides a variable of the same name. -/
theorem shadowed_readsClean : readsClean ⟨0⟩ "val x = 1\nval f = |x| x" = true := by
  decide +kernel

/-- Resolving this text ends without a defect. -/
theorem parse_then_resolve_shadowed : ∃ lexed p r,
    lex ⟨0⟩ "val x = 1\nval f = |x| x" = .ok lexed ∧ parse ⟨0⟩ lexed.tokens = .ok p ∧
      resolve p.stmts = .ok r := by
  obtain ⟨lexed, p, hlex, hparse, free⟩ := exists_of_readsClean _ _ shadowed_readsClean
  obtain ⟨r, hr⟩ := (parse_then_resolve hparse free).2
  exact ⟨lexed, p, r, hlex, hparse, hr⟩

/-- Lexical scoping: in a module that is read without errors, every name stands for what the
environment at its place says. -/
theorem resolve_lexical {file : FileId} {tokens : List Token} {p : Parsed}
    (h : parse file tokens = .ok p) (free : Diagnostic.anyError p.diagnostics = false) :
    ∃ r, resolve p.stmts = .ok r ∧ r.stmts = boundModule p.stmts :=
  resolve_bound p.stmts (fresh_of_parse h free)

/-- A function is used above its declaration, members and a generic parameter are in sight inside
their class, and the global path passes over the parameter of the same name. -/
theorem resolve_lexical_members : ∃ lexed p r,
    lex ⟨0⟩ "val a = later(1)
func later(n: int) => n
class Box<T> {
val item: T
func get() => item
func set(later: T) => ::later(2)
}" =
        .ok lexed ∧
      parse ⟨0⟩ lexed.tokens = .ok p ∧ resolve p.stmts = .ok r ∧ r.stmts = boundModule p.stmts ∧
      (r.stmts.flatMap Node.uses).map (fun u => (u.ident.name, u.slot.target?)) =
        [("later", some (.declared .func ⟨7⟩)), ("int", some (.primitive "int")),
          ("n", some (.declared .param ⟨5⟩)), ("T", some (.declared .typeParam ⟨9⟩)),
          ("item", some (.declared .field ⟨11⟩)), ("T", some (.declared .typeParam ⟨9⟩)),
          ("later", some (.declared .func ⟨7⟩))] := by
  have htest : readsTo ⟨0⟩ "val a = later(1)
func later(n: int) => n
class Box<T> {
val item: T
func get() => item
func set(later: T) => ::later(2)
}" (fun _ p =>
        !Diagnostic.anyError p.diagnostics &&
        ((boundModule p.stmts).flatMap Node.uses).map (fun u => (u.ident.name, u.slot.target?)) =
          [("later", some (.declared .func ⟨7⟩)), ("int", some (.primitive "int")),
            ("n", some (.declared .param ⟨5⟩)), ("T", some (.declared .typeParam ⟨9⟩)),
            ("item", some (.declared .field ⟨11⟩)), ("T", some (.declared .typeParam ⟨9⟩)),
            ("later", some (.declared .func ⟨7⟩))]) = true := by
    decide +kernel
  obtain ⟨lexed, p, hlex, hparse, htest⟩ := exists_of_readsTo htest
  obtain ⟨free, huses⟩ := Bool.and_eq_true_iff.1 htest
  obtain ⟨r, hr, hstmts⟩ := resolve_lexical hparse (by simpa using free)
  exact ⟨lexed, p, r, hlex, hparse, hr, hstmts, hstmts ▸ of_decide_eq_true huses⟩

end FrontEnd
