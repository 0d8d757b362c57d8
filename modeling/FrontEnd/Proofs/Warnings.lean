import FrontEnd.Proofs.Tracing.Files

/-!
# Warnings about parentheses

The parser warns about parentheses before their node is made, and it may still give up what it has
read. In a text that is read without errors nothing is given up: there is one warning for every
expression in needless parentheses that stands in the tree in the end, and nothing else is reported.
-/

namespace FrontEnd

/-- The warning about an expression in needless parentheses, with the number of this expression. -/
def Node.parenWarning? : {c : Category} → Node c → Option (NodeId × Diagnostic)
  | _, expr o form => form.remark?.map fun text => (o.id, .warning text o.span)
  | _, _ => none

/-- The warnings about the expressions in some statements, at any depth. -/
def parenWarnings (stmts : List Stmt) : List (NodeId × Diagnostic) :=
  stmts.flatMap fun s => s.collect Node.parenWarning? []

/-- The warning in a note, with the number beside it. -/
def Note.numberedWarning? (a : Note) : Option (NodeId × Diagnostic) := a.warning?.map (a.id, ·)

/-- The warnings about statements are those noted of their nodes. -/
theorem parenWarnings_eq (stmts : List Stmt) :
    parenWarnings stmts = (Node.ofList stmts).notes.filterMap Note.numberedWarning? := by
  have hwarning {c : Category} (n : Node c) :
      n.parenWarning? = n.note?.bind Note.numberedWarning? := by
    cases n <;> try rfl
    rename_i o form
    cases h : form.remark? <;>
      simp [Node.parenWarning?, Node.note?, Node.number?, Node.warning?, Note.numberedWarning?, h]
  exact (Node.collect_ofList _ (fun ns => by cases ns <;> rfl) stmts).symm.trans
    (Node.collect_filterMap Node.note? hwarning _).symm

/-- **Warnings are exact.** In a file that is read to its end without errors, what is reported are
the warnings about its expressions in needless parentheses, one for each of them, in the order of
their numbers. -/
theorem parse_warnings {file : FileId} {tokens : List Token} {p : Parsed}
    (h : parse file tokens = .ok p) (free : Diagnostic.anyError p.diagnostics = false) :
    p.diagnostics = (parenWarnings p.stmts).map Prod.snd ∧
      (parenWarnings p.stmts).Pairwise fun a b => a.1.index < b.1.index := by
  obtain ⟨s, hdiagnostics, -, htraced⟩ := traced_of_parse h
  have hfree : s.ErrorFree := by
    unfold ParserState.ErrorFree
    rwa [hdiagnostics]
  have hnotes : ((Node.ofList p.stmts).traceAfter .empty).notes = (Node.ofList p.stmts).notes :=
    Node.notes_traceAfter _ _
  have hwarned := htraced.warned hfree
  have hincreasing := htraced.increasing
  rw [hnotes] at hwarned hincreasing
  rw [parenWarnings_eq]
  refine ⟨?_, List.pairwise_filterMap.2 (hincreasing.imp fun {a b} hlt => ?_)⟩
  · rw [← hdiagnostics, hwarned, List.map_filterMap]
    congr 1
    funext a
    cases a with
    | mk id warning? => cases warning? <;> rfl
  · intro x hx y hy
    obtain ⟨_, -, rfl⟩ := Option.map_eq_some_iff.1 hx
    obtain ⟨_, -, rfl⟩ := Option.map_eq_some_iff.1 hy
    exact hlt

/-- Parentheses in parentheses, around an argument and around an operand. The ones that group a sum
are needed. -/
theorem parse_warnings_nested : ∃ lexed p,
    lex ⟨0⟩ "val x = f(((1)))\nx + (y) * (1 + (2))" = .ok lexed ∧
      parse ⟨0⟩ lexed.tokens = .ok p ∧ p.diagnostics.length = 4 ∧
      p.diagnostics = (parenWarnings p.stmts).map Prod.snd ∧
      (parenWarnings p.stmts).Pairwise fun a b => a.1.index < b.1.index := by
  obtain ⟨lexed, p, hlex, hparse, htest⟩ := exists_of_readsTo
    (show readsTo ⟨0⟩ "val x = f(((1)))\nx + (y) * (1 + (2))" (fun _ p =>
      !Diagnostic.anyError p.diagnostics && p.diagnostics.length == 4) = true by decide +kernel)
  rw [Bool.and_eq_true, Bool.not_eq_true', beq_iff_eq] at htest
  exact ⟨lexed, p, hlex, hparse, htest.2, parse_warnings hparse htest.1⟩

end FrontEnd
