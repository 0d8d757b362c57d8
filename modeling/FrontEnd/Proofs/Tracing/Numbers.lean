import FrontEnd.Proofs.Tracing.Files

/-!
# Numbers of the nodes of a module

A tree whose numbers increase, those inside a node before its own, has every node numbered after
all that is inside it and its parts numbered one after the other. The parser leaves such trees
behind, whatever errors it went on after.
-/

namespace FrontEnd

namespace Node

variable {c d : Category}

/-- All numbers in one tree are smaller than those in another. -/
def Precedes (a : Node c) (b : Node d) : Prop :=
  ∀ i ∈ a.numbers, ∀ j ∈ b.numbers, i.index < j.index

/-- A node is numbered after all that is inside it, and its parts one after the other. -/
structure InOrder (n : Node c) : Prop where
  above : ∀ i ∈ n.number?, ∀ m ∈ n.parts, ∀ j ∈ m.2.numbers, j.index < i.index
  parts : n.parts.Pairwise fun a b => a.2.Precedes b.2

/-- Numbers that increase from one to the next. -/
def Increasing (ids : List NodeId) : Prop := ids.Pairwise fun i j => i.index < j.index

/-- Such numbers are all different. -/
theorem Increasing.nodup {ids : List NodeId} (h : Increasing ids) : ids.Nodup := by
  refine h.imp fun {i j} hlt heq => ?_
  rw [heq] at hlt
  exact Nat.lt_irrefl j.index hlt

/-- The numbers of a sequence are those of its nodes. -/
theorem numbers_ofList (ns : List (Node c)) : (ofList ns).numbers = ns.flatMap numbers :=
  collect_ofList number? (fun ns => by cases ns <;> rfl) ns

/-- In a tree whose numbers increase, all nodes are in order. -/
theorem forall_inOrder (n : Node c) (h : Increasing n.numbers) : n.Forall InOrder := by
  refine induction_parts (motive := fun n => Increasing n.numbers → n.Forall InOrder)
    (fun n ih h => ?_) n h
  have hnumbers : n.numbers = n.parts.flatMap (fun m => m.2.numbers) ++ n.number?.toList :=
    collect_nil number? n
  unfold Increasing at h
  rw [hnumbers, List.pairwise_append, List.pairwise_flatMap] at h
  obtain ⟨⟨hinside, hparts⟩, -, habove⟩ := h
  refine forall_of_parts ⟨fun i hi m hm j hj => ?_, hparts⟩ fun m hm => ih m hm (hinside m hm)
  exact habove j (List.mem_flatMap.2 ⟨m, hm, hj⟩) i (Option.mem_toList.2 hi)

end Node

/-- The numbers of a file increase, those inside a node before its own. -/
theorem increasing_of_parse {file : FileId} {tokens : List Token} {p : Parsed}
    (h : parse file tokens = .ok p) : Node.Increasing (p.stmts.flatMap Node.numbers) := by
  obtain ⟨s, -, -, htraced⟩ := traced_of_parse h
  have hnotes := htraced.increasing
  rw [Node.notes_traceAfter] at hnotes
  rw [← Node.numbers_ofList, Node.numbers_eq]
  exact List.pairwise_map.2 hnotes

/-- In a file that is read to its end, with or without errors, no number is given twice, every node
has a larger number than all nodes inside it, and what stands earlier has smaller numbers than what
stands later beside it. -/
theorem parse_numbered {file : FileId} {tokens : List Token} {p : Parsed}
    (h : parse file tokens = .ok p) :
    (p.stmts.flatMap Node.numbers).Nodup ∧ (∀ s ∈ p.stmts, s.Forall Node.InOrder) ∧
      p.stmts.Pairwise Node.Precedes := by
  have hincreasing := increasing_of_parse h
  obtain ⟨heach, hbeside⟩ := List.pairwise_flatMap.1 hincreasing
  exact ⟨hincreasing.nodup, fun s hs => s.forall_inOrder (heach s hs), hbeside⟩

/-- A text with an error in a block, where a stub takes the place of a list whose elements had
numbers. -/
theorem parse_numbered_broken : ∃ lexed p,
    lex ⟨0⟩ "func f(x: int) \x7b\n  val y = [x, 1; 2]\n  x\n\x7d\nf(1)" = .ok lexed ∧
      parse ⟨0⟩ lexed.tokens = .ok p ∧ Diagnostic.anyError p.diagnostics = true ∧
      (p.stmts.flatMap Node.numbers).Nodup ∧ (∀ s ∈ p.stmts, s.Forall Node.InOrder) ∧
      p.stmts.Pairwise Node.Precedes := by
  obtain ⟨lexed, p, hlex, hparse, broken⟩ := exists_of_readsTo
    (show readsTo ⟨0⟩ "func f(x: int) \x7b\n  val y = [x, 1; 2]\n  x\n\x7d\nf(1)"
      (fun _ p => Diagnostic.anyError p.diagnostics) = true by decide +kernel)
  exact ⟨lexed, p, hlex, hparse, broken, parse_numbered hparse⟩

end FrontEnd
