import FrontEnd.Proofs.Following.Joining

/-!
# A text that is cut off

The left text breaks off behind a token of which it is only asked that it is left standing. What is
read in front of that token does not depend on what is behind it: where the left run reaches the end
of its text it is given up.
-/

namespace FrontEnd

/-- Tokens behind which a text may be cut off: what is in front of them does not ask for more than
their kind. -/
structure TokenKind.Bounds (k : TokenKind) : Prop where
  newline : k ≠ .newline
  ident : k.isIdent = false
  borrow : k ≠ .symbol .ampersand

/-- The streams of a text that breaks off behind a token of some kind. -/
def CutOff (like : Likeness) (mark : TokenKind) (behind xs ys : List Token) : Prop :=
  xs.getLast?.map (·.kind) = some mark ∧ Joined like behind xs ys

namespace CutOff

variable {like : Likeness} {mark : TokenKind} {behind xs ys : List Token}

/-- Tokens are skipped alike, up to the token at the end. -/
theorem skip (h : CutOff like mark behind xs ys) {p : TokenKind → Bool}
    (hsome : xs.dropWhile (p ·.kind) ≠ []) :
    SkippedAlike like (CutOff like mark behind) p xs ys := by
  have hskipped := h.2.skip (p := p) (Or.inl hsome)
  have hlast := congrArg List.getLast? (List.takeWhile_append_dropWhile (p := (p ·.kind)) (l := xs))
  rw [List.getLast?_append, List.getLast?_eq_some_getLast hsome, Option.some_or,
    ← List.getLast?_eq_some_getLast hsome] at hlast
  exact ⟨⟨hlast ▸ h.1, hskipped.stream⟩, hskipped.ends⟩

/-- Behind the first token the streams are cut off there too. -/
theorem tail {x y : Token} (h : CutOff like mark behind (x :: xs) (y :: ys)) (hsome : xs ≠ []) :
    CutOff like mark behind xs ys := by
  obtain ⟨x', xs, rfl⟩ := List.exists_cons_of_ne_nil hsome
  exact ⟨by rw [← h.1, List.getLast?_cons_cons], h.2.tail⟩

/-- Where tokens are left, the first one is the same. -/
theorem head (h : CutOff like mark behind xs ys) :
    xs.head?.map (·.kind) = ys.head?.map (·.kind) := by
  cases xs with
  | nil => cases h.1
  | cons x xs =>
    obtain ⟨y, ys, rfl, hkind, -⟩ := h.2.cons
    exact congrArg some hkind.symm

/-- A token that is not the one at the end has one behind it, which is the same. -/
theorem next {x y : Token} (h : CutOff like mark behind (x :: xs) (y :: ys)) (hx : x.kind ≠ mark) :
    xs.head?.map (·.kind) = ys.head?.map (·.kind) := by
  refine (h.tail ?_).head
  rintro rfl
  exact hx (Option.some.inj h.1)

end CutOff

/-- A text that is cut off is read as a longer one, up to the token at its end. -/
def Simulation.cutting (like : Likeness) (base : List Group)
    (base_plain : ignoresNewlines base = false)
    (earlier : List Diagnostic) {mark : TokenKind} (hmark : mark.Bounds) (behind : List Token) :
    Simulation where
  like := like
  base := base
  base_plain := base_plain
  extra := 0
  limit := 1
  limit_le := first_le_maxErrors
  earlier := earlier
  extended := True
  cut := True
  stream := fun _ => CutOff like mark behind
  nil := by
    rintro groups ys ⟨hlast, -⟩
    cases hlast
  cons h := h.2.cons
  move := by
    intro groups groups' x y xs ys p h hmoves hp hignored
    by_cases hend : xs.dropWhile (p ·.kind) = []
    · exact Or.inl ⟨trivial, Or.inr trivial, hend⟩
    · refine Or.inr ((h.tail ?_).skip hend)
      rintro rfl
      exact hend rfl
  skip := by
    intro groups xs ys p h hnewline hp
    by_cases hend : xs.dropWhile (p ·.kind) = []
    · exact Or.inl ⟨trivial, hend⟩
    · exact Or.inr (h.skip hend)
  label := by
    intro groups x y xs ys h hident
    rw [h.next]
    rintro rfl
    rw [hmark.ident] at hident
    cases hident
  borrow := by
    intro groups x y xs ys h hborrow
    rw [h.next]
    rintro rfl
    exact hmark.borrow hborrow
  fresh := by
    rintro groups xs ys - ⟨hlast, -⟩ hall
    obtain ⟨x, hx, hkind⟩ := Option.map_eq_some_iff.1 hlast
    exact absurd (hkind.symm.trans (hall x (List.mem_of_getLast? hx))) hmark.newline
  exact := fun h => absurd h (Nat.lt_irrefl 1)

end FrontEnd
