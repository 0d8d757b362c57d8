import FrontEnd.Proofs.States
import FrontEnd.Proofs.Following.Relabeling

/-!
# Comparing two runs of the parser

Many properties of the parser compare two of its runs: on a text and on a longer one, on tokens at
other places, or on one text. What differs is which states are taken for alike, and when a run is
given up. A `Comparison` says so, and that every single step of the parser keeps to it. The parsers
of the grammar are put together from these steps once, for all comparisons.

At the end of the left text the right one may go on. A parser keeps a firm grip if the states are
alike even there; a slack grip allows them to drift apart. Behind an expression whose last condition
has no second branch the grip may be slack: an `else` on the right would belong to the condition.
-/

namespace FrontEnd

/-- How much is known at the end of the left text. -/
inductive Grip where
  /-- The states are linked. -/
  | firm
  /-- Nothing is known of the right state. -/
  | slack
deriving DecidableEq

/-- A grip that is firm is not slack. -/
theorem Grip.firm_elim {P : Prop} (h : Grip.firm = .slack) : P := nomatch h

/-- No state: two runs that end together are never at the end of the left text alone. -/
def ParserState.Never (_ : ParserState) : Prop := False

namespace ParserState.Never

variable {s s' : ParserState}

/-- Nothing would be left of the text. -/
theorem rest (h : s.Never) : s.rest = [] := h.elim

/-- This does not change on the way. -/
theorem onward (h : s.Never) (_ : s.Onward s') : s'.Never := h

/-- Nor does it hang on whether a brace may follow. -/
theorem setBrace (brace : Bool) : { s with allowsBrace := brace }.Never ↔ s.Never := Iff.rfl

end ParserState.Never

/-- Equal bounds are counted down together. -/
theorem exists_pred_eq {n m : Nat} (h : n + 1 = m) : ∃ m', m = m' + 1 ∧ n = m' :=
  ⟨n, h.symm, rfl⟩

/-- What the parser goes on behind in the same statement: an operand, a type or the end of a group
is missing, an operator is only reserved, or a constructor is out of place. -/
def SyntaxProblem.isGap : SyntaxProblem → Bool
  | .expected what _ => what ∈ ["expression", "type", Parse.quoted (.symbol .rParen),
      Parse.quoted (.symbol .rBracket)]
  | .customOperator | .misplacedInit => true
  | _ => false

/-- Whether there is nothing in the place of a part. -/
def Node.isAbsent : {c : Category} → Node c → Bool
  | _, absent => true
  | _, _ => false

/-- Whether an expression ends with a condition that has no second branch, so that an `else` behind
it would belong to this condition. -/
def Node.dangles : {c : Category} → Node c → Bool
  | _, present node => node.dangles
  | _, expr _ form => form.dangles
  | _, assign _ _ value => value.dangles
  | _, binary _ _ right => right.dangles
  | _, unary _ operand => operand.dangles
  | _, cond _ _ negative => negative.isAbsent || negative.dangles
  | _, lambda _ _ body => body.dangles
  | _, break_ value => value.dangles
  | _, return_ value => value.dangles
  | _, throw value => value.dangles
  | _, spread inner => inner.dangles
  | _, _ => false

/-- Whether nothing is there does not depend on numbers and places. -/
theorem Node.isAbsent_relabel (r : Relabeling) {c : Category} (n : Node c) :
    (n.relabel r).isAbsent = n.isAbsent := by
  cases n <;> rfl

/-- Neither does what an expression ends with. -/
theorem Node.dangles_relabel (r : Relabeling) {c : Category} (n : Node c) :
    (n.relabel r).dangles = n.dangles := by
  induction n with
  | cond condition positive negative _ _ ih =>
    change ((negative.relabel r).isAbsent || (negative.relabel r).dangles) = _
    rw [negative.isAbsent_relabel, ih]
    rfl
  | _ => first | rfl | assumption

/-- Expressions that are alike end alike. -/
theorem Likeness.Alike.dangles {l : Likeness} {c : Category} {n n' : Node c} (h : l.Alike n n') :
    n.dangles = n'.dangles := by
  rw [← Node.dangles_relabel l.left n, ← Node.dangles_relabel l.right n']
  exact congrArg Node.dangles h

/-- When two runs of the parser are taken for the same. -/
structure Comparison where
  /-- When results are taken for the same. -/
  like : Likeness
  /-- When states are taken for the same. -/
  Linked : ParserState → ParserState → Prop
  /-- The states of the left run from which nothing has to be shown any more. -/
  Lost : ParserState → Prop
  /-- The states in which the left run is at its end while the right one goes on. -/
  Ended : ParserState → Prop
  /-- The failures with which the left run is given up. -/
  Given : SyntaxError → ParserState → Prop
  /-- When failures are taken for the same. -/
  Errors : SyntaxError → SyntaxError → Prop
  /-- The problems that are compared where they are recorded. -/
  Records : SyntaxProblem → Prop
  /-- Whether what stands between braces is compared. -/
  braces : Prop
  /-- The bounds on the two runs. -/
  Bounds : Nat → Nat → Prop
  /-- The grip behind a condition without a second branch. -/
  tail : Grip
  eof : ∀ {s t : ParserState}, Linked s t → s.final.kind = .eof
  /-- What is lost stays so, unless groups are closed at the end of the text. -/
  lost_onward : ∀ {s s' : ParserState}, Lost s → s.Onward s' →
    (s.rest = [] → s'.groups = s.groups) → Lost s'
  /-- A run that is lost is given up where it fails. -/
  lost_given : ∀ {s s' : ParserState} {e : SyntaxError}, Lost s → s.Onward s' →
    (s'.rest = [] → e.isFatal = true) → Given e s'
  ended_rest : ∀ {s : ParserState}, Ended s → s.rest = []
  ended_onward : ∀ {s s' : ParserState}, Ended s → s.Onward s' → Ended s'
  ended_given : ∀ {s : ParserState} {e : SyntaxError}, Ended s → e.isFatal = true → Given e s
  /-- A text that ends inside a group is lost. -/
  ended_lost : ∀ {s : ParserState}, Ended s → s.groups ≠ [] → Lost s
  /-- The tokens at hand are alike, but for the end of the left text. -/
  current : ∀ {s t : ParserState}, Linked s t → ¬Ended s → like.Alike s.current t.current
  /-- There a line break is at hand on the right. -/
  kind_ended : ∀ {s t : ParserState}, Linked s t → Ended s → t.kind = .newline
  /-- Tokens that go on with a statement are seen alike behind line breaks, but for an `else` that
  only the right text goes on with. -/
  ahead : ∀ {s t : ParserState} {k : TokenKind}, Linked s t → k.continues = true →
    (s.kindAfterNewlines = k ↔ t.kindAfterNewlines = k) ∨
      k = .keyword .else_ ∧ tail = .slack ∧ Ended s
  /-- A label is seen alike. -/
  label : ∀ {s t : ParserState}, Linked s t →
    (s.kind.isIdent = true ∧ s.nextKind = .symbol .colon ↔
      t.kind.isIdent = true ∧ t.nextKind = .symbol .colon)
  /-- So is the operator in front of an operand. -/
  prefixOp : ∀ {s t : ParserState}, Linked s t → ¬Ended s →
    PrefixOp.ofTokens? t.kind t.nextKind = PrefixOp.ofTokens? s.kind s.nextKind
  brace : ∀ {s t : ParserState}, Linked s t → t.allowsBrace = s.allowsBrace
  half : ∀ {s t : ParserState}, Linked s t → t.halfShift = s.halfShift
  /-- Places since some start are alike. -/
  spanFrom : ∀ {s t : ParserState} {start start' : Span}, Linked s t → like.Alike start start' →
    like.Alike (s.spanFrom start) (t.spanFrom start')
  /-- A token inside its group is stepped over. -/
  advance : ∀ {s t : ParserState}, Linked s t → s.rest ≠ [] →
    s.kind.isOpening = false ∧ s.kind.isClosing = false →
    Lost s.advance ∨ Linked s.advance t.advance
  /-- A group is entered through its opening delimiter. -/
  enter : ∀ {s t : ParserState} {ignored : Bool}, Linked s t → s.rest ≠ [] →
    s.kind.isOpening = true → (s.kind ≠ .symbol .lBrace → ignored = true) →
    Lost (s.advance.openGroup ignored) ∨
      Linked (s.advance.openGroup ignored) (t.advance.openGroup ignored)
  /-- What stands between braces may be left out. -/
  braced : ∀ {s t : ParserState} {ignored : Bool}, ¬braces → Linked s t → s.rest ≠ [] →
    s.kind = .symbol .lBrace → Lost (s.advance.openGroup ignored)
  /-- A group is left through its closing delimiter. -/
  leave : ∀ {s t : ParserState}, Linked s t → s.rest ≠ [] → s.kind.isClosing = true →
    s.groups ≠ [] → Lost s.closeGroup.advance ∨ Linked s.closeGroup.advance t.closeGroup.advance
  /-- A group is left without it, which is an error. -/
  drop : ∀ {s t : ParserState}, Linked s t → s.groups ≠ [] →
    (∀ e, Lost (s.closeGroup.record e) ∧ Given e s.closeGroup) ∨ Linked s.closeGroup t.closeGroup
  /-- Separators are stepped over. -/
  skip : ∀ {s t : ParserState} {p : TokenKind → Bool}, Linked s t → p .newline = true →
    (∀ k, p k = true → k.isOpening = false ∧ k.isClosing = false) →
    Ended (s.skipWhile p) ∨ Linked (s.skipWhile p) (t.skipWhile p)
  setBrace : ∀ {s t : ParserState} (brace : Bool), Linked s t →
    Linked { s with allowsBrace := brace } { t with allowsBrace := brace }
  /-- A brace that is not allowed any more does not bring a state back. -/
  lost_setBrace : ∀ {s : ParserState} (brace : Bool), Lost { s with allowsBrace := brace } ↔ Lost s
  ended_setBrace : ∀ {s : ParserState} (brace : Bool),
    Ended { s with allowsBrace := brace } ↔ Ended s
  given_setBrace : ∀ {s : ParserState} {e : SyntaxError} (brace : Bool),
    Given e { s with allowsBrace := brace } ↔ Given e s
  setHalf : ∀ {s t : ParserState} (half : Bool), Linked s t →
    Linked { s with halfShift := half } { t with halfShift := half }
  /-- Numbers are given out alike. -/
  number : ∀ {s t : ParserState}, Linked s t → like.Alike (⟨s.nextId⟩ : NodeId) ⟨t.nextId⟩ ∧
    Linked { s with nextId := s.nextId + 1 } { t with nextId := t.nextId + 1 }
  /-- Failures at the tokens at hand are the same. -/
  throws : ∀ {s t : ParserState} (problem : SyntaxProblem), Linked s t → ¬Ended s →
    Given ⟨problem, s.current.span⟩ s ∨
      Errors ⟨problem, s.current.span⟩ ⟨problem, t.current.span⟩
  errors_fatal : ∀ {e e' : SyntaxError}, Errors e e' → e'.isFatal = e.isFatal
  /-- Warnings are given alike. -/
  warn : ∀ {s t : ParserState} {span span' : Span} (text : String), Linked s t →
    like.Alike span span' → Linked (s.report (.warning text span)) (t.report (.warning text span'))
  /-- Problems are recorded alike. -/
  record : ∀ {s t : ParserState} {problem : SyntaxProblem} {span span' : Span}, Records problem →
    Linked s t → like.Alike span span' → Lost (s.record ⟨problem, span⟩) ∨
      Linked (s.record ⟨problem, span⟩) (t.record ⟨problem, span'⟩)
  /-- The gaps in a statement are compared always, and all problems where braces are. -/
  gaps : ∀ {problem : SyntaxProblem}, problem.isGap = true ∨ braces → Records problem
  /-- Failures are recorded alike. -/
  recordError : ∀ {s t : ParserState} {e e' : SyntaxError}, braces → Linked s t → Errors e e' →
    Lost (s.record e) ∨ Linked (s.record e) (t.record e')
  given_record : ∀ {s : ParserState} {e : SyntaxError}, braces → Given e s → e.isFatal = false →
    Lost (s.record e)
  /-- A statement is ended alike. -/
  settle : ∀ {s t before before' : ParserState}, braces → Linked before before' → Linked s t →
    Lost (s.settle before) ∨ Ended (s.settle before) ∨ Linked (s.settle before) (t.settle before')
  /-- Too many errors are found alike. -/
  full : ∀ {s t : ParserState}, braces → Linked s t → ¬Lost s →
    (maxErrors ≤ t.errorCount ↔ maxErrors ≤ s.errorCount)
  /-- A brace that was recorded as an error is stepped over. -/
  bump : ∀ {s t : ParserState} (e e' : SyntaxError), braces →
    Linked (s.record e) (t.record e') → Lost (s.record e).bump ∨ Ended (s.record e).bump ∨
      Linked (s.record e).bump (t.record e').bump
  bounds_succ : ∀ {n m : Nat}, Bounds (n + 1) m → ∃ m', m = m' + 1 ∧ Bounds n m'
  bounds_zero : ∀ {m : Nat}, Bounds 0 m → m = 0 ∨ ∀ s e, e.isFatal = true → Given e s

namespace Comparison

variable (K : Comparison)

/-- The grip behind an expression that may end with a condition. -/
def gripOf : Bool → Grip
  | true => K.tail
  | false => .firm

variable {K} in
/-- It is slack only where it may be. -/
theorem gripOf_tail {dangles : Bool} (h : K.gripOf dangles = .slack) : K.tail = .slack := by
  cases dangles with
  | true => exact h
  | false => cases h

variable {K} in
/-- It is firm where no second branch may follow. -/
theorem gripOf_firm {dangles : Bool} (h : dangles = true → K.tail = .firm) :
    K.gripOf dangles = .firm := by
  cases dangles with
  | true => exact h rfl
  | false => rfl

/-- The grip behind a node. -/
abbrev behind {c : Category} (n : Node c) : Grip := K.gripOf n.dangles

/-- The comparison of what stands between braces: nothing has to be shown there if braces are left
out. -/
def inside : Comparison where
  like := K.like
  Linked := K.Linked
  Lost s := K.Lost s ∨ ¬K.braces
  Ended := K.Ended
  Given e s := K.Given e s ∨ ¬K.braces
  Errors := K.Errors
  Records problem := K.Records problem ∨ ¬K.braces
  braces := True
  Bounds := K.Bounds
  tail := K.tail
  eof := K.eof
  lost_onward hlost on hgroups := hlost.imp_left fun h => K.lost_onward h on hgroups
  lost_given hlost on hfatal := hlost.imp_left fun h => K.lost_given h on hfatal
  ended_rest := K.ended_rest
  ended_onward := K.ended_onward
  ended_given hended hfatal := Or.inl (K.ended_given hended hfatal)
  ended_lost hended hgroups := Or.inl (K.ended_lost hended hgroups)
  current := K.current
  kind_ended := K.kind_ended
  ahead := K.ahead
  label := K.label
  prefixOp := K.prefixOp
  brace := K.brace
  half := K.half
  spanFrom := K.spanFrom
  advance h hrest hkind := (K.advance h hrest hkind).imp_left Or.inl
  enter h hrest hkind hignored := (K.enter h hrest hkind hignored).imp_left Or.inl
  braced hbraces := absurd trivial hbraces
  leave h hrest hkind hgroups := (K.leave h hrest hkind hgroups).imp_left Or.inl
  drop h hgroups := (K.drop h hgroups).imp_left fun hdrop e => (hdrop e).imp Or.inl Or.inl
  skip := K.skip
  setBrace := K.setBrace
  lost_setBrace brace := or_congr_left (K.lost_setBrace brace)
  ended_setBrace := K.ended_setBrace
  given_setBrace brace := or_congr_left (K.given_setBrace brace)
  setHalf := K.setHalf
  number := K.number
  throws problem h hended := (K.throws problem h hended).imp_left Or.inl
  errors_fatal := K.errors_fatal
  warn := K.warn
  record hrecords h hspan := by
    rcases hrecords with hrecords | hbraces
    · exact (K.record hrecords h hspan).imp_left Or.inl
    · exact Or.inl (Or.inr hbraces)
  gaps _ := by
    by_cases hbraces : K.braces
    · exact Or.inl (K.gaps (Or.inr hbraces))
    · exact Or.inr hbraces
  recordError _ h he := by
    by_cases hbraces : K.braces
    · exact (K.recordError hbraces h he).imp_left Or.inl
    · exact Or.inl (Or.inr hbraces)
  given_record _ hgiven hfatal := by
    by_cases hbraces : K.braces
    · exact Or.inl (K.given_record hbraces (hgiven.resolve_right (absurd hbraces)) hfatal)
    · exact Or.inr hbraces
  settle _ h₀ h := by
    by_cases hbraces : K.braces
    · exact (K.settle hbraces h₀ h).imp_left Or.inl
    · exact Or.inl (Or.inr hbraces)
  full _ h hlost := by
    obtain ⟨hlost, hbraces⟩ := not_or.1 hlost
    exact K.full (not_not.1 hbraces) h hlost
  bump e e' _ h := by
    by_cases hbraces : K.braces
    · exact (K.bump e e' hbraces h).imp_left Or.inl
    · exact Or.inl (Or.inr hbraces)
  bounds_succ := K.bounds_succ
  bounds_zero h := (K.bounds_zero h).imp_right fun hgiven s e hfatal => Or.inl (hgiven s e hfatal)

variable {K} {s t : ParserState}

/-- The tokens at hand are of the same kind, but for the end of the left text. -/
theorem Linked.kind (h : K.Linked s t) (hended : ¬K.Ended s) : t.kind = s.kind :=
  (Likeness.Alike.kind (K.current h hended)).symm

/-- They are at places that are alike. -/
theorem Linked.span (h : K.Linked s t) (hended : ¬K.Ended s) :
    K.like.Alike s.current.span t.current.span :=
  Likeness.Alike.span (K.current h hended)

/-- At the end of the left text the end mark is at hand. -/
theorem Linked.kind_eof (h : K.Linked s t) (hended : K.Ended s) : s.kind = .eof :=
  ParserState.kind_of_rest_nil (K.eof h) (K.ended_rest hended)

end Comparison

end FrontEnd
