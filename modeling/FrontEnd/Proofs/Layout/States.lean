import FrontEnd.Proofs.Following.Comparison

/-!
# Runs that do not look at places

Tokens, nodes and diagnostics carry the places of the text they stand for. All of them can be
forgotten. No step of the parser depends on them: it does the same in two states that are equal but
for the places, and the states behind it are so again.
-/

namespace FrontEnd

/-- A value without its places. -/
abbrev unplace {α : Type} [Labeled α] (a : α) : α := Labeled.relabel .unplaced a

/-- A diagnostic without its places. -/
def Diagnostic.unplaced : Diagnostic → Diagnostic
  | message severity text _ => message severity text default
  | linked severity text _ linkText _ => linked severity text default linkText default
  | helped inner help => helped inner.unplaced help

/-- A syntax error without its place. -/
def SyntaxError.unplaced (e : SyntaxError) : SyntaxError := ⟨e.problem, default⟩

/-- A state of the parser without its places. -/
def ParserState.unplaced (s : ParserState) : ParserState :=
  { s with
    rest := unplace s.rest
    final := unplace s.final
    lastSpan := default
    diagnostics := s.diagnostics.map Diagnostic.unplaced }

section Places

/-- How grave a diagnostic is does not depend on its places. -/
theorem Diagnostic.isError_unplaced (d : Diagnostic) : d.unplaced.isError = d.isError := by
  have hseverity : d.unplaced.severity = d.severity := by
    induction d with
    | message => rfl
    | linked => rfl
    | helped inner help ih => exact ih
  unfold Diagnostic.isError
  rw [hseverity]

/-- What an error says does not depend on its place. -/
theorem SyntaxError.toDiagnostic_unplaced (e : SyntaxError) :
    e.unplaced.toDiagnostic = e.toDiagnostic.unplaced := by
  have hhint : e.unplaced.hint? = e.hint? := rfl
  unfold SyntaxError.toDiagnostic
  rw [hhint]
  cases e.hint? <;> rfl

end Places

namespace ParserState

variable (s : ParserState)

/-- The token at hand without its place. -/
theorem current_unplaced : s.unplaced.current = unplace s.current := by
  obtain ⟨rest, _⟩ := s
  cases rest <;> rfl

/-- It is of the same kind. -/
theorem kind_unplaced : s.unplaced.kind = s.kind :=
  (congrArg Token.kind s.current_unplaced :)

/-- So is the token behind it. -/
theorem nextKind_unplaced : s.unplaced.nextKind = s.nextKind := by
  obtain ⟨rest, _⟩ := s
  rcases rest with _ | ⟨first, _ | ⟨second, rest⟩⟩ <;> rfl

/-- Which tokens are stepped over depends on their kinds. -/
theorem dropWhile_unplace (p : TokenKind → Bool) (tokens : List Token) :
    (unplace tokens).dropWhile (p ·.kind) = unplace (tokens.dropWhile (p ·.kind)) :=
  List.dropWhile_map

/-- So do the tokens that are stepped over. -/
theorem takeWhile_unplace (p : TokenKind → Bool) (tokens : List Token) :
    (unplace tokens).takeWhile (p ·.kind) = unplace (tokens.takeWhile (p ·.kind)) :=
  List.takeWhile_map

/-- Behind line breaks there is a token of the same kind. -/
theorem kindAfterNewlines_unplaced : s.unplaced.kindAfterNewlines = s.kindAfterNewlines := by
  have hrest := dropWhile_unplace (· = .newline) s.rest
  unfold kindAfterNewlines
  change (((unplace s.rest).dropWhile _).head?.getD _).kind = _
  rw [hrest]
  cases s.rest.dropWhile (·.kind = .newline) <;> rfl

/-- A token is stepped over. -/
theorem bump_unplaced : s.unplaced.bump = s.bump.unplaced := by
  obtain ⟨rest, _⟩ := s
  cases rest <;> rfl

/-- So are tokens of some kinds. -/
theorem skipWhile_unplaced (p : TokenKind → Bool) :
    s.unplaced.skipWhile p = (s.skipWhile p).unplaced := by
  have hlast (tokens : List Token) :
      ((unplace tokens).getLast?.map (·.span)).getD default = (default : Span) := by
    change ((tokens.map _).getLast?.map _).getD default = _
    rw [List.getLast?_map]
    cases tokens.getLast? <;> rfl
  have hrest : s.unplaced.rest = unplace s.rest := rfl
  have hspan : s.unplaced.lastSpan = default := rfl
  unfold skipWhile
  rw [hrest, hspan, takeWhile_unplace, hlast, dropWhile_unplace]
  rfl

/-- A token is read, with the line breaks behind it where they have no meaning. -/
theorem advance_unplaced : s.unplaced.advance = s.advance.unplaced := by
  have hgroups : s.unplaced.groups = s.groups := rfl
  unfold advance skipNewlines
  dsimp only
  rw [hgroups, bump_unplaced, skipWhile_unplaced]
  split <;> rfl

/-- A group is entered. -/
theorem openGroup_unplaced (ignored : Bool) :
    s.unplaced.openGroup ignored = (s.openGroup ignored).unplaced := by
  cases ignored with
  | true =>
    let inside : ParserState :=
      { s with groups := ⟨true, s.allowsBrace⟩ :: s.groups, allowsBrace := true }
    exact inside.skipWhile_unplaced (· = .newline)
  | false => rfl

/-- It is left. -/
theorem closeGroup_unplaced : s.unplaced.closeGroup = s.closeGroup.unplaced := by
  obtain ⟨_, _, _, groups, _⟩ := s
  cases groups <;> rfl

/-- A diagnostic is added. -/
theorem report_unplaced (d : Diagnostic) :
    s.unplaced.report d.unplaced = (s.report d).unplaced := by
  unfold report unplaced
  rw [List.map_append]
  rfl

/-- So is an error. -/
theorem record_unplaced (e : SyntaxError) :
    s.unplaced.record e.unplaced = (s.record e).unplaced := by
  unfold record
  rw [SyntaxError.toDiagnostic_unplaced, report_unplaced]

/-- There are as many errors. -/
theorem errorCount_unplaced : s.unplaced.errorCount = s.errorCount := by
  change (s.diagnostics.map Diagnostic.unplaced).countP Diagnostic.isError = _
  rw [List.countP_map]
  exact List.countP_congr fun d _ => by rw [Function.comp_apply, Diagnostic.isError_unplaced]

/-- That something else was expected is said alike. -/
theorem expectedError_unplaced (what : String) :
    s.unplaced.expectedError what = (s.expectedError what).unplaced := by
  unfold expectedError
  rw [kind_unplaced, current_unplaced]
  rfl

/-- A boundary is found by the kinds of tokens. -/
theorem boundary_unplace (depth : Nat) (tokens : List Token) :
    boundary depth (unplace tokens) = boundary depth tokens := by
  have hkinds : (unplace tokens).map (·.kind) = tokens.map (·.kind) := List.map_map
  exact boundary_kinds hkinds depth

/-- Several tokens are stepped over. -/
theorem bumpBy_unplaced (n : Nat) : s.unplaced.bumpBy n = (s.bumpBy n).unplaced := by
  induction n generalizing s with
  | zero => rfl
  | succ n ih =>
    unfold bumpBy
    rw [bump_unplaced, ih]

/-- Reading goes on at the same boundary. -/
theorem synchronize_unplaced (before : ParserState) :
    s.unplaced.synchronize before.unplaced = (s.synchronize before).unplaced := by
  have hlength (s : ParserState) : s.unplaced.rest.length = s.rest.length := List.length_map _
  have hboundary (s : ParserState) :
      s.unplaced.bumpBy (boundary 0 s.unplaced.rest) = (s.bumpBy (boundary 0 s.rest)).unplaced := by
    rw [bumpBy_unplaced]
    exact congrArg (fun n => (s.bumpBy n).unplaced) (boundary_unplace 0 s.rest)
  unfold synchronize
  dsimp only
  rw [hlength, hlength, bump_unplaced]
  split
  · exact hboundary s.bump
  · exact hboundary s

/-- The end of a statement is asked for. -/
theorem terminate_unplaced (before : ParserState) :
    s.unplaced.terminate before.unplaced = (s.terminate before).unplaced := by
  unfold terminate
  rw [kind_unplaced, skipWhile_unplaced, expectedError_unplaced, record_unplaced,
    synchronize_unplaced]
  split
  · rfl
  · split <;> rfl

/-- A statement is ended. -/
theorem settle_unplaced (before : ParserState) :
    s.unplaced.settle before.unplaced = (s.settle before).unplaced := by
  unfold settle
  rw [errorCount_unplaced, errorCount_unplaced, terminate_unplaced]
  split
  · exact synchronize_unplaced (s.restore before) before
  · rfl

end ParserState

/-- Two states that are the same but for their places. -/
def SamePlaced (s t : ParserState) : Prop := s.final.kind = .eof ∧ s.unplaced = t.unplaced

namespace SamePlaced

variable {s t : ParserState}

/-- What can be seen of a state without its places is the same. -/
theorem view {α : Type} (h : SamePlaced s t) {f : ParserState → α}
    (hf : ∀ s, f s.unplaced = f s) : f s = f t := by
  rw [← hf s, h.2, hf t]

/-- A step that does not look at places is done alike. -/
theorem step (h : SamePlaced s t) {f : ParserState → ParserState}
    (hf : ∀ s, f s.unplaced = (f s).unplaced) (eof : (f s).final.kind = .eof) :
    SamePlaced (f s) (f t) :=
  ⟨eof, by rw [← hf s, h.2, hf t]⟩

end SamePlaced

/-- The comparison of states that are the same but for their places. Nothing is left out, and no run
is given up. -/
@[reducible] def unplacedComparison : Comparison where
  like := .unplaced
  Linked := SamePlaced
  Lost _ := False
  Ended := ParserState.Never
  Given _ _ := False
  Errors e e' := e.unplaced = e'.unplaced
  Records _ := True
  braces := True
  Bounds n m := n = m
  tail := .firm
  eof h := h.1
  lost_onward h := h.elim
  lost_given h := h.elim
  ended_rest := ParserState.Never.rest
  ended_onward := ParserState.Never.onward
  ended_given h := h.elim
  ended_lost h := h.elim
  current {s t} h _ := by
    have hsame := congrArg ParserState.current h.2
    rwa [s.current_unplaced, t.current_unplaced] at hsame
  kind_ended _ hended := hended.elim
  ahead h _ := Or.inl (by rw [h.view ParserState.kindAfterNewlines_unplaced])
  label h := by rw [h.view ParserState.kind_unplaced, h.view ParserState.nextKind_unplaced]
  prefixOp h _ := by rw [h.view ParserState.kind_unplaced, h.view ParserState.nextKind_unplaced]
  brace h := (h.view (f := (·.allowsBrace)) fun _ => rfl).symm
  half h := (h.view (f := (·.halfShift)) fun _ => rfl).symm
  spanFrom _ _ := rfl
  advance {s _} h _ _ := Or.inr (h.step ParserState.advance_unplaced (s.advance_onward.final ▸ h.1))
  enter {s _ ignored} h _ _ _ := by
    have hadvance := h.step ParserState.advance_unplaced (s.advance_onward.final ▸ h.1)
    exact Or.inr (hadvance.step (f := (·.openGroup ignored)) (·.openGroup_unplaced ignored)
      ((s.advance.openGroup_onward ignored).final ▸ hadvance.1))
  braced hbraces := absurd trivial hbraces
  leave {s _} h _ _ _ := by
    have hclose := h.step ParserState.closeGroup_unplaced (s.closeGroup_onward.final ▸ h.1)
    exact Or.inr (hclose.step ParserState.advance_unplaced
      (s.closeGroup.advance_onward.final ▸ hclose.1))
  drop {s _} h _ :=
    Or.inr (h.step ParserState.closeGroup_unplaced (s.closeGroup_onward.final ▸ h.1))
  skip {_ _ p} h _ _ := Or.inr (h.step (f := (·.skipWhile p)) (·.skipWhile_unplaced p) h.1)
  setBrace brace h := h.step (f := fun s => { s with allowsBrace := brace }) (fun _ => rfl) h.1
  lost_setBrace _ := Iff.rfl
  ended_setBrace := ParserState.Never.setBrace
  given_setBrace _ := Iff.rfl
  setHalf half h := h.step (f := fun s => { s with halfShift := half }) (fun _ => rfl) h.1
  number h := by
    refine ⟨congrArg NodeId.mk (h.view (f := (·.nextId)) fun _ => rfl), ?_⟩
    exact h.step (f := fun s => { s with nextId := s.nextId + 1 }) (fun _ => rfl) h.1
  throws _ _ _ := Or.inr rfl
  errors_fatal {e e'} he := by
    have hfatal : e.unplaced.isFatal = e'.unplaced.isFatal := congrArg SyntaxError.isFatal he
    exact hfatal.symm
  warn {s t span span'} text h _ := by
    refine ⟨h.1, ?_⟩
    rw [← s.report_unplaced, ← t.report_unplaced, h.2]
    rfl
  record {s t _ _ _} _ h _ := by
    refine Or.inr ⟨h.1, ?_⟩
    rw [← s.record_unplaced, ← t.record_unplaced, h.2]
    rfl
  gaps _ := trivial
  recordError {s t _ _} _ h he := by
    refine Or.inr ⟨h.1, ?_⟩
    rw [← s.record_unplaced, ← t.record_unplaced, h.2, he]
  given_record _ h := h.elim
  settle {s t before before'} _ hbefore h := by
    have hfinal : (s.settle before).final = s.final := (s.settle_onward before).final
    refine Or.inr (Or.inr ⟨hfinal ▸ h.1, ?_⟩)
    rw [← s.settle_unplaced, ← t.settle_unplaced, h.2, hbefore.2]
  full _ h _ := by rw [h.view ParserState.errorCount_unplaced]
  bump {s _} e _ _ h := Or.inr (Or.inr
    (h.step ParserState.bump_unplaced ((s.record e).bump_onward.final ▸ h.1)))
  bounds_succ := exists_pred_eq
  bounds_zero hm := Or.inl hm.symm

end FrontEnd
