import FrontEnd.Grammar.Expr
import FrontEnd.Grammar.Recovery
import Mathlib.Data.List.TakeWhile

/-!
# States of the parser

What one step of the parser does to its state: tokens are read from the front, diagnostics are added
at the end, and groups are opened and closed one at a time.
-/

namespace FrontEnd

/-- No error has been recorded so far; warnings do not count. -/
def ParserState.ErrorFree (s : ParserState) : Prop := Diagnostic.anyError s.diagnostics = false

/-- Two parsers in a row have a result only if both have one. -/
theorem bind_ok {α β : Type} {p : Parser α} {f : α → Parser β} {s s' : ParserState} {b : β}
    (h : (p >>= f) s = .ok b s') : ∃ a s₁, p s = .ok a s₁ ∧ f a s₁ = .ok b s' := by
  change EStateM.bind p f s = _ at h
  unfold EStateM.bind at h
  split at h
  · rename_i a s₁ h₁
    exact ⟨a, s₁, h₁, h⟩
  · cases h

/-- Whether line breaks have no meaning inside some groups. -/
abbrev ignoresNewlines (groups : List Group) : Bool := groups.head?.any (·.ignoresNewlines)

/-- Tokens that go on with a statement even after line breaks. -/
def TokenKind.continues : TokenKind → Bool
  | .symbol .dot | .symbol .safeCall | .keyword .elif | .keyword .else_ | .keyword .catch_ => true
  | _ => false

/-- An opening delimiter is no end mark. -/
theorem ne_eof_of_isOpening {k : TokenKind} (h : k.isOpening = true) : k ≠ .eof := by
  rintro rfl
  cases h

/-- Only behind a borrow does the next token decide between operators. -/
theorem PrefixOp.ofTokens?_congr {k next next' : TokenKind}
    (h : k = .symbol .ampersand → (next' = .keyword .mut_ ↔ next = .keyword .mut_)) :
    ofTokens? k next = ofTokens? k next' := by
  unfold ofTokens?
  split <;> first | rfl | (split <;> simp_all)

/-- The span read last after some tokens were stepped over. -/
def lastSpanAfter (last : Span) (tokens : List Token) : Span :=
  (tokens.getLast?.map (·.span)).getD last

/-- It is found one token further on. -/
theorem lastSpanAfter_cons (last : Span) (x : Token) (xs : List Token) :
    lastSpanAfter last (x :: xs) = lastSpanAfter x.span xs := by
  unfold lastSpanAfter
  rw [List.getLast?_cons]
  cases xs.getLast? <;> rfl

/-- The end of the text is where the tokens end. -/
structure ParserState.Sound (s : ParserState) : Prop where
  final : s.final.kind = .eof
  rest : ∀ t ∈ s.rest, t.kind ≠ .eof

/-- The warnings given so far. -/
def ParserState.warnings (s : ParserState) : List Diagnostic := s.diagnostics.filter (!·.isError)

/-- What later states share with earlier ones. -/
structure ParserState.Onward (s s' : ParserState) : Prop where
  final : s'.final = s.final
  rest : s'.rest <:+ s.rest
  diagnostics : s.diagnostics <+: s'.diagnostics

/-- A syntax error is an error. -/
theorem SyntaxError.isError_toDiagnostic (e : SyntaxError) : e.toDiagnostic.isError = true := by
  unfold SyntaxError.toDiagnostic
  cases e.hint? <;> rfl

namespace ParserState

/-- Nothing was reported exactly if the count of errors is zero. -/
theorem errorFree_iff (s : ParserState) : s.ErrorFree ↔ s.errorCount = 0 := by
  have h := Diagnostic.anyError_iff s.diagnostics
  unfold ErrorFree errorCount
  cases hany : Diagnostic.anyError s.diagnostics with
  | false => simpa [hany, Nat.pos_iff_ne_zero] using h
  | true => simpa [hany, Nat.pos_iff_ne_zero] using h

/-- An error that is added is there. -/
theorem record_not_errorFree (e : SyntaxError) (s : ParserState) : ¬(s.record e).ErrorFree := by
  simp [ErrorFree, record, report, Diagnostic.anyError, e.isError_toDiagnostic]

/-- A state is onward from itself. -/
theorem Onward.refl (s : ParserState) : s.Onward s := ⟨rfl, List.suffix_refl _, List.prefix_refl _⟩

/-- What is onward from a later state is so from an earlier one. -/
theorem Onward.trans {s s' s'' : ParserState} (h : s.Onward s') (h' : s'.Onward s'') :
    s.Onward s'' :=
  ⟨h'.final.trans h.final, h'.rest.trans h.rest, h.diagnostics.trans h'.diagnostics⟩

/-- There are no fewer errors. -/
theorem Onward.count {s s' : ParserState} (h : s.Onward s') : s.errorCount ≤ s'.errorCount :=
  h.diagnostics.sublist.countP_le

/-- Where no error is recorded later, none was earlier. -/
theorem Onward.errorFree {s s' : ParserState} (h : s.Onward s') (free : s'.ErrorFree) :
    s.ErrorFree := by
  rw [errorFree_iff] at free ⊢
  exact Nat.le_zero.1 (free ▸ h.count)

/-- Later states are sound too. -/
theorem Onward.sound {s s' : ParserState} (h : s.Onward s') (sound : s.Sound) : s'.Sound :=
  ⟨h.final ▸ sound.final, fun t ht => sound.rest t (h.rest.subset ht)⟩

/-- The text ends with an end mark, a given one or one that is added. -/
theorem start_final (file : FileId) (tokens : List Token) :
    (start file tokens).final.kind = .eof := by
  unfold start
  dsimp only
  cases h : tokens.find? (·.kind = .eof) with
  | none => rfl
  | some t => simpa using List.find?_some h

/-- No end mark is among the tokens that are read. -/
theorem start_sound (file : FileId) (tokens : List Token) : (start file tokens).Sound where
  final := start_final file tokens
  rest := fun t ht => by simpa using List.all_eq_true.1 List.all_takeWhile t ht

/-- Behind the end of the tokens there are none. -/
theorem Onward.rest_nil {s s' : ParserState} (h : s.Onward s') (hs : s.rest = []) :
    s'.rest = [] :=
  List.suffix_nil.1 (hs ▸ h.rest)

/-- Where no token is left, the end mark is at hand. -/
theorem kind_of_rest_nil {s : ParserState} (eof : s.final.kind = .eof) (hnil : s.rest = []) :
    s.kind = .eof := by
  unfold kind current
  rw [hnil]
  exact eof

/-- Where tokens are left, the one at hand is no end mark. -/
theorem rest_ne_nil {s : ParserState} (eof : s.final.kind = .eof) (hkind : s.kind ≠ .eof) :
    s.rest ≠ [] :=
  fun hnil => hkind (kind_of_rest_nil eof hnil)

/-- In a sound state tokens are left unless the end mark is at hand. -/
theorem Sound.rest_ne_nil {s : ParserState} (h : s.Sound) (hkind : s.kind ≠ .eof) :
    s.rest ≠ [] :=
  ParserState.rest_ne_nil h.final hkind

/-- Where none are left, it is one. -/
theorem Sound.kind_eq_eof {s : ParserState} (h : s.Sound) : s.kind = .eof ↔ s.rest = [] := by
  constructor
  · intro hkind
    by_contra hsome
    obtain ⟨x, xs, hx⟩ := List.exists_cons_of_ne_nil hsome
    have hx' := h.rest x (hx ▸ List.mem_cons_self)
    unfold kind current at hkind
    rw [hx] at hkind
    exact hx' hkind
  · exact kind_of_rest_nil h.final

/-- The token behind the one at hand. -/
theorem nextKind_eq_iff {s : ParserState} {x : Token} {xs : List Token} (hrest : s.rest = x :: xs)
    (hfinal : s.final.kind = .eof) (k : TokenKind) (hk : k ≠ .eof) :
    s.nextKind = k ↔ xs.head?.map (·.kind) = some k := by
  unfold nextKind
  rw [hrest]
  cases xs with
  | nil => simp [hfinal, hk.symm]
  | cons y ys => simp

/-- Stepping over line breaks reaches the token that was seen behind them. -/
theorem skipNewlines_kind (s : ParserState) : s.skipNewlines.kind = s.kindAfterNewlines := rfl

/-- Stepping over tokens consumes only tokens of the kind. -/
theorem skipWhile_rest (p : TokenKind → Bool) (s : ParserState) :
    ∃ skipped, s.rest = skipped ++ (s.skipWhile p).rest ∧ ∀ t ∈ skipped, p t.kind = true :=
  ⟨s.rest.takeWhile (p ·.kind), List.takeWhile_append_dropWhile.symm,
    List.all_eq_true.1 List.all_takeWhile⟩

/-- Skipping tokens goes onward. -/
theorem skipWhile_onward (p : TokenKind → Bool) (s : ParserState) : s.Onward (s.skipWhile p) :=
  ⟨rfl, List.dropWhile_suffix _, List.prefix_refl _⟩

/-- So does a single token. -/
theorem bump_onward (s : ParserState) : s.Onward s.bump := by
  unfold bump
  split
  · exact .refl s
  · rename_i x xs hrest
    exact ⟨rfl, hrest ▸ List.suffix_cons x xs, List.prefix_refl _⟩

/-- Nothing is reported on the way. -/
theorem bump_kept (s : ParserState) :
    s.bump.final = s.final ∧ s.bump.diagnostics = s.diagnostics := by
  unfold bump
  split <;> exact ⟨rfl, rfl⟩

/-- So does a token with the line breaks behind it. -/
theorem advance_onward (s : ParserState) : s.Onward s.advance := by
  unfold advance
  dsimp only
  split
  · exact s.bump_onward.trans (skipWhile_onward _ _)
  · exact s.bump_onward

/-- A step consumes the token at hand, and line breaks after it. -/
theorem advance_rest {s : ParserState} {t : Token} {rest : List Token} (h : s.rest = t :: rest) :
    ∃ breaks, rest = breaks ++ s.advance.rest ∧ ∀ b ∈ breaks, b.kind = .newline := by
  have hb : s.bump.rest = rest := by simp [bump, h]
  unfold advance
  dsimp only
  split
  · obtain ⟨breaks, hrest, hbreaks⟩ := skipWhile_rest (· = .newline) s.bump
    exact ⟨breaks, hb ▸ hrest, fun b hb => of_decide_eq_true (hbreaks b hb)⟩
  · exact ⟨[], hb.symm, by simp⟩

/-- A step over a token keeps everything but the tokens and the last span. -/
theorem advance_kept (s : ParserState) :
    s.advance.final = s.final ∧ s.advance.diagnostics = s.diagnostics := by
  unfold advance bump
  dsimp only
  split <;> split <;> exact ⟨rfl, rfl⟩

/-- A step makes the next token the one at hand, unless line breaks are skipped. -/
theorem advance_kind {s : ParserState} {k : TokenKind} (eof : s.final.kind = .eof)
    (h : s.nextKind = k) (hk : k ≠ .eof ∧ k ≠ .newline) : s.advance.kind = k := by
  unfold nextKind at h
  cases hrest : s.rest with
  | nil => exact absurd ((by simpa [hrest, eof] using h) : TokenKind.eof = k).symm hk.1
  | cons t rest =>
    cases rest with
    | nil => exact absurd ((by simpa [hrest, eof] using h) : TokenKind.eof = k).symm hk.1
    | cons t' rest =>
      have ht' : t'.kind = k := by simpa [hrest] using h
      obtain ⟨breaks, hbreaks, hnewline⟩ := advance_rest hrest
      cases breaks with
      | nil => simp [kind, current, ← show _ = s.advance.rest from hbreaks, ht']
      | cons b breaks =>
        injection hbreaks with hb
        exact absurd (ht' ▸ hb ▸ hnewline b (by simp)) hk.2

/-- A token leaves the groups open. -/
theorem advance_groups (s : ParserState) : s.advance.groups = s.groups := by
  unfold advance bump
  dsimp only
  split <;> split <;> rfl

/-- It does not change whether a brace may follow. -/
theorem advance_brace (s : ParserState) : s.advance.allowsBrace = s.allowsBrace := by
  unfold advance bump
  dsimp only
  split <;> split <;> rfl

/-- Opening a group may skip line breaks, and changes no diagnostics. -/
theorem openGroup_onward (i : Bool) (s : ParserState) : s.Onward (s.openGroup i) := by
  cases i with
  | false => exact ⟨rfl, List.suffix_refl _, List.prefix_refl _⟩
  | true => exact ⟨rfl, List.dropWhile_suffix _, List.prefix_refl _⟩

/-- The new group is the innermost one, and remembers the brace flag from outside. -/
theorem openGroup_groups (i : Bool) (s : ParserState) :
    (s.openGroup i).groups = ⟨i, s.allowsBrace⟩ :: s.groups := by
  cases i <;> rfl

/-- Leaving a group keeps the tokens and the problems found. -/
theorem closeGroup_kept (s : ParserState) : s.closeGroup.final = s.final ∧
    s.closeGroup.rest = s.rest ∧ s.closeGroup.diagnostics = s.diagnostics := by
  unfold closeGroup
  split <;> exact ⟨rfl, rfl, rfl⟩

/-- Closing a group leaves the token at hand. -/
theorem closeGroup_kind (s : ParserState) : s.closeGroup.kind = s.kind := by
  obtain ⟨hfinal, hrest, -⟩ := s.closeGroup_kept
  simp [kind, current, hfinal, hrest]

/-- Closing a group reads nothing. -/
theorem closeGroup_onward (s : ParserState) : s.Onward s.closeGroup := by
  obtain ⟨hfinal, hrest, hdiag⟩ := s.closeGroup_kept
  exact ⟨hfinal, hrest ▸ List.suffix_refl _, hdiag ▸ List.prefix_refl _⟩

/-- It takes away the innermost group, if there is one. -/
theorem closeGroup_groups (s : ParserState) : s.closeGroup.groups = s.groups.drop 1 := by
  obtain ⟨_, _, _, groups, _⟩ := s
  cases groups <;> rfl

/-- A diagnostic is added at the end. -/
theorem report_onward (d : Diagnostic) (s : ParserState) : s.Onward (s.report d) :=
  ⟨rfl, List.suffix_refl _, List.prefix_append _ _⟩

/-- Of the diagnostics only those that are no errors are warnings. -/
theorem warnings_report (s : ParserState) (d : Diagnostic) :
    (s.report d).warnings = s.warnings ++ if d.isError then [] else [d] := by
  unfold warnings report
  rw [List.filter_append]
  cases h : d.isError <;> simp [h]

/-- Line breaks, where they have no meaning. -/
def breaks (ignored : Bool) (k : TokenKind) : Bool := ignored && decide (k = .newline)

/-- Nothing is left to skip behind what was skipped. -/
theorem skipped_twice (p : Token → Bool) (xs : List Token) :
    (xs.dropWhile p).dropWhile p = xs.dropWhile p ∧ (xs.dropWhile p).takeWhile p = [] := by
  induction xs with
  | nil => exact ⟨rfl, rfl⟩
  | cons x xs ih =>
    by_cases hx : p x = true
    · rwa [List.dropWhile_cons_of_pos hx]
    · rw [List.dropWhile_cons_of_neg hx]
      exact ⟨List.dropWhile_cons_of_neg hx, List.takeWhile_cons_of_neg hx⟩

/-- The state behind line breaks. -/
theorem skipNewlines_eq (s : ParserState) : s.skipNewlines = { s with
    rest := s.rest.dropWhile (breaks true ·.kind)
    lastSpan := lastSpanAfter s.lastSpan (s.rest.takeWhile (breaks true ·.kind)) } := by
  have hp : (fun t : Token => breaks true t.kind) = fun t => decide (t.kind = .newline) := rfl
  rw [hp]
  rfl

/-- The state behind the token at hand. -/
theorem advance_eq {s : ParserState} {x : Token} {xs : List Token} (h : s.rest = x :: xs) :
    s.advance = { s with
      rest := xs.dropWhile (breaks (ignoresNewlines s.groups) ·.kind)
      lastSpan := lastSpanAfter x.span
        (xs.takeWhile (breaks (ignoresNewlines s.groups) ·.kind)) } := by
  have hbump : s.bump = { s with rest := xs, lastSpan := x.span } := by
    unfold bump
    rw [h]
  unfold advance
  rw [hbump]
  dsimp only
  split
  · rename_i hignores
    rw [skipNewlines_eq, show ignoresNewlines s.groups = true from hignores]
  · rename_i hignores
    rw [show ignoresNewlines s.groups = false from Bool.not_eq_true _ ▸ hignores]
    have hnone : (fun t : Token => breaks false t.kind) = fun _ => false := rfl
    have hdrop (l : List Token) : l.dropWhile (fun _ => false) = l := by cases l <;> rfl
    have htake (l : List Token) : l.takeWhile (fun _ => false) = [] := by cases l <;> rfl
    rw [hnone, hdrop, htake]
    rfl

/-- The state behind an opening delimiter. -/
theorem enter_eq {s : ParserState} {x : Token} {xs : List Token} (h : s.rest = x :: xs)
    (i : Bool) : s.advance.openGroup i = { s with
      rest := xs.dropWhile (breaks (ignoresNewlines s.groups || i) ·.kind)
      lastSpan := lastSpanAfter x.span
        (xs.takeWhile (breaks (ignoresNewlines s.groups || i) ·.kind))
      groups := ⟨i, s.allowsBrace⟩ :: s.groups
      allowsBrace := true } := by
  rw [advance_eq h]
  cases i with
  | false =>
    rw [Bool.or_false]
    rfl
  | true =>
    unfold openGroup
    dsimp only
    rw [if_pos rfl, skipNewlines_eq, Bool.or_true]
    cases ignoresNewlines s.groups with
    | true =>
      obtain ⟨hdrop, htake⟩ := skipped_twice (breaks true ·.kind) xs
      dsimp only
      rw [hdrop, htake]
      rfl
    | false =>
      have hnone : (fun t : Token => breaks false t.kind) = fun _ => false := rfl
      have hdrop (l : List Token) : l.dropWhile (fun _ => false) = l := by cases l <;> rfl
      have htake (l : List Token) : l.takeWhile (fun _ => false) = [] := by cases l <;> rfl
      dsimp only
      rw [hnone, hdrop, htake]
      rfl

/-- The state behind a closing delimiter. -/
theorem leave_eq {s : ParserState} {x : Token} {xs : List Token} {g : Group} {groups : List Group}
    (h : s.rest = x :: xs) (hgroups : s.groups = g :: groups) : s.closeGroup.advance = { s with
      rest := xs.dropWhile (breaks (ignoresNewlines groups) ·.kind)
      lastSpan := lastSpanAfter x.span
        (xs.takeWhile (breaks (ignoresNewlines groups) ·.kind))
      groups := groups
      allowsBrace := g.outerAllowsBrace } := by
  have hclosed : s.closeGroup =
      { s with groups := groups, allowsBrace := g.outerAllowsBrace } := by
    unfold closeGroup
    rw [hgroups]
  rw [hclosed]
  exact advance_eq h

/-- A recorded error counts. -/
theorem record_count (s : ParserState) (e : SyntaxError) :
    (s.record e).errorCount = s.errorCount + 1 := by
  unfold errorCount Diagnostic.errorCount
  change List.countP _ (s.diagnostics ++ [e.toDiagnostic]) = _
  rw [List.countP_append, List.countP_singleton, e.isError_toDiagnostic]
  rfl

/-- The state behind some tokens. -/
theorem bumpBy_eq (n : Nat) (s : ParserState) : s.bumpBy n = { s with
    rest := s.rest.drop n
    lastSpan := lastSpanAfter s.lastSpan (s.rest.take n) } := by
  induction n generalizing s with
  | zero => rfl
  | succ n ih =>
    change s.bump.bumpBy n = _
    rw [ih]
    unfold bump
    cases hrest : s.rest with
    | nil => simp [hrest, lastSpanAfter]
    | cons x xs => rw [List.take_succ_cons, lastSpanAfter_cons, List.drop_succ_cons]

/-- Going over some tokens goes onward. -/
theorem bumpBy_onward (n : Nat) (s : ParserState) : s.Onward (s.bumpBy n) := by
  rw [bumpBy_eq]
  exact ⟨rfl, List.drop_suffix _ _, List.prefix_refl _⟩

/-- Neither the way to the next boundary nor the groups that are forgotten are reported. -/
theorem synchronize_kept (s before : ParserState) :
    (s.synchronize before).final = s.final ∧
      (s.synchronize before).diagnostics = s.diagnostics := by
  unfold synchronize
  dsimp only
  split
  · rw [bumpBy_eq]
    exact s.bump_kept
  · rw [bumpBy_eq]
    exact ⟨rfl, rfl⟩

/-- Two states in the same groups, where braces are allowed alike. -/
def SameFrame (s s' : ParserState) : Prop :=
  s'.groups = s.groups ∧ s'.allowsBrace = s.allowsBrace

/-- States in the same groups as another are so as a third one. -/
theorem SameFrame.trans {s s' s'' : ParserState} (h : s.SameFrame s') (h' : s'.SameFrame s'') :
    s.SameFrame s'' :=
  ⟨h'.1.trans h.1, h'.2.trans h.2⟩

/-- Tokens that are only gone over open and close no groups. -/
theorem bumpBy_frame (n : Nat) (s : ParserState) : s.SameFrame (s.bumpBy n) := by
  rw [bumpBy_eq]
  exact ⟨rfl, rfl⟩

/-- The way to the next boundary goes onward, and opens and closes no groups. -/
theorem synchronize_onward (s before : ParserState) :
    s.Onward (s.synchronize before) ∧ s.SameFrame (s.synchronize before) := by
  unfold synchronize
  dsimp only
  split
  · exact ⟨s.bump_onward.trans (bumpBy_onward _ _), (bumpBy_frame 1 s).trans (bumpBy_frame _ _)⟩
  · exact ⟨bumpBy_onward _ _, bumpBy_frame _ _⟩

/-- Reading goes on behind the terminator of a statement. -/
theorem terminate_onward (s before : ParserState) : s.Onward (s.terminate before) := by
  unfold terminate
  split
  · exact s.skipWhile_onward _
  · split
    · exact .refl s
    · exact (s.report_onward _).trans ((s.record _).synchronize_onward before).1

/-- So it does behind its errors. -/
theorem settle_onward (s before : ParserState) : s.Onward (s.settle before) := by
  unfold settle
  split
  · have onward := ((s.restore before).synchronize_onward before).1
    exact ⟨onward.final, onward.rest, onward.diagnostics⟩
  · exact s.terminate_onward before

/-- At the end of a statement the groups are as they were before it. -/
theorem settle_frame {s before : ParserState} (h : before.groups <:+ s.groups)
    (hsame : s.errorCount ≤ before.errorCount → before.SameFrame s) :
    before.SameFrame (s.settle before) := by
  unfold settle
  split
  · have hframe := ((s.restore before).synchronize_onward before).2
    refine ⟨hframe.1.trans ?_, hframe.2⟩
    obtain ⟨outer, houter⟩ := h
    change s.groups.drop (s.groups.length - before.groups.length) = before.groups
    rw [← houter, List.length_append, Nat.add_sub_cancel, List.drop_left]
  · have hframe := hsame (by omega)
    unfold terminate
    split
    · exact hframe
    · split
      · exact hframe
      · exact hframe.trans ((s.record _).synchronize_onward before).2

/-- A boundary is found by the kinds of the tokens. -/
theorem boundary_kinds {xs ys : List Token} (h : xs.map (·.kind) = ys.map (·.kind)) (depth : Nat) :
    boundary depth xs = boundary depth ys := by
  induction xs generalizing ys depth with
  | nil =>
    obtain rfl : ys = [] := List.map_eq_nil_iff.1 h.symm
    rfl
  | cons x xs ih =>
    obtain ⟨y, ys, rfl, hkind, htail⟩ := List.map_eq_cons_iff.1 h.symm
    unfold boundary
    rw [hkind, ih htail.symm, ih htail.symm, ih htail.symm]

/-- Tokens behind a boundary do not change it. -/
theorem boundary_append (depth : Nat) (xs ys : List Token)
    (h : xs.drop (boundary depth xs) ≠ []) : boundary depth (xs ++ ys) = boundary depth xs := by
  induction xs generalizing depth with
  | nil => exact absurd rfl h
  | cons x xs ih =>
    rw [List.cons_append]
    unfold boundary at h ⊢
    split
    · rw [if_pos ‹_›, List.drop_succ_cons] at h
      rw [ih _ h]
    · rw [if_neg ‹_›] at h
      split
      · rfl
      · rw [if_neg ‹_›] at h
        split
        · rfl
        · rw [if_neg ‹_›] at h
          split
          · rw [if_pos ‹_›, List.drop_succ_cons] at h
            rw [ih _ h]
          · rw [if_neg ‹_›, List.drop_succ_cons] at h
            rw [ih _ h]

end ParserState

end FrontEnd
