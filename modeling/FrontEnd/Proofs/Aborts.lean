import FrontEnd.Proofs.Progress.Files

/-!
# Files that are given up

A file is read in rounds, one for a statement or for a closing brace outside all blocks. It is given
up where a statement is, for one of two reasons: the text ends inside it, or too many errors were
recorded. What was recorded before stays, and none of it reports the end of the text. The number of
errors is only looked at behind a statement, so that closing braces behind the last one may exceed
the limit.
-/

namespace FrontEnd

open Parse

/-- Behind a closing brace outside all blocks, and the terminators that follow it. -/
def ParserState.pastBrace (s : ParserState) : ParserState :=
  (s.record ⟨.strayBrace, s.current.span⟩).bump.atStatement

/-- Rounds over the statements of a file. -/
inductive Rounds (n : Nat) : ParserState → ParserState → Prop
  | done (s : ParserState) : Rounds n s s
  | brace {s s' : ParserState} (stray : s.kind = .symbol .rBrace)
    (others : Rounds n s.pastBrace s') : Rounds n s s'
  | stmt {s s₁ s' : ParserState} {x : Stmt} (more : s.kind ≠ .eof)
    (inside : s.kind ≠ .symbol .rBrace) (first : stmtOrStub n (grammar n) s = .ok x s₁)
    (others : Rounds n s₁.atStatement s') : Rounds n s s'

namespace Parse

variable {n m : Nat} {s s' : ParserState}

/-- What a round does. -/
theorem fileStmts_run (n m : Nat) (s : ParserState) : fileStmts n (m + 1) s =
    if s.kind = .eof then .ok [] s
    else if s.kind = .symbol .rBrace then fileStmts n m s.pastBrace
    else match stmtOrStub n (grammar n) s with
      | .ok x s₁ => ((x :: ·) <$> fileStmts n m) s₁.atStatement
      | .error e s₁ => .error e s₁ := by
  conv => lhs; unfold fileStmts
  change (if (s.kind == .eof) = true then _ else _ : Parser (List Stmt)) s = _
  by_cases heof : s.kind = .eof
  · rw [if_pos (beq_iff_eq.2 heof), if_pos heof]
    rfl
  · rw [if_neg (mt beq_iff_eq.1 heof), if_neg heof]
    change (if (s.kind == .symbol .rBrace) = true then _ else _ : Parser (List Stmt)) s = _
    by_cases hbrace : s.kind = .symbol .rBrace
    · rw [if_pos (beq_iff_eq.2 hbrace), if_pos hbrace]
      rfl
    · rw [if_neg (mt beq_iff_eq.1 hbrace), if_neg hbrace]
      change EStateM.bind (stmtOrStub n (grammar n)) _ s = _
      unfold EStateM.bind
      cases stmtOrStub n (grammar n) s with
      | error e s₁ => rfl
      | ok x s₁ =>
        change (fileStmts n m >>= fun xs => pure (x :: xs)) s₁.atStatement = _
        rw [bind_pure_comp]

/-- A closing brace is reported and passed over. -/
theorem pastBrace_leads (hstray : s.kind = .symbol .rBrace) (sound : s.Sound) :
    s.Leads s.pastBrace ∧ s.pastBrace.rest.length < s.rest.length := by
  let e : SyntaxError := ⟨.strayBrace, s.current.span⟩
  have recorded := s.report_leads (.error (e := e) rfl (plain_of_ne fun _ _ => by simp [e]))
  have bumped := (s.record e).bump_onward.leads (s.record e).bump_kept.2
  have skipped := (s.record e).bump.skipWhile_onward TokenKind.terminates
  refine ⟨(recorded.trans bumped).trans (skipped.leads rfl), ?_⟩
  have hpos := List.length_pos_iff.2 (sound.rest_ne_nil (by rw [hstray]; simp))
  have hone : (s.record e).bump.rest.length = s.rest.length - 1 := (s.record e).bumpBy_length 1
  exact Nat.lt_of_le_of_lt skipped.length_le (by omega)

/-- What a statement of a file does, with or without a result. -/
theorem stmtOrStub_outcome (sound : s.Sound) (hlt : s.rest.length < n) (more : s.kind ≠ .eof) :
    ProgressOutcome .reads s (stmtOrStub n (grammar n) s) := by
  obtain ⟨n, rfl⟩ : ∃ k, n = k + 1 := ⟨n - 1, by omega⟩
  have hg : GrammarProgresses n (grammar (n + 1)) (grammar (n + 1)) :=
    grammar_progresses (Nat.le_succ n) (Nat.le_succ n)
  have run : Progresses (n + 1) .reads (fun s => s.kind ≠ .eof)
      (stmtOrStub (n + 1) (grammar (n + 1))) (stmtOrStub (n + 1) (grammar (n + 1))) :=
    stmtOrStub_progresses hg (Nat.lt_succ_self n) (Nat.lt_succ_self n) fun _ => id
  exact (run sound hlt more).2

/-- A statement has a token behind it, and the terminators that follow. -/
theorem stmtOrStub_leads {s₁ : ParserState} {x : Stmt} (sound : s.Sound)
    (hlt : s.rest.length < n) (more : s.kind ≠ .eof)
    (h : stmtOrStub n (grammar n) s = .ok x s₁) :
    s.Leads s₁.atStatement ∧ s₁.atStatement.rest.length < s.rest.length := by
  have run := stmtOrStub_outcome sound hlt more
  rw [h] at run
  obtain ⟨leads, hfewer⟩ := run
  have skipped := s₁.skipWhile_onward TokenKind.terminates
  exact ⟨leads.trans (skipped.leads rfl), Nat.lt_of_le_of_lt skipped.length_le hfewer⟩

/-- Only fatal errors leave the recovery of a statement. -/
theorem recovering_fatal {α : Type} {p : Parser α} {e : SyntaxError}
    (h : recovering p s = .error e s') : e.isFatal = true := by
  have finish {before s₁ : ParserState} {x? : Option α} (h : finished before x? s₁ = .error e s') :
      e.isFatal = true := by
    unfold finished at h
    split at h
    · cases h
      rfl
    · cases h
  rw [recovering_run] at h
  split at h
  · exact finish h
  · split at h
    · cases h
      assumption
    · exact finish h

theorem stmtOrStub_fatal {g : Grammar} {e : SyntaxError} (h : stmtOrStub n g s = .error e s') :
    e.isFatal = true := by
  rw [stmtOrStub_run] at h
  split at h
  · cases h
  · cases h
  · cases h
    exact recovering_fatal ‹_›

end Parse

namespace Rounds

variable {n : Nat} {s s' : ParserState}

/-- Rounds go on in the text and keep what was recorded. -/
theorem leads (h : Rounds n s s') (sound : s.Sound) (hlt : s.rest.length < n) :
    s.Leads s' ∧ s'.rest.length < n := by
  induction h with
  | done s => exact ⟨.refl s, hlt⟩
  | brace stray _ ih =>
    obtain ⟨step, hfewer⟩ := pastBrace_leads stray sound
    obtain ⟨others, hlast⟩ := ih (step.sound sound) (Nat.lt_trans hfewer hlt)
    exact ⟨step.trans others, hlast⟩
  | stmt more _ first _ ih =>
    obtain ⟨step, hfewer⟩ := stmtOrStub_leads sound hlt more first
    obtain ⟨others, hlast⟩ := ih (step.sound sound) (Nat.lt_trans hfewer hlt)
    exact ⟨step.trans others, hlast⟩

end Rounds

namespace Parse

/-- A file is read to its end in rounds, or up to a statement that gives it up. -/
theorem fileStmts_rounds {n m : Nat} {s : ParserState} (sound : s.Sound)
    (hn : s.rest.length < n) (hm : s.rest.length < m) :
    match fileStmts n m s with
    | .ok _ s' => Rounds n s s' ∧ s'.kind = .eof
    | .error e s' =>
      ∃ u, Rounds n s u ∧ u.kind ≠ .eof ∧ stmtOrStub n (grammar n) u = .error e s' := by
  induction m generalizing s with
  | zero => exact absurd hm (Nat.not_lt_zero _)
  | succ m ih =>
    rw [fileStmts_run]
    by_cases heof : s.kind = .eof
    · rw [if_pos heof]
      exact ⟨.done s, heof⟩
    rw [if_neg heof]
    by_cases hstray : s.kind = .symbol .rBrace
    · rw [if_pos hstray]
      obtain ⟨step, hfewer⟩ := pastBrace_leads hstray sound
      have others := ih (step.sound sound) (Nat.lt_trans hfewer hn) (by omega)
      cases hrun : fileStmts n m s.pastBrace with
      | ok xs s' =>
        rw [hrun] at others
        exact ⟨.brace hstray others.1, others.2⟩
      | error e s' =>
        rw [hrun] at others
        obtain ⟨u, hu, hrest⟩ := others
        exact ⟨u, .brace hstray hu, hrest⟩
    · rw [if_neg hstray]
      cases first : stmtOrStub n (grammar n) s with
      | error e s' => exact ⟨s, .done s, heof, first⟩
      | ok x s₁ =>
        obtain ⟨step, hfewer⟩ := stmtOrStub_leads sound hn heof first
        have others := ih (step.sound sound) (Nat.lt_trans hfewer hn) (by omega)
        dsimp only
        rw [map_run]
        cases hrun : fileStmts n m s₁.atStatement with
        | ok xs s' =>
          rw [hrun] at others
          exact ⟨.stmt heof hstray first others.1, others.2⟩
        | error e s' =>
          rw [hrun] at others
          obtain ⟨u, hu, hrest⟩ := others
          exact ⟨u, .stmt heof hstray first hu, hrest⟩

/-- What was recorded on the way to where a file is given up was recorded there. -/
theorem fileStmts_recorded {n m : Nat} {s s' u : ParserState} {e : SyntaxError}
    (h : Rounds n s u) (sound : s.Sound) (hn : s.rest.length < n) (hm : s.rest.length < m)
    (hrun : fileStmts n m s = .error e s') : u.diagnostics <+: s'.diagnostics := by
  induction h generalizing m with
  | done s =>
    have rounds := fileStmts_rounds sound hn hm
    rw [hrun] at rounds
    obtain ⟨v, hv, more, hlast⟩ := rounds
    obtain ⟨leads, hlength⟩ := hv.leads sound hn
    have last := stmtOrStub_outcome (leads.sound sound) hlength more
    rw [hlast] at last
    exact (leads.trans last.1).diagnostics
  | brace stray _ ih =>
    obtain ⟨m, rfl⟩ : ∃ k, m = k + 1 := ⟨m - 1, by omega⟩
    obtain ⟨step, hfewer⟩ := pastBrace_leads stray sound
    rw [fileStmts_run, if_neg (by rw [stray]; simp), if_pos stray] at hrun
    exact ih (step.sound sound) (Nat.lt_trans hfewer hn) (by omega) hrun
  | stmt more inside first _ ih =>
    obtain ⟨m, rfl⟩ : ∃ k, m = k + 1 := ⟨m - 1, by omega⟩
    obtain ⟨step, hfewer⟩ := stmtOrStub_leads sound hn more first
    rw [fileStmts_run, if_neg more, if_neg inside, first] at hrun
    dsimp only at hrun
    rw [map_run] at hrun
    split at hrun
    · cases hrun
    · rename_i hothers
      cases hrun
      exact ih (step.sound sound) (Nat.lt_trans hfewer hn)
        (Nat.lt_of_lt_of_le hfewer (Nat.le_of_lt_succ hm)) hothers

/-- The rounds of a file begin behind the terminators at its beginning. -/
theorem file_begins (file : FileId) (tokens : List Token) :
    (ParserState.start file tokens).atStatement.Sound ∧
      (ParserState.start file tokens).atStatement.rest.length < tokens.length + 1 := by
  have skipped := (ParserState.start file tokens).skipWhile_onward TokenKind.terminates
  refine ⟨skipped.sound (ParserState.start_sound file tokens), Nat.lt_succ_of_le ?_⟩
  exact Nat.le_trans skipped.length_le (start_length file tokens)

end Parse

/-! ### The number of errors -/

namespace ParserState

/-- Between two states only closing braces and terminators were passed over, and every brace was
reported. -/
structure PassedOver (u s : ParserState) (tail : List Token) : Prop where
  rest : u.rest = tail ++ s.rest
  only : ∀ t ∈ tail, t.kind = .symbol .rBrace ∨ t.kind.terminates = true
  reported : s.diagnostics =
    u.diagnostics ++ (tail.filter (·.kind = .symbol .rBrace)).map (strayBraceAt ·.span)

theorem PassedOver.refl (s : ParserState) : s.PassedOver s [] :=
  ⟨rfl, by simp, by simp⟩

theorem PassedOver.trans {u v s : ParserState} {xs ys : List Token} (h : u.PassedOver v xs)
    (h' : v.PassedOver s ys) : u.PassedOver s (xs ++ ys) where
  rest := by rw [h.rest, h'.rest, List.append_assoc]
  only := fun t ht => (List.mem_append.1 ht).elim (h.only t) (h'.only t)
  reported := by
    rw [h'.reported, h.reported, List.filter_append, List.map_append, List.append_assoc]

/-- One closing brace and the terminators behind it. -/
theorem pastBrace_passedOver {s : ParserState} (stray : s.kind = .symbol .rBrace)
    (sound : s.Sound) : ∃ tail, s.PassedOver s.pastBrace tail := by
  obtain ⟨t, rest, hrest⟩ :=
    List.exists_cons_of_ne_nil (sound.rest_ne_nil (by rw [stray]; simp))
  have hcurrent : s.current = t := by
    unfold current
    rw [hrest]
    rfl
  have hbump : (s.record ⟨.strayBrace, s.current.span⟩).bump.rest = rest := by
    unfold bump
    rw [show (s.record ⟨.strayBrace, s.current.span⟩).rest = t :: rest from hrest]
  have hskipped : ∀ x ∈ rest.takeWhile (·.kind.terminates), x.kind.terminates = true :=
    fun x => List.mem_takeWhile_imp
  have hbraces : (t :: rest.takeWhile (·.kind.terminates)).filter (·.kind = .symbol .rBrace) =
      [t] := by
    rw [List.filter_cons, if_pos (decide_eq_true (hcurrent ▸ stray)), List.filter_eq_nil_iff.2]
    intro x hx hbrace
    have hterminates := hskipped x hx
    rw [of_decide_eq_true hbrace] at hterminates
    cases hterminates
  refine ⟨t :: rest.takeWhile (·.kind.terminates), ?_, fun x hx => ?_, ?_⟩
  · change s.rest = _ ++ (s.record ⟨.strayBrace, s.current.span⟩).bump.rest.dropWhile _
    rw [hbump, hrest, List.cons_append, List.takeWhile_append_dropWhile]
  · rcases List.mem_cons.1 hx with rfl | hx
    · exact Or.inl (hcurrent ▸ stray)
    · exact Or.inr (hskipped x hx)
  · rw [hbraces, ← hcurrent]
    exact (s.record ⟨.strayBrace, s.current.span⟩).bump_kept.2

end ParserState

/-- Behind the last statement, or from the beginning if there is none, there are only closing braces
and terminators; up to there the number of errors is below the limit. -/
theorem Rounds.few_errors {n : Nat} {s s' : ParserState} (h : Rounds n s s') (sound : s.Sound)
    (hn : s.rest.length < n) :
    ∃ u tail, u.PassedOver s' tail ∧ s.Onward u ∧ (u = s ∨ u.errorCount < maxErrors) := by
  induction h with
  | done s => exact ⟨s, [], .refl s, .refl s, Or.inl rfl⟩
  | brace stray _ ih =>
    obtain ⟨step, hfewer⟩ := pastBrace_leads stray sound
    obtain ⟨u, tail, passed, onward, hfew⟩ := ih (step.sound sound) (Nat.lt_trans hfewer hn)
    rcases hfew with rfl | hfew
    -- No statement follows: the brace is one more of those that are passed over in the end.
    · obtain ⟨first, hfirst⟩ := ParserState.pastBrace_passedOver stray sound
      exact ⟨_, first ++ tail, hfirst.trans passed, .refl _, Or.inl rfl⟩
    · exact ⟨u, tail, passed, step.toOnward.trans onward, Or.inr hfew⟩
  | stmt more _ first _ ih =>
    obtain ⟨step, hfewer⟩ := stmtOrStub_leads sound hn more first
    obtain ⟨u, tail, passed, onward, hfew⟩ := ih (step.sound sound) (Nat.lt_trans hfewer hn)
    refine ⟨u, tail, passed, step.toOnward.trans onward, Or.inr ?_⟩
    -- The limit was kept behind this statement, if it is the last one.
    rcases hfew with rfl | hfew
    · exact (stmtOrStub_ok first).1
    · exact hfew

/-- A file that is read to its end has fewer errors than are too many, apart from one for every
closing brace that stands behind its last statement, where nothing else is left but terminators. -/
theorem parse_few_errors {file : FileId} {tokens : List Token} {p : Parsed}
    (h : parse file tokens = .ok p) :
    ∃ ds tail, tail <:+ tokens.takeWhile (·.kind ≠ .eof) ∧
      (∀ t ∈ tail, t.kind = .symbol .rBrace ∨ t.kind.terminates = true) ∧
      p.diagnostics = ds ++ (tail.filter (·.kind = .symbol .rBrace)).map (strayBraceAt ·.span) ∧
      Diagnostic.errorCount ds < maxErrors := by
  obtain ⟨hrun, hdiagnostics⟩ := parse_ok h
  obtain ⟨sound, hlength⟩ := file_begins file tokens
  have rounds := fileStmts_rounds sound hlength hlength
  rw [show fileStmts (tokens.length + 1) (tokens.length + 1)
    (ParserState.start file tokens).atStatement = .ok p.stmts (endState file tokens) from hrun]
    at rounds
  obtain ⟨hrounds, heof⟩ := rounds
  obtain ⟨u, tail, passed, onward, hfew⟩ := hrounds.few_errors sound hlength
  have hend : (endState file tokens).rest = [] :=
    ((hrounds.leads sound hlength).1.sound sound).kind_eq_eof.1 heof
  refine ⟨u.diagnostics, tail, ?_, passed.only, hdiagnostics ▸ passed.reported, ?_⟩
  · have hall : u.rest = tail := by rw [passed.rest, hend, List.append_nil]
    exact hall ▸ onward.rest.trans (List.dropWhile_suffix _)
  · rcases hfew with rfl | hfew
    · exact (by decide : 0 < maxErrors)
    · exact hfew

/-- A variable without a name, with two closing braces behind it that a semicolon separates. -/
theorem parse_few_errors_unnamed : ∃ lexed p ds tail,
    lex ⟨0⟩ "val = 1\n\x7d;\x7d" = .ok lexed ∧ parse ⟨0⟩ lexed.tokens = .ok p ∧
      tail <:+ lexed.tokens.takeWhile (·.kind ≠ .eof) ∧
      (∀ t ∈ tail, t.kind = .symbol .rBrace ∨ t.kind.terminates = true) ∧
      p.diagnostics = ds ++ (tail.filter (·.kind = .symbol .rBrace)).map (strayBraceAt ·.span) ∧
      Diagnostic.errorCount ds < maxErrors ∧ Diagnostic.errorCount p.diagnostics = 3 := by
  obtain ⟨lexed, p, hlex, hparse, hcount⟩ := exists_of_readsTo
    (show readsTo ⟨0⟩ "val = 1\n\x7d;\x7d"
      (fun _ p => Diagnostic.errorCount p.diagnostics = 3) = true by decide +kernel)
  obtain ⟨ds, tail, hsuffix, honly, hreported, hfew⟩ := parse_few_errors hparse
  exact ⟨lexed, p, ds, tail, hlex, hparse, hsuffix, honly, hreported, hfew,
    of_decide_eq_true hcount⟩

/-- Closing braces alone are never too many. -/
theorem fifty_braces : ∃ lexed p, lex ⟨0⟩ (String.ofList (List.replicate 50 '\x7d')) = .ok lexed ∧
    parse ⟨0⟩ lexed.tokens = .ok p ∧ Diagnostic.errorCount p.diagnostics = maxErrors := by
  obtain ⟨lexed, p, hlex, hparse, hcount⟩ := exists_of_readsTo
    (show readsTo ⟨0⟩ (String.ofList (List.replicate 50 '\x7d'))
      (fun _ p => Diagnostic.errorCount p.diagnostics = maxErrors) = true by decide +kernel)
  exact ⟨lexed, p, hlex, hparse, of_decide_eq_true hcount⟩

/-! ### Reports of the end of the text -/

/-- That something was expected where the text ends. What was expected is all the text in front of
the first comma, since the names in the tokens found may hold anything. -/
def Diagnostic.ReportsEnd (d : Diagnostic) : Prop :=
  ∃ what, ',' ∉ what.toList ∧ d.text = "Expected " ++ what ++ ", found end of file"

/-- Only the end of the text is called that. -/
theorem TokenKind.eq_eof_of_describe {k : TokenKind} (h : k.describe = "end of file") :
    k = .eof := by
  have hfirst : k.describe.toList.head? = some 'e' := by rw [h]; rfl
  cases k with
  | eof => rfl
  | newline => exact absurd h (by decide)
  | literal form text => cases form <;> simp [describe] at h
  | ident name => simp [describe] at hfirst
  | lifetime name => simp [describe] at hfirst
  | keyword word => simp [describe] at hfirst
  | symbol mark => simp [describe] at hfirst

/-- The text of a syntax error is its message. -/
theorem SyntaxError.toDiagnostic_text (e : SyntaxError) : e.toDiagnostic.text = e.message := by
  unfold toDiagnostic
  cases e.hint? <;> rfl

/-- How it is said that something was expected where the text ends. -/
theorem SyntaxError.message_end (what : String) (span : Span) :
    (SyntaxError.mk (.expected what .eof) span).message =
      "Expected " ++ what ++ ", found end of file" := by
  change "Expected " ++ what ++ ", found " ++ "end of file" = _
  rw [String.append_assoc]
  rfl

/-- From the first comma on. -/
theorem dropWhile_comma {xs ys : List Char} (h : ',' ∉ xs) :
    (xs ++ ',' :: ys).dropWhile (· ≠ ',') = ',' :: ys := by
  have inside : ∀ c ∈ xs, decide (c ≠ ',') = true := by
    intro c hc
    refine decide_eq_true ?_
    rintro rfl
    exact h hc
  rw [List.dropWhile_append_of_pos inside]
  rfl

/-- What is recorded is not that the text ends. -/
theorem Diagnostic.Recordable.not_reportsEnd {d : Diagnostic} (h : d.Recordable) :
    ¬d.ReportsEnd := by
  rintro ⟨what, plain, htext⟩
  have hfirst : d.text.toList.head? = some 'E' := by rw [htext]; simp
  cases h with
  | @warning form text span useless =>
    have hwarning : text.toList.head? = some 'U' := by
      unfold uselessParens? at useless
      split at useless <;> cases useless <;> rfl
    rw [show (Diagnostic.warning text span).text = text from rfl, hwarning] at hfirst
    cases hfirst
  | @error e fatal plain' =>
    rw [e.toDiagnostic_text] at htext hfirst
    obtain ⟨problem, span⟩ := e
    cases problem with
    | expected what' found =>
      have hlists :
          "Expected ".toList ++ (what'.toList ++ ',' ::
              (" found ".toList ++ found.describe.toList)) =
            "Expected ".toList ++ (what.toList ++ ',' ::
              (" found ".toList ++ "end of file".toList)) := by
        simpa [SyntaxError.message] using congrArg String.toList htext
      have hbehind := congrArg (List.dropWhile (· ≠ ',')) (List.append_cancel_left hlists)
      rw [dropWhile_comma (plain' what' found rfl), dropWhile_comma plain] at hbehind
      have heof := TokenKind.eq_eof_of_describe
        (String.toList_injective (List.append_cancel_left (List.cons.inj hbehind).2))
      rw [heof] at fatal
      cases fatal
    | strayBrace => simp [SyntaxError.message] at hfirst
    | customOperator => simp [SyntaxError.message] at hfirst
    | misplacedInit => simp [SyntaxError.message] at hfirst
    | tooManyErrors => cases fatal
    | stalled => cases fatal

/-- Nothing that is recorded in a file reports its end. -/
theorem ParserState.Leads.no_end_reported {file : FileId} {tokens : List Token} {s : ParserState}
    (leads : (ParserState.start file tokens).atStatement.Leads s) :
    ∀ d ∈ s.diagnostics, ¬d.ReportsEnd :=
  fun d hd => (leads.recorded (fun _ hnone => absurd hnone List.not_mem_nil) d hd).not_reportsEnd

/-- A file is given up where its text ends in front of something that was expected, or with too many
errors. Its reports are all those that were made, in whatever round, and the fatal error behind
them. The end of the text is reported by that error alone, and not at all in a file that is read to
its end. -/
theorem parse_aborts_justified {file : FileId} {tokens before : List Token} {span : Span}
    (htokens : tokens = before ++ [⟨.eof, span⟩]) (hbefore : ∀ t ∈ before, t.kind ≠ .eof) :
    (∀ p, parse file tokens = .ok p → ∀ d ∈ p.diagnostics, ¬d.ReportsEnd) ∧
    ∀ a, parse file tokens = .error a →
      ∃ s, Parse.file (tokens.length + 1) (.start file tokens) = .error a.error s ∧
        a.diagnostics = s.diagnostics ++ [a.error.toDiagnostic] ∧
        (∀ u, Rounds (tokens.length + 1) (ParserState.start file tokens).atStatement u →
          u.diagnostics <+: s.diagnostics) ∧
        (∀ d ∈ s.diagnostics, ¬d.ReportsEnd) ∧
        (a.error.span = span ∧ (∃ what, ',' ∉ what.toList ∧
            a.error.message = "Expected " ++ what ++ ", found end of file") ∨
          maxErrors ≤ Diagnostic.errorCount s.diagnostics ∧
            a.error.message = "Too many errors, stopping") := by
  obtain ⟨sound, hlength⟩ := file_begins file tokens
  have rounds := fileStmts_rounds sound hlength hlength
  refine ⟨fun p hp => ?_, fun a ha => ?_⟩
  · obtain ⟨hrun, hdiagnostics⟩ := parse_ok hp
    rw [show fileStmts (tokens.length + 1) (tokens.length + 1)
      (ParserState.start file tokens).atStatement = .ok p.stmts (endState file tokens) from hrun]
      at rounds
    rw [← hdiagnostics]
    exact (rounds.1.leads sound hlength).1.no_end_reported
  · obtain ⟨s, hrun, hdiagnostics⟩ := parse_error ha
    have hstmts : fileStmts (tokens.length + 1) (tokens.length + 1)
      (ParserState.start file tokens).atStatement = .error a.error s := hrun
    rw [hstmts] at rounds
    obtain ⟨u, hu, more, hlast⟩ := rounds
    obtain ⟨leads, hfewer⟩ := hu.leads sound hlength
    have last := stmtOrStub_outcome (leads.sound sound) hfewer more
    rw [hlast] at last
    have whole := leads.trans last.1
    refine ⟨s, hrun, hdiagnostics,
      fun v hv => fileStmts_recorded hv sound hlength hlength hstmts,
      whole.no_end_reported, ?_⟩
    rcases last.2.of_fatal (stmtOrStub_fatal hlast) with ⟨what, plain, herror⟩ | ⟨hcount, hfull⟩
    · have hfinal : s.final = ⟨.eof, span⟩ := by
        rw [whole.final, ← ParserState.start_final_mark hbefore, ← htokens]
        rfl
      left
      rw [herror, hfinal]
      exact ⟨rfl, what, plain, SyntaxError.message_end what span⟩
    · right
      refine ⟨hcount, ?_⟩
      unfold SyntaxError.message
      rw [hfull]

/-- A shift without operands, and behind it a variable without a name. -/
theorem parse_aborts_justified_unnamed :
    let before : List Token :=
      [⟨.symbol .shr, ⟨0, 2, ⟨0⟩⟩⟩, ⟨.symbol .semi, ⟨2, 1, ⟨0⟩⟩⟩, ⟨.keyword .val, ⟨3, 3, ⟨0⟩⟩⟩]
    (∀ t ∈ before, t.kind ≠ .eof) ∧
      ∃ a recorded, parse ⟨0⟩ (before ++ [⟨.eof, ⟨6, 0, ⟨0⟩⟩⟩]) = .error a ∧
        a.diagnostics = recorded ++ [a.error.toDiagnostic] ∧ a.diagnostics.length = 3 ∧
        (∀ d ∈ recorded, ¬d.ReportsEnd) ∧ a.error.span = ⟨6, 0, ⟨0⟩⟩ ∧
        ∃ what, ',' ∉ what.toList ∧
          a.error.message = "Expected " ++ what ++ ", found end of file" := by
  intro before
  have hbefore : ∀ t ∈ before, t.kind ≠ .eof := by decide
  obtain ⟨a, ha, hlength⟩ := exists_of_givesUp
    (show givesUp ⟨0⟩ (before ++ [⟨.eof, ⟨6, 0, ⟨0⟩⟩⟩])
      (fun a => a.diagnostics.length = 3) = true by decide +kernel)
  have hthree : a.diagnostics.length = 3 := of_decide_eq_true hlength
  obtain ⟨s, -, hdiagnostics, -, hnone, hend | ⟨hcount, -⟩⟩ :=
    (parse_aborts_justified rfl hbefore).2 a ha
  · exact ⟨hbefore, a, s.diagnostics, ha, hdiagnostics, hthree, hnone, hend⟩
  · -- There are not that many reports.
    have hall : Diagnostic.errorCount s.diagnostics ≤ s.diagnostics.length := List.countP_le_length
    rw [hdiagnostics, List.length_append, List.length_singleton] at hthree
    have hmax : 3 < maxErrors := by decide
    omega

end FrontEnd
