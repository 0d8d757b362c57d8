import FrontEnd.Proofs.Independence

/-!
# What is read of a text stays

A text that is read without errors is read alike when other lines follow, however malformed those
are: its statements come first, with the same numbers and places, and so does what was reported of
it. Reading on only adds to the reports, also where it is given up.
-/

namespace FrontEnd

/-- All that is reported of some tokens, also where reading them is given up. -/
def reported (file : FileId) (tokens : List Token) : List Diagnostic :=
  match parse file tokens with
  | .ok p => p.diagnostics
  | .error a => a.diagnostics

/-- Without errors only warnings are reported. -/
theorem ParserState.warnings_of_errorFree {s : ParserState} (h : s.errorCount = 0) :
    s.warnings = s.diagnostics := by
  refine List.filter_eq_self.2 fun d hd => ?_
  simpa using List.countP_eq_zero.1 h d hd

/-- The reports of a text come first when other lines are read behind it. -/
theorem Simulation.Crossed.diagnostics {y : Token} {v : List Token} {newline : y.kind = .newline}
    {fresh : Fresh v} {s u : ParserState} (h : (above newline fresh).Crossed y v s u)
    (free : s.errorCount = 0) : u.diagnostics = s.diagnostics := by
  obtain ⟨ws, hws, halike⟩ := h.warned
  have hcount : u.errorCount = 0 := h.count.trans free
  rw [← ParserState.warnings_of_errorFree hcount, ← ParserState.warnings_of_errorFree free, hws]
  exact eq_of_alike Relabeling.diagnostic_same halike

namespace Parse

variable {file : FileId} {tokens : List Token} {xs : List Stmt} {u : ParserState}

/-- Statements that are read at the beginning of a file come first in it, and nothing that was
reported on the way is taken back. -/
theorem Statements.beginning (hlength : xs.length ≤ tokens.length + 1)
    (h : Statements (stmtOrStub (tokens.length + 1) (grammar (tokens.length + 1)))
      (ParserState.start file tokens).atStatement xs u.atStatement) :
    u.diagnostics <+: reported file tokens ∧
      ∀ q, parse file tokens = .ok q → xs <+: q.stmts := by
  obtain ⟨n, hn⟩ : ∃ n, xs.length + n = tokens.length + 1 := ⟨_, Nat.add_sub_cancel' hlength⟩
  have hfile : Parse.file (tokens.length + 1) (.start file tokens) =
      ((xs ++ ·) <$> fileStmts (tokens.length + 1) n) u.atStatement := by
    change fileStmts _ _ (ParserState.start file tokens).atStatement = _
    rw [← fileStmts_behind h, hn]
  -- Reading on keeps the reports, with or without a result.
  have sound : (ParserState.start file tokens).atStatement.Sound :=
    (ParserState.skipWhile_onward _ _).sound (ParserState.start_sound file tokens)
  have run : RunOutcome 0 .slack (fun _ => .slack) u.atStatement
      (fileStmts (tokens.length + 1) n u.atStatement) :=
    fileStmts_runs ((h.onward sound).1.sound sound)
  unfold reported parse
  rw [hfile, map_run]
  cases hothers : fileStmts (tokens.length + 1) n u.atStatement with
  | ok zs s =>
    rw [hothers] at run
    refine ⟨run.onward.diagnostics, ?_⟩
    rintro q ⟨⟩
    exact List.prefix_append xs zs
  | error e s =>
    rw [hothers] at run
    exact ⟨run.onward.diagnostics.trans (List.prefix_append _ _), by simp⟩

end Parse

/-- A text that is read without errors is read alike in front of every text on the lines behind it
that does not go on with its last statement: all its reports come first, and so do its statements
if the reading comes to an end. -/
theorem parse_prefix {file : FileId} {text text' : String} {lexed lexed' : Lexed} {p : Parsed}
    (hlex : lex file text = .ok lexed) (hparse : parse file lexed.tokens = .ok p)
    (free : Diagnostic.anyError p.diagnostics = false)
    (hlex' : lex file text' = .ok lexed') (fresh : Fresh lexed'.tokens) :
    ∃ joined, lex file (text ++ "\n" ++ text') = .ok joined ∧
      p.diagnostics <+: reported file joined.tokens ∧
      ∀ q, parse file joined.tokens = .ok q → p.stmts <+: q.stmts := by
  obtain ⟨hscans, hlength, -⟩ := ScansTo.of_lex hlex
  obtain ⟨hscans', -, -⟩ := ScansTo.of_lex hlex'
  obtain ⟨joined, hjoined, hlengthJoined, hrest, -⟩ := (hscans.line hscans' rfl).start
  have hfresh : Fresh ((ParserState.start file lexed'.tokens).rest.map
      (Relabeling.shift 0 (Text.byteSize text.toList + 1)).token) :=
    (fresh.of_lex hlex').alike (alike_shift 0 _ _)
  rw [List.length_append, List.length_cons] at hlengthJoined
  obtain ⟨hshort, u, hstatements, hcrossed⟩ :=
    first_text (m := joined.tokens.length + 1) hparse free
    rfl hfresh hrest (by omega)
  obtain ⟨hreports, hstmts⟩ := hstatements.beginning (by omega)
  rw [hcrossed.diagnostics (endState_count hparse free), (parse_ok hparse).2] at hreports
  exact ⟨joined, hjoined, hreports, hstmts⟩

/-- Parentheses that are warned about, with a stray brace and a variable without a name behind
them. -/
theorem parse_prefix_malformed : ∃ lexed lexed' p joined q,
    lex ⟨0⟩ "f((x))" = .ok lexed ∧ parse ⟨0⟩ lexed.tokens = .ok p ∧
      Diagnostic.anyError p.diagnostics = false ∧ p.diagnostics.length = 1 ∧
      lex ⟨0⟩ "\n\x7d\nval = 1" = .ok lexed' ∧ Fresh lexed'.tokens ∧
      lex ⟨0⟩ ("f((x))" ++ "\n" ++ "\n\x7d\nval = 1") = .ok joined ∧
      parse ⟨0⟩ joined.tokens = .ok q ∧ Diagnostic.errorCount q.diagnostics = 2 ∧
      p.diagnostics <+: q.diagnostics ∧ p.stmts <+: q.stmts := by
  obtain ⟨lexed, p, hlex, hparse, hwarned⟩ := exists_of_readsTo
    (show readsTo ⟨0⟩ "f((x))" (fun _ p => Diagnostic.anyError p.diagnostics = false ∧
      p.diagnostics.length = 1) = true by decide +kernel)
  obtain ⟨lexed', _, hlex', -, fresh⟩ := exists_of_readsTo
    (show readsTo ⟨0⟩ "\n\x7d\nval = 1" (fun tokens _ => Fresh tokens) = true by decide +kernel)
  obtain ⟨whole, q, hwhole, hq, hcount⟩ := exists_of_readsTo
    (show readsTo ⟨0⟩ ("f((x))" ++ "\n" ++ "\n\x7d\nval = 1")
      (fun _ q => Diagnostic.errorCount q.diagnostics = 2) = true by decide +kernel)
  obtain ⟨free, hone⟩ := of_decide_eq_true hwarned
  have hfresh : Fresh lexed'.tokens := of_decide_eq_true fresh
  obtain ⟨joined, hjoined, hreports, hstmts⟩ := parse_prefix hlex hparse free hlex' hfresh
  obtain rfl : joined = whole := Except.ok.inj (hjoined.symm.trans hwhole)
  unfold reported at hreports
  rw [hq] at hreports
  exact ⟨lexed, lexed', p, joined, q, hlex, hparse, free, hone, hlex', hfresh, hjoined, hq,
    of_decide_eq_true hcount, hreports, hstmts q hq⟩

end FrontEnd
