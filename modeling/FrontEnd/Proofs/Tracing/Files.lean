import FrontEnd.Grammar.Module
import FrontEnd.Proofs.Scanning
import FrontEnd.Proofs.Tracing.Declarations

/-!
# Traces of statements and whole files

The parsers of the nonterminals are given the parsers for one token less, so that they lead to the
traces of their results follows by induction. A file without errors is read to its last token: its
statements have all leaves of the text, and nothing in them is missing.
-/

namespace FrontEnd

namespace Parse

variable {pre : ParserState → Prop} {before : Trace} {g : Grammar}

/-- A variable, given the keyword at hand. -/
theorem variableDecl_traces (hg : GrammarTraces g) {k : TokenKind} {kind : VarKind}
    (hkind : VarKind.ofToken? k = some kind) (hpre : ∀ s, pre s → s.kind = k) :
    Traces pre before (variableDecl g kind) fun f => f.traceAfter before := by
  refine .bind (advance_mute hpre (VarKind.mute_of_ofToken hkind)) fun _ => ?_
  refine .bind expectIdent_traces fun name => .bind (acceptSymbol_traces _) fun typed => ?_
  extract_lets after
  have after_traces (t : Node (.maybe .type)) :
      Traces (fun _ => True) (t.traceAfter (before.leaf (.ident name))) (after t) fun f =>
        f.traceAfter before := by
    refine .bind (acceptSymbol_traces _) fun found => .ite (fun _ => ?_) fun _ => .pure rfl
    exact .bind skipNewlines_traces fun _ => .bind (hg .expr) fun e => .pure rfl
  refine .ite (fun _ => .bind skipNewlines_traces fun _ => ?_) fun _ => after_traces .absent
  exact .bind (hg .type) fun t => after_traces (.present t)

/-- A loop over the elements of something. -/
theorem forLoop_traces (hg : GrammarTraces g) :
    Traces pre before (forLoop g) fun f => f.traceAfter before := by
  refine .bind (expectKeyword_traces fun _ => rfl) fun _ => ?_
  refine .bind expectIdent_traces fun binding => ?_
  refine .bind (expectKeyword_traces fun _ => rfl) fun _ => ?_
  refine .bind (headExpr_traces hg) fun source => ?_
  exact .bind (block_traces hg) fun body => .pure rfl

/-- A loop with a condition. -/
theorem whileLoop_traces (hg : GrammarTraces g) :
    Traces pre before (whileLoop g) fun f => f.traceAfter before :=
  .bind (expectKeyword_traces fun _ => rfl) fun _ => .bind (headExpr_traces hg) fun _ =>
    .bind (block_traces hg) fun _ => .pure rfl

/-- What a statement is: a variable, a loop, a declaration or an expression. -/
theorem stmtForm_traces (hg : GrammarTraces g) (n : Nat) :
    Traces pre before (stmtForm n g) fun f => f.traceAfter before := by
  refine .peek fun k => ?_
  split
  · rename_i kind hkind
    exact variableDecl_traces hg hkind fun _ hs => hs.2
  · refine .ite (fun _ => forLoop_traces hg) fun _ => ?_
    refine .ite (fun _ => whileLoop_traces hg) fun _ => .ite (fun _ => ?_) fun _ => ?_
    · exact .bind (item_traces hg n) fun i => .pure rfl
    · exact .bind (expr_traces hg n) fun e => .pure rfl

/-- A statement is numbered behind what it is. -/
theorem stmt_traces (hg : GrammarTraces g) (n : Nat) :
    Traces pre before (stmt n g) fun s => s.traceAfter before :=
  .peek fun _ => .bind (stmtForm_traces hg n) fun _ => freshId_traces.bind fun _ =>
    .peek fun _ => .pure rfl

/-- A statement, or a stub with a number of its own. -/
theorem stmtOrStub_traces (hg : GrammarTraces g) (n : Nat) :
    Traces pre before (stmtOrStub n g) fun s => s.traceAfter before := by
  refine .peek fun start => .bind (recovering_traces (stmt_traces hg n)) fun s? => ?_
  cases s? with
  | some s => exact .pure rfl
  | none => exact .peek fun span => origin_traces.bind fun o => .pure rfl

/-- Statements one after the other. -/
theorem stmtList_traces (hg : GrammarTraces g) (bound n : Nat) :
    Traces pre before (stmtList bound g n) fun ss => (Node.ofList ss).traceAfter before := by
  induction n generalizing pre before with
  | zero => exact stalled_traces
  | succ n ih =>
    unfold stmtList
    refine .peek fun closes => .peek fun ends => .ite (fun _ => .pure rfl) fun _ => ?_
    refine .bind (stmtOrStub_traces hg bound) fun s => ?_
    exact .bind skipTerminators_traces fun _ => ih.bind fun ss => .pure rfl

/-- The statements of a block. -/
theorem stmts_traces (hg : GrammarTraces g) (n : Nat) :
    Traces pre before (stmts n g) fun ss => ss.traceAfter before :=
  .bind skipTerminators_traces fun _ => .bind (stmtList_traces hg n n) fun _ => .pure rfl

/-- One more token: each nonterminal leads to the trace of its result if those for fewer tokens
do. -/
theorem rule_traces (hg : GrammarTraces g) (n : Nat) : GrammarTraces (rule n g) := by
  intro c x before
  cases x with
  | expr => exact expr_traces hg n
  | power => exact power_traces hg n
  | operand => exact operand_traces hg n
  | cond => exact cond_traces hg fun _ h => h
  | type => exact type_traces hg n
  | stmts => exact stmts_traces hg n
  | members inClass => exact members_traces hg n inClass

/-- All nonterminals do, for every number of tokens. -/
theorem grammar_traces (n : Nat) : GrammarTraces (grammar n) := by
  induction n with
  | zero => exact fun _ => stalled_traces
  | succ n ih => exact rule_traces ih (n + 1)

/-- Behind an error any token may be passed over. -/
theorem bump_traces :
    Traces pre (before.check false) (modify ParserState.bump) fun _ => before.check false := by
  intro all s hs _
  have broken : ¬s.bump.ErrorFree := fun free =>
    Bool.false_ne_true (hs.fresh (s.bump_onward.errorFree free))
  have hid : s.bump.nextId = s.nextId := by
    unfold ParserState.bump
    split <;> rfl
  exact ⟨Nat.le_of_eq hid.symm, hs.still (s.bump_onward.still hid broken)⟩

/-- The statements of a file; braces that close nothing are recorded and leave no node. -/
theorem fileStmts_traces (bound n : Nat) :
    Traces pre before (fileStmts bound n) fun ss => (Node.ofList ss).traceAfter before := by
  induction n generalizing pre before with
  | zero => exact stalled_traces
  | succ n ih =>
    unfold fileStmts
    refine .peek fun ends => .ite (fun _ => .pure rfl) fun _ => .peek fun stray => .ite ?_ ?_
    · refine fun _ => .peek fun span => .bind (record_traces (.refl _) _) fun _ => ?_
      exact bump_traces.bind fun _ => .bind skipTerminators_traces fun _ => .uncheck ih
    · refine fun _ => .bind (stmtOrStub_traces (grammar_traces bound) bound) fun s => ?_
      exact .bind skipTerminators_traces fun _ => ih.bind fun ss => .pure rfl

/-- A whole file leads to the trace of its statements. -/
theorem file_traces (n : Nat) :
    Traces pre before (file n) fun ss => (Node.ofList ss).traceAfter before :=
  .bind skipTerminators_traces fun _ => fileStmts_traces n n

/-- Reading the statements of a file stops only at the end of the text. -/
theorem fileStmts_end {bound n : Nat} {s s' : ParserState} {xs : List Stmt}
    (h : fileStmts bound n s = .ok xs s') : s'.kind = .eof := by
  induction n generalizing s xs with
  | zero => cases h
  | succ n ih =>
    unfold fileStmts at h
    obtain ⟨ends, s₁, h₁, h⟩ := bind_ok h
    cases h₁
    split at h
    · rename_i ends
      cases h
      exact eq_of_beq ends
    · obtain ⟨stray, s₂, h₂, h⟩ := bind_ok h
      cases h₂
      split at h
      · obtain ⟨-, s₃, -, h⟩ := bind_ok h
        obtain ⟨-, s₄, -, h⟩ := bind_ok h
        obtain ⟨-, s₅, -, h⟩ := bind_ok h
        obtain ⟨-, s₆, -, h⟩ := bind_ok h
        exact ih h
      · obtain ⟨x, s₃, -, h⟩ := bind_ok h
        obtain ⟨-, s₄, -, h⟩ := bind_ok h
        obtain ⟨rest, s₅, h₅, h⟩ := bind_ok h
        cases h
        exact ih h₅

end Parse

/-- In the end all tokens are read, and what was met are the statements of the file. -/
theorem traced_of_parse {file : FileId} {tokens : List Token} {p : Parsed}
    (h : parse file tokens = .ok p) : ∃ s : ParserState, s.diagnostics = p.diagnostics ∧
      s.rest = [] ∧ Traced (leavesOf (tokens.takeWhile (·.kind ≠ .eof)))
        ((Node.ofList p.stmts).traceAfter .empty) s := by
  have hstart : Traced (leavesOf (tokens.takeWhile (·.kind ≠ .eof))) .empty (.start file tokens) :=
    ⟨ParserState.start_sound file tokens, List.Pairwise.nil, List.forall_mem_nil _, fun _ => rfl,
      fun _ => rfl, fun _ => rfl⟩
  have file : Traces (fun _ => True) .empty (Parse.file (tokens.length + 1)) _ :=
    Parse.file_traces (tokens.length + 1)
  have run := file _ _ hstart trivial
  unfold parse at h
  split at h
  · rename_i stmts s hrun
    cases h
    rw [hrun] at run
    obtain ⟨-, s₁, -, hstmts⟩ := bind_ok hrun
    exact ⟨s, rfl, run.2.sound.kind_eq_eof.1 (Parse.fileStmts_end hstmts), run.2⟩
  · cases h

/-- A file without errors is read whole: its statements have the leaves of all tokens before the end
mark, and nothing in them is missing. -/
theorem parse_spells {file : FileId} {tokens : List Token} {p : Parsed}
    (h : parse file tokens = .ok p) (free : Diagnostic.anyError p.diagnostics = false) :
    (Node.ofList p.stmts).Forall Node.Fresh ∧
      leavesOf (tokens.takeWhile (·.kind ≠ .eof)) = (Node.ofList p.stmts).leaves := by
  obtain ⟨s, hdiagnostics, hrest, htraced⟩ := traced_of_parse h
  have hfree : s.ErrorFree := by
    unfold ParserState.ErrorFree
    rwa [hdiagnostics]
  refine ⟨Node.fresh_traceAfter (htraced.fresh hfree), ?_⟩
  rw [← htraced.leaves hfree, hrest, Node.leaves_traceAfter]
  exact List.append_nil _

/-- Whether a text is read to its end, with tokens and a result of some kind. -/
def readsTo (file : FileId) (text : String) (test : List Token → Parsed → Bool) : Bool :=
  match lex file text with
  | .error _ => false
  | .ok lexed =>
    match parse file lexed.tokens with
    | .error _ => false
    | .ok p => test lexed.tokens p

/-- A text that is read so. -/
theorem exists_of_readsTo {file : FileId} {text : String} {test : List Token → Parsed → Bool}
    (h : readsTo file text test = true) : ∃ lexed p, lex file text = .ok lexed ∧
      parse file lexed.tokens = .ok p ∧ test lexed.tokens p = true := by
  unfold readsTo at h
  split at h
  · cases h
  · rename_i lexed hlex
    split at h
    · cases h
    · rename_i p hparse
      exact ⟨lexed, p, hlex, hparse, h⟩

/-- Whether a text is scanned and read to its end without errors. -/
def readsClean (file : FileId) (text : String) : Bool :=
  match lex file text with
  | .error _ => false
  | .ok lexed =>
    match parse file lexed.tokens with
    | .error _ => false
    | .ok p => !Diagnostic.anyError p.diagnostics

/-- A text that is scanned and read without errors. -/
theorem exists_of_readsClean (file : FileId) (text : String) (h : readsClean file text = true) :
    ∃ lexed p, lex file text = .ok lexed ∧ parse file lexed.tokens = .ok p ∧
      Diagnostic.anyError p.diagnostics = false := by
  unfold readsClean at h
  split at h
  · cases h
  · rename_i lexed hlex
    split at h
    · cases h
    · rename_i p hparse
      exact ⟨lexed, p, hlex, hparse, by simpa using h⟩

/-- The tokens of a text before its end mark are all but the last one, which leaves nothing in the
tree. -/
theorem leavesOf_lex {file : FileId} {text : String} {lexed : Lexed}
    (h : lex file text = .ok lexed) :
    leavesOf (lexed.tokens.takeWhile (·.kind ≠ .eof)) = leavesOf lexed.tokens := by
  obtain ⟨before, htokens, hbefore⟩ := (lex_cut h).ends
  have hall : ∀ t ∈ before, decide (t.kind ≠ .eof) = true := fun t ht => by
    simpa using (hbefore t ht).1
  rw [htokens, List.takeWhile_append_of_pos hall, leavesOf_append, leavesOf_append]
  rfl

/-- Nothing is lost and nothing is repeated: the names, literals, lifetimes and self references
among the tokens of a text are the leaves of its statements, in the same order. -/
theorem leaves_of_parse {file : FileId} {text : String} {lexed : Lexed} {p : Parsed}
    (hlex : lex file text = .ok lexed) (hparse : parse file lexed.tokens = .ok p)
    (free : Diagnostic.anyError p.diagnostics = false) :
    leavesOf lexed.tokens = p.stmts.flatMap Node.leaves := by
  rw [← leavesOf_lex hlex, (parse_spells hparse free).2, Node.leaves_ofList]

/-- A call with a name and a string. -/
theorem leaves_of_parse_call : ∃ lexed p, lex ⟨0⟩ "f(x, 'a')" = .ok lexed ∧
    parse ⟨0⟩ lexed.tokens = .ok p ∧ p.stmts.flatMap Node.leaves =
      [.ident ⟨"f", 0, 1, ⟨0⟩⟩, .ident ⟨"x", 2, 1, ⟨0⟩⟩, .literal ⟨.form .single, "a"⟩] := by
  obtain ⟨lexed, p, hlex, hparse, free⟩ := exists_of_readsClean ⟨0⟩ "f(x, 'a')" (by decide +kernel)
  refine ⟨lexed, p, hlex, hparse, (leaves_of_parse hlex hparse free).symm.trans ?_⟩
  cases hlex
  rfl

end FrontEnd
