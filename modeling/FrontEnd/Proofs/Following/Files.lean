import FrontEnd.Proofs.Following.Declarations
import FrontEnd.Proofs.Following.Joining

/-!
# Files side by side

A file is read statement by statement, and is followed as a whole where braces are compared. A run
of its statements can be taken apart into single steps, from which the statements of a longer file,
or of a block, can be put together again.
-/

namespace FrontEnd

/-- A text beside itself. -/
def Simulation.plain : Simulation :=
  .joining (.shift 0 0) [] ignoresNewlines_nil 0 1 first_le_maxErrors [] .none

/-- Everything is like itself there. -/
theorem Simulation.plain_alike {α : Type} [Labeled α] (x : α) : Simulation.plain.like.Alike x x :=
  rfl

/-- Line breaks and semicolons end a statement. -/
def TokenKind.terminates (k : TokenKind) : Bool := k = .newline ∨ k = .symbol .semi

/-- The state behind the terminators at hand. -/
def ParserState.atStatement (s : ParserState) : ParserState := s.skipWhile TokenKind.terminates

namespace Parse

open FollowsTo

variable {K : Comparison} {a : Grip} {pre : ParserState → Prop} {n m bound bound' : Nat}

/-- A stray brace is reported and stepped over. -/
theorem stray_follows (hbraces : K.braces) {span span' : Span} (hspan : K.like.Alike span span')
    {f f' : Unit → Parser (List Stmt)}
    (hf : Follows K 0 .slack .slack (fun _ => True) (f ()) (f' ())) :
    Follows K 0 .slack .slack pre
      (record ⟨.strayBrace, span⟩ >>= fun _ => modify ParserState.bump >>= f)
      (record ⟨.strayBrace, span'⟩ >>= fun _ => modify ParserState.bump >>= f') := by
  have hstep : Follows K 0 .slack .slack pre
      (modify fun s => (s.record ⟨.strayBrace, span⟩).bump)
      (modify fun s => (s.record ⟨.strayBrace, span'⟩).bump) := by
    have hmoved (s : ParserState) : (s.record ⟨.strayBrace, span⟩).bump.groups = s.groups ∧
        (s.record ⟨.strayBrace, span⟩).bump.allowsBrace = s.allowsBrace :=
      ParserState.bumpBy_frame 1 (s.record ⟨.strayBrace, span⟩)
    refine update (fun s _ _ => ?_) fun s t hlinked _ _ _ _ => ?_
    · exact ⟨(s.report_onward _).trans (ParserState.bump_onward _), (hmoved s).1, (hmoved s).2,
        fun _ => ⟨rfl, fun _ => rfl⟩⟩
    · rcases K.record (K.gaps (Or.inr hbraces)) hlinked hspan with hlost | hlinked'
      · exact Or.inl (K.lost_onward hlost (ParserState.bump_onward _) fun _ => (hmoved s).1)
      · exact (K.bump _ _ hbraces hlinked').imp_right (Or.imp_left fun hended => ⟨rfl, hended⟩)
  have hboth : Follows K 0 .slack .slack pre
      (modify (fun s => (s.record ⟨.strayBrace, span⟩).bump) >>= f)
      (modify (fun s => (s.record ⟨.strayBrace, span'⟩).bump) >>= f') := bind hstep fun _ _ _ => hf
  exact hboth

/-- The statements of a file. -/
theorem fileStmts_follows (hbraces : K.braces) (hbound : K.Bounds bound bound')
    (hnm : K.Bounds n m) :
    Follows K 0 .slack .slack pre (fileStmts bound n) (fileStmts bound' m) := by
  induction n generalizing m pre with
  | zero => exact stalled_follows (q := fileStmts bound') rfl hnm
  | succ n ih =>
    obtain ⟨m, rfl, hbounds⟩ := K.bounds_succ hnm
    unfold fileStmts
    refine at_bind (fun _ => rfl) fun ends => ite (fun _ => result rfl) fun _ => ?_
    refine atSymbol_bind fun stray => ite (fun _ => ?_) fun _ => ?_
    · refine here_bind fun span span' hspan => stray_follows hbraces hspan ?_
      exact bind skipTerminators_follows fun _ _ _ => ih hbounds
    · refine bind (stmtOrStub_follows hbraces (grammar_follows hbound) hbound) fun x x' hx => ?_
      refine bind skipTerminators_follows fun _ _ _ => ?_
      exact bind (ih hbounds) fun xs xs' hxs => result (hx.cons hxs)

/-- A file. -/
theorem file_follows (hbraces : K.braces) (hnm : K.Bounds n m) :
    Follows K 0 .slack .slack pre (file n) (file m) :=
  bind skipTerminators_follows fun _ _ _ => fileStmts_follows hbraces hnm hnm

/-- Statements that are read one after the other, each with its terminators. -/
inductive Statements (step : Parser Stmt) : ParserState → List Stmt → ParserState → Prop
  | nil (s : ParserState) : Statements step s [] s
  | cons {s s₁ s' : ParserState} {x : Stmt} {xs : List Stmt} (more : s.kind ≠ .eof)
    (inside : s.kind ≠ .symbol .rBrace) (first : step s = .ok x s₁)
    (others : Statements step s₁.atStatement xs s') : Statements step s (x :: xs) s'

/-- One run of statements after another. -/
theorem Statements.append {step : Parser Stmt} {s s' s'' : ParserState} {xs ys : List Stmt}
    (h : Statements step s xs s') (h' : Statements step s' ys s'') :
    Statements step s (xs ++ ys) s'' := by
  induction h with
  | nil => exact h'
  | cons more inside first _ ih => exact .cons more inside first (ih h')

/-- A result is changed where there is one. -/
theorem map_run {α β : Type} (f : α → β) (p : Parser α) (s : ParserState) : (f <$> p) s =
    match p s with
    | .ok a s' => .ok (f a) s'
    | .error e s' => .error e s' := by
  change EStateM.map f p s = _
  unfold EStateM.map
  cases p s <;> rfl

/-- The token at hand is looked at. -/
theorem kind_run (s : ParserState) : kind s = .ok s.kind s := rfl

/-- What reading a statement or a stub does. -/
theorem stmtOrStub_run (n : Nat) (g : Grammar) (s : ParserState) : stmtOrStub n g s =
    match recovering (stmt n g) s with
    | .ok (some x) s₁ => .ok x s₁
    | .ok none s₁ => .ok (.stmt ⟨⟨s₁.nextId⟩, s₁.spanFrom s.current.span⟩ .errorStmt)
        { s₁ with nextId := s₁.nextId + 1 }
    | .error e s₁ => .error e s₁ := by
  change EStateM.bind (recovering (stmt n g)) _ s = _
  unfold EStateM.bind
  cases recovering (stmt n g) s with
  | error e s₁ => rfl
  | ok x? s₁ => cases x? <;> rfl

/-- A statement ends with a result as long as there are not too many errors. -/
theorem finished_ok {β : Type} {before s s' : ParserState} {r r' : β}
    (h : finished before r s = .ok r' s') :
    r' = r ∧ s' = s.settle before ∧ s'.errorCount < maxErrors := by
  unfold finished at h
  split at h
  · cases h
  · rename_i hfew
    cases h
    exact ⟨rfl, rfl, Nat.lt_of_not_le hfew⟩

/-- Where a result comes from: the statement was read, or it failed and a stub stands for it. -/
theorem stmtOrStub_ok {g : Grammar} {s s' : ParserState} {x : Stmt}
    (h : stmtOrStub n g s = .ok x s') :
    s'.errorCount < maxErrors ∧ ((∃ s₁, stmt n g s = .ok x s₁ ∧ s' = s₁.settle s) ∨
      ∃ e s₁ s₂, stmt n g s = .error e s₁ ∧ e.isFatal = false ∧ s₂ = (s₁.record e).settle s ∧
        x = .stmt ⟨⟨s₂.nextId⟩, s₂.spanFrom s.current.span⟩ .errorStmt ∧
        s' = { s₂ with nextId := s₂.nextId + 1 }) := by
  rw [stmtOrStub_run, recovering_run] at h
  cases hrun : stmt n g s with
  | ok x₀ s₁ =>
    rw [hrun] at h
    dsimp only at h
    cases hfinished : finished s (some x₀) s₁ with
    | error e s₂ =>
      rw [hfinished] at h
      cases h
    | ok x? s₂ =>
      obtain ⟨rfl, rfl, hfew⟩ := finished_ok hfinished
      rw [hfinished] at h
      cases h
      exact ⟨hfew, Or.inl ⟨s₁, rfl, rfl⟩⟩
  | error e s₁ =>
    rw [hrun] at h
    cases hfatal : e.isFatal with
    | true =>
      dsimp only at h
      rw [if_pos hfatal] at h
      cases h
    | false =>
      dsimp only at h
      rw [if_neg (by rw [hfatal]; exact Bool.false_ne_true)] at h
      cases hfinished : finished (β := Option Stmt) s none (s₁.record e) with
      | error e s₂ =>
        rw [hfinished] at h
        cases h
      | ok x? s₂ =>
        obtain ⟨rfl, hs₂, hfew⟩ := finished_ok hfinished
        rw [hfinished] at h
        cases h
        exact ⟨hfew, Or.inr ⟨e, s₁, s₂, rfl, hfatal, hs₂, rfl, rfl⟩⟩

/-- A single statement goes on in the text and leaves the groups as they are. -/
theorem stmtOrStub_onward {s s' : ParserState} {x : Stmt} (sound : s.Sound)
    (h : stmtOrStub n (grammar m) s = .ok x s') : s.Onward s' ∧ s.SameFrame s' := by
  have hg : GrammarFollows Simulation.plain (grammar m) (grammar m) :=
    grammar_follows (Nat.le_refl m)
  have hfollows : Follows Simulation.plain 0 .firm .slack (fun _ => True)
      (stmtOrStub n (grammar m)) (stmtOrStub n (grammar m)) :=
    stmtOrStub_follows trivial hg (Nat.le_refl n)
  have run := hfollows.runs sound.final trivial
  rw [h] at run
  exact ⟨run.onward, run.groups, run.brace⟩

/-- So does a run of statements. -/
theorem Statements.onward {s s' : ParserState} {xs : List Stmt}
    (h : Statements (stmtOrStub n (grammar m)) s xs s') (sound : s.Sound) :
    s.Onward s' ∧ s.SameFrame s' := by
  induction h with
  | nil s => exact ⟨.refl s, rfl, rfl⟩
  | @cons s s₁ s' x xs _ _ first _ ih =>
    obtain ⟨onward, hframe⟩ := stmtOrStub_onward sound first
    have hskip := s₁.skipWhile_onward TokenKind.terminates
    obtain ⟨onward', hframe'⟩ := ih ((onward.trans hskip).sound sound)
    exact ⟨(onward.trans hskip).trans onward', hframe.trans hframe'⟩

/-- A run of statements is given up before there are too many errors. -/
theorem Statements.limit {g : Grammar} {s s' : ParserState} {xs : List Stmt}
    (h : Statements (stmtOrStub n g) s xs s') (hs : s.errorCount < maxErrors) :
    s'.errorCount < maxErrors := by
  induction h with
  | nil => exact hs
  | cons _ _ first _ ih => exact ih (stmtOrStub_ok first).1

/-- Statements in front of the other ones of a file, whatever becomes of those. -/
theorem fileStmts_behind {t t' : ParserState} {ys : List Stmt}
    (h : Statements (stmtOrStub bound (grammar bound)) t ys t') :
    fileStmts bound (ys.length + n) t = ((ys ++ ·) <$> fileStmts bound n) t' := by
  induction h with
  | nil t =>
    rw [List.length_nil, Nat.zero_add, map_run]
    cases fileStmts bound n t <;> rfl
  | @cons s s₁ t' x xs more inside first _ ih =>
    rw [List.length_cons, Nat.add_right_comm]
    conv => lhs; unfold fileStmts
    change (if (s.kind == .eof) = true then _ else _ : Parser (List Stmt)) s = _
    rw [if_neg (mt beq_iff_eq.1 more)]
    change (if (s.kind == .symbol .rBrace) = true then _ else _ : Parser (List Stmt)) s = _
    rw [if_neg (mt beq_iff_eq.1 inside)]
    refine (bind_run first).trans ?_
    change EStateM.bind (fileStmts bound (xs.length + n)) _ s₁.atStatement = _
    unfold EStateM.bind
    rw [ih, map_run, map_run]
    cases fileStmts bound n t' <;> rfl

/-- So two runs of statements are put together. -/
theorem fileStmts_append {t t' t'' : ParserState} {ys zs : List Stmt}
    (h : Statements (stmtOrStub bound (grammar bound)) t ys t')
    (hrest : fileStmts bound n t' = .ok zs t'') :
    fileStmts bound (ys.length + n) t = .ok (ys ++ zs) t'' := by
  rw [fileStmts_behind h, map_run, hrest]

/-- Statements up to the closing brace of a block. -/
theorem stmtList_of_statements {g : Grammar} {t t' : ParserState} {ys : List Stmt}
    (h : Statements (stmtOrStub bound g) t ys t') (hclose : t'.kind = .symbol .rBrace)
    (hn : ys.length < n) : stmtList bound g n t = .ok ys t' := by
  induction h generalizing n with
  | nil s =>
    obtain ⟨n, rfl⟩ : ∃ n', n = n' + 1 := ⟨n - 1, by omega⟩
    unfold stmtList
    change (if (s.kind == .symbol .rBrace) = true ∨ (s.kind == .eof) = true then _ else _ :
      Parser (List Stmt)) s = _
    rw [if_pos (Or.inl (beq_iff_eq.2 hclose))]
    rfl
  | @cons s s₁ _ x xs more inside first _ ih =>
    rw [List.length_cons] at hn
    obtain ⟨n, rfl⟩ : ∃ n', n = n' + 1 := ⟨n - 1, by omega⟩
    unfold stmtList
    change (if (s.kind == .symbol .rBrace) = true ∨ (s.kind == .eof) = true then _ else _ :
      Parser (List Stmt)) s = _
    rw [if_neg (not_or.2 ⟨mt beq_iff_eq.1 inside, mt beq_iff_eq.1 more⟩)]
    refine (bind_run first).trans ?_
    change (stmtList bound g n >>= _) s₁.atStatement = _
    exact bind_run (ih hclose (by omega))

/-- That a closing brace outside all blocks was reported. -/
def strayBraceAt (span : Span) : Diagnostic := (SyntaxError.mk .strayBrace span).toDiagnostic

/-- Without errors there is no such report. -/
theorem no_stray_of_errorFree {s : ParserState} (h : s.errorCount = 0) (span : Span) :
    strayBraceAt span ∉ s.diagnostics :=
  fun hmem => List.countP_eq_zero.1 h _ hmem (SyntaxError.isError_toDiagnostic _)

/-- Reading the statements of a file goes on in the text and keeps what was reported, also where it
is given up. -/
theorem fileStmts_runs {s : ParserState} (sound : s.Sound) :
    RunOutcome 0 .slack (fun _ => .slack) s (fileStmts bound n s) := by
  have hfollows : Follows Simulation.plain 0 .slack .slack (fun _ => True) (fileStmts bound n)
      (fileStmts bound n) :=
    fileStmts_follows trivial (Nat.le_refl bound) (Nat.le_refl n)
  exact hfollows.runs sound.final trivial

/-- The statements of a file without stray braces are read one after the other, up to the end. -/
theorem fileStmts_statements {s s' : ParserState} {xs : List Stmt} (sound : s.Sound)
    (h : fileStmts bound n s = .ok xs s') (hstray : ∀ span, strayBraceAt span ∉ s'.diagnostics) :
    Statements (stmtOrStub bound (grammar bound)) s xs s' ∧ xs.length < n := by
  induction n generalizing s xs with
  | zero => cases h
  | succ n ih =>
    unfold fileStmts at h
    obtain ⟨ends, s₁, h₁, h⟩ := bind_ok h
    cases h₁
    split at h
    · cases h
      exact ⟨.nil _, Nat.succ_pos n⟩
    · rename_i hmore
      obtain ⟨stray, s₂, h₂, h⟩ := bind_ok h
      cases h₂
      split at h
      · -- The report of a stray brace would be found at the end.
        obtain ⟨span, s₃, h₃, h⟩ := bind_ok h
        cases h₃
        obtain ⟨_, s₄, h₄, h⟩ := bind_ok h
        obtain ⟨_, s₅, h₅, h⟩ := bind_ok h
        obtain ⟨_, s₆, h₆, h⟩ := bind_ok h
        cases h₄
        cases h₅
        cases h₆
        have hrecord := s.report_onward (strayBraceAt s.current.span)
        have hmoved := (hrecord.trans (ParserState.bump_onward _)).trans
          (ParserState.skipWhile_onward TokenKind.terminates _)
        have run : RunOutcome 0 .slack (fun _ => .slack) _ (fileStmts bound n _) :=
          fileStmts_runs (hmoved.sound sound)
        have hthere : strayBraceAt s.current.span ∈
            (s.report (strayBraceAt s.current.span)).diagnostics :=
          List.mem_append_right _ List.mem_cons_self
        have hsame : RunOutcome 0 .slack (fun _ => .slack) _ (EStateM.Result.ok xs s') := h ▸ run
        have hlater := ((ParserState.bump_onward _).trans
          (ParserState.skipWhile_onward TokenKind.terminates _)).trans hsame.onward
        exact absurd (hlater.diagnostics.subset hthere) (hstray _)
      · rename_i hinside
        obtain ⟨x, s₃, h₃, h⟩ := bind_ok h
        obtain ⟨_, s₄, h₄, h⟩ := bind_ok h
        cases h₄
        obtain ⟨others, s₅, h₅, h⟩ := bind_ok h
        cases h
        have hskip := s₃.skipWhile_onward TokenKind.terminates
        obtain ⟨hothers, hlength⟩ := ih
          (((stmtOrStub_onward sound h₃).1.trans hskip).sound sound) h₅
        exact ⟨.cons (mt beq_iff_eq.2 hmore) (mt beq_iff_eq.2 hinside) h₃ hothers,
          Nat.succ_lt_succ hlength⟩

end Parse

/-- A whole file without stray braces is read statement by statement, up to its end. -/
theorem Parse.file_statements {file : FileId} {tokens : List Token} {n : Nat} {xs : List Stmt}
    {s' : ParserState} (h : Parse.file n (.start file tokens) = .ok xs s')
    (hstray : ∀ span, strayBraceAt span ∉ s'.diagnostics) :
    Statements (stmtOrStub n (grammar n)) (ParserState.start file tokens).atStatement xs s' ∧
      (ParserState.start file tokens).atStatement.Sound ∧ xs.length < n ∧ s'.rest = [] := by
  have hstmts : fileStmts n n (ParserState.start file tokens).atStatement = .ok xs s' := h
  have sound : (ParserState.start file tokens).atStatement.Sound :=
    (ParserState.skipWhile_onward _ _).sound (ParserState.start_sound file tokens)
  obtain ⟨hstatements, hlength⟩ := fileStmts_statements sound hstmts hstray
  have sound' : s'.Sound := (hstatements.onward sound).1.sound sound
  exact ⟨hstatements, sound, hlength, sound'.kind_eq_eof.1 (fileStmts_end hstmts)⟩

/-- The state in which a file is left, at its end or where it was given up. -/
def endState (file : FileId) (tokens : List Token) : ParserState :=
  match Parse.file (tokens.length + 1) (ParserState.start file tokens) with
  | .ok _ s => s
  | .error _ s => s

/-- How a file was read to its end. -/
theorem parse_ok {file : FileId} {tokens : List Token} {p : Parsed}
    (h : parse file tokens = .ok p) :
    Parse.file (tokens.length + 1) (.start file tokens) = .ok p.stmts (endState file tokens) ∧
      (endState file tokens).diagnostics = p.diagnostics := by
  unfold parse at h
  unfold endState
  cases hfile : Parse.file (tokens.length + 1) (ParserState.start file tokens) with
  | error e s =>
    rw [hfile] at h
    cases h
  | ok stmts s =>
    rw [hfile] at h
    cases h
    exact ⟨rfl, rfl⟩

/-- At the end of a file no group is open. -/
theorem endState_frame {file : FileId} {tokens : List Token} {p : Parsed}
    (h : parse file tokens = .ok p) :
    (endState file tokens).groups = [] ∧ (endState file tokens).allowsBrace = true := by
  have hfollows : Follows Simulation.plain 0 .slack .slack (fun _ => True)
      (Parse.file (tokens.length + 1)) (Parse.file (tokens.length + 1)) :=
    Parse.file_follows trivial (Nat.le_refl _)
  have run := hfollows.runs (ParserState.start_sound file tokens).final trivial
  rw [(parse_ok h).1] at run
  exact ⟨run.groups, run.brace⟩

/-- The end mark behind the last token is what the text ends with. -/
theorem ParserState.start_final_mark {file : FileId} {before : List Token} {span : Span}
    (hbefore : ∀ t ∈ before, t.kind ≠ .eof) :
    (ParserState.start file (before ++ [⟨.eof, span⟩])).final = ⟨.eof, span⟩ := by
  have hnone : before.find? (·.kind = .eof) = none :=
    List.find?_eq_none.2 fun t ht => by simpa using hbefore t ht
  unfold ParserState.start
  dsimp only
  rw [List.find?_append, hnone]
  rfl

/-- What is in front of the end mark is left to be read. -/
theorem ParserState.start_rest {file : FileId} {before : List Token} {span : Span}
    (hbefore : ∀ t ∈ before, t.kind ≠ .eof) :
    (ParserState.start file (before ++ [⟨.eof, span⟩])).rest = before := by
  unfold ParserState.start
  dsimp only
  rw [List.takeWhile_append_of_pos fun t ht => by simpa using hbefore t ht]
  simp

/-- A file that is read to its end. -/
theorem parse_of_file {file : FileId} {tokens : List Token} {stmts : List Stmt} {s : ParserState}
    (h : Parse.file (tokens.length + 1) (.start file tokens) = .ok stmts s) :
    parse file tokens = .ok ⟨stmts, s.diagnostics⟩ := by
  unfold parse
  rw [h]

/-- Whether some tokens are read to their end without errors. -/
def parsesClean (file : FileId) (tokens : List Token) : Bool :=
  match parse file tokens with
  | .error _ => false
  | .ok p => !Diagnostic.anyError p.diagnostics

theorem parsesClean_iff {file : FileId} {tokens : List Token} : parsesClean file tokens = true ↔
    ∃ p, parse file tokens = .ok p ∧ Diagnostic.anyError p.diagnostics = false := by
  unfold parsesClean
  cases parse file tokens with
  | error e => simp
  | ok p => simp

end FrontEnd
