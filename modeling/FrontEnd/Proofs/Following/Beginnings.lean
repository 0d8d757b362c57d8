import FrontEnd.Proofs.Following.Files

/-!
# What begins a statement

A text that is read without errors does not begin with a token that goes on with the statement of an
earlier line: no statement begins so.
-/

namespace FrontEnd

/-- The tokens that go on with a statement. -/
theorem TokenKind.continues_cases {k : TokenKind} (h : k.continues = true) :
    k = .symbol .dot ∨ k = .symbol .safeCall ∨ k = .keyword .elif ∨ k = .keyword .else_ ∨
      k = .keyword .catch_ := by
  unfold TokenKind.continues at h
  split at h
  all_goals first | simp | cases h

namespace Parse

variable {s s' : ParserState} {n : Nat} {g : Grammar}

/-- A parser that reports an error before it has a result. -/
def Complains {α : Type} (p : Parser α) (s : ParserState) : Prop :=
  ∀ x s', p s = .ok x s' → s.errorCount < s'.errorCount ∧ s'.Sound

/-- What comes after a complaint does not take it back. -/
theorem Complains.bind {α β : Type} [Labeled β] {p : Parser α} {f : α → Parser β}
    (hp : Complains p s)
    (hf : ∀ x, Follows Simulation.plain 0 .firm .slack (fun _ => True) (f x) (f x)) :
    Complains (p >>= f) s := by
  intro z s'' h
  obtain ⟨x, s₁, hx, hz⟩ := bind_ok h
  obtain ⟨hcount, sound⟩ := hp x s₁ hx
  have run := (hf x).runs sound.final trivial
  rw [hz] at run
  exact ⟨Nat.lt_of_lt_of_le hcount run.onward.count, run.onward.sound sound⟩

/-- No expression is given by such a token. -/
theorem simpleForm_none (hk : s.kind.continues = true) : simpleForm? g s = .ok none s := by
  unfold simpleForm?
  rw [bind_run (kind_run s)]
  dsimp only
  rcases TokenKind.continues_cases hk with hk | hk | hk | hk | hk <;> rw [hk] <;> rfl

/-- No expression begins with such a token. -/
theorem primary_complains (hk : s.kind.continues = true) (sound : s.Sound) :
    Complains (primary n g) s := by
  have hrun : primary n g s =
      (reportExpected "expression" >>= fun _ => here >>= newExpr .errorExpr) s := by
    unfold primary
    rw [bind_run (kind_run s)]
    dsimp only
    rcases TokenKind.continues_cases hk with hk' | hk' | hk' | hk' | hk' <;> rw [hk'] <;>
      exact bind_run (simpleForm_none hk)
  intro x s' h
  rw [hrun] at h
  obtain ⟨_, s₁, hreport, hnode⟩ := bind_ok h
  rw [reportExpected_run] at hreport
  split at hreport
  · cases hreport
  · cases hreport
    cases hnode
    have hcount := s.record_count (s.expectedError "expression")
    exact ⟨by change s.errorCount < (s.record _).errorCount; omega, sound.final, sound.rest⟩

/-- An operand without operators before it. -/
theorem operand_plain (hnone : PrefixOp.ofTokens? s.kind s.nextKind = none) :
    operand n g s = (primary n g >>= suffixes n g n) s := by
  have hview : ((fun s : ParserState => (s.current.span, PrefixOp.ofTokens? s.kind s.nextKind)) <$>
      get : Parser (Span × Option PrefixOp)) s = .ok (s.current.span, none) s := by
    rw [← hnone]
    rfl
  rw [operand_eq]
  exact bind_run hview

/-- No operand begins so. -/
theorem operand_complains (hg : GrammarFollows Simulation.plain g g)
    (hk : s.kind.continues = true) (sound : s.Sound) : Complains (operand n g) s := by
  have hrun : operand n g s = (primary n g >>= suffixes n g n) s := by
    refine operand_plain ?_
    rcases TokenKind.continues_cases hk with hk | hk | hk | hk | hk <;> rw [hk] <;> rfl
  have hcomplains : Complains (primary n g >>= suffixes n g n) s :=
    (primary_complains hk sound).bind fun e =>
      (suffixes_follows hg (Nat.le_refl n) (Nat.le_refl n) rfl).slacken
  intro x s' h
  exact hcomplains x s' (hrun ▸ h)

/-- No expression begins so, whatever its operators. -/
theorem binary_complains (hg : GrammarFollows Simulation.plain g g)
    (hk : s.kind.continues = true) (sound : s.Sound) {levels : List Level}
    (hlevels : ∀ level ∈ levels, level.Written) : Complains (binary n g levels) s := by
  induction levels with
  | nil =>
    exact (operand_complains hg hk sound).bind fun e =>
      (powerBehind_follows hg (Nat.le_refl n) rfl).slacken
  | cons level levels ih =>
    have htighter : ∀ l ∈ levels, l.Written := fun l hl => hlevels l (List.mem_cons_of_mem level hl)
    exact (ih htighter).bind fun e => (chain_follows (hlevels level List.mem_cons_self)
      (binary_follows hg (Nat.le_refl n) htighter) (Nat.le_refl n) rfl).slacken

/-- No statement begins so. -/
theorem stmt_complains (hg : GrammarFollows Simulation.plain g g)
    (hk : s.kind.continues = true) (sound : s.Sound) : Complains (stmt n g) s := by
  have hexpr : Complains (expr n g) s :=
    (binary_complains hg hk sound Level.all_written).bind fun e =>
      (exprBehind_follows hg rfl).slacken
  have hform : Complains (stmtForm n g) s := by
    have hrun : stmtForm n g s = (expr n g >>= fun e => pure (.exprStmt e)) s := by
      unfold stmtForm
      rw [bind_run (kind_run s)]
      dsimp only
      rcases TokenKind.continues_cases hk with hk | hk | hk | hk | hk <;> rw [hk] <;> rfl
    intro x s' h
    have hbind : Complains (expr n g >>= fun e => pure (Node.exprStmt e)) s :=
      hexpr.bind fun e => (FollowsTo.result (d := .firm) (Simulation.plain_alike _)).slacken
    exact hbind x s' (hrun ▸ h)
  refine hform.bind (f := fun form => do
    return Node.stmt ⟨← freshId, ← spanFrom s.current.span⟩ form) fun form => ?_
  refine FollowsTo.bind freshId_follows fun id id' hid => ?_
  refine spanFrom_bind (Simulation.plain_alike _) fun span span' hspan => ?_
  obtain rfl : id = id' := hid
  obtain rfl : span = span' := hspan
  exact (FollowsTo.result (d := .firm) (Simulation.plain_alike _)).slacken

/-- A statement that begins so is reported. -/
theorem stmtOrStub_complains {x : Stmt} (hk : s.kind.continues = true) (sound : s.Sound)
    (h : stmtOrStub n (grammar n) s = .ok x s') : s.errorCount < s'.errorCount := by
  have hg : GrammarFollows Simulation.plain (grammar n) (grammar n) :=
    grammar_follows (Nat.le_refl n)
  have hfollows : Follows Simulation.plain 0 .firm .firm (fun _ => True) (stmt n (grammar n))
      (stmt n (grammar n)) := stmt_follows hg (Nat.le_refl n)
  have run := hfollows.runs sound.final trivial
  rcases (stmtOrStub_ok h).2 with ⟨s₁, hrun, rfl⟩ | ⟨e, s₁, s₂, hrun, -, rfl, -, rfl⟩
  · obtain ⟨hcount, -⟩ := stmt_complains hg hk sound x s₁ hrun
    rw [hrun] at run
    have hsettled := (s₁.settle_onward s).count
    omega
  · rw [hrun] at run
    have hcount := s₁.record_count e
    have hmore := run.onward.count
    have hsettled := ((s₁.record e).settle_onward s).count
    change s.errorCount < ((s₁.record e).settle s).errorCount
    omega

/-- A text that is read without errors does not go on with an earlier statement. -/
theorem fresh_of_errorFree {file : FileId} {tokens : List Token} {xs : List Stmt}
    (h : Parse.file n (.start file tokens) = .ok xs s') (hclean : s'.errorCount = 0) :
    Fresh (ParserState.start file tokens).rest := by
  let s := ParserState.start file tokens
  obtain ⟨hstatements, sound, -, hend⟩ := file_statements h (no_stray_of_errorFree hclean)
  intro t ht
  by_contra hcontinues
  rw [Bool.not_eq_false] at hcontinues
  -- The token stands at the beginning of the first statement.
  have hkind : s.atStatement.kind.continues = true := by
    obtain ⟨us, hus⟩ := List.head?_eq_some_iff.1 ht
    have hbreaks : ∀ t ∈ s.rest.takeWhile (·.kind = .newline), t.kind.terminates = true := by
      intro x hx
      have hnewline : x.kind = .newline := by
        simpa using List.all_eq_true.1 List.all_takeWhile x hx
      rw [hnewline]
      rfl
    have hfirst : t.kind.terminates = false := by
      rcases TokenKind.continues_cases hcontinues with hk | hk | hk | hk | hk <;> rw [hk] <;> rfl
    have hrest : s.atStatement.rest = t :: us := by
      change s.rest.dropWhile (·.kind.terminates) = t :: us
      rw [← List.takeWhile_append_dropWhile (p := (·.kind = .newline)) (l := s.rest),
        List.dropWhile_append_of_pos hbreaks, hus, List.dropWhile_cons_of_neg (by simp [hfirst])]
    unfold ParserState.kind ParserState.current
    rw [hrest]
    exact hcontinues
  cases hstatements with
  | nil =>
    rw [sound.kind_eq_eof.2 hend] at hkind
    cases hkind
  | @cons _ s₂ _ x xs _ _ first others =>
    have hfirst := stmtOrStub_complains hkind sound first
    have onward := (stmtOrStub_onward sound first).1.trans
      (s₂.skipWhile_onward TokenKind.terminates)
    have hothers : s₂.errorCount ≤ s'.errorCount := (others.onward (onward.sound sound)).1.count
    omega

end Parse

end FrontEnd
