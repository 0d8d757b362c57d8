import FrontEnd.Proofs.Bodies.Lines
import FrontEnd.Proofs.Bodies.Members
import FrontEnd.Proofs.Following.Cutting

/-!
# Expressions as parts of a body

A text that is a single expression is read by one run of the parser of expressions. On a line of its
own it is read alike, if the next line does not go on with it. An `else` on the next line may go on
with it: there the text is read as it is read with the `else` below it.
-/

namespace FrontEnd

open Parse

/-- The tokens of a text that is read alone as a single expression without errors, and does not
begin with the end of a statement; and whether it leaves half of a `>>` behind. -/
structure ExpressionTokens (file : FileId) (tokens : List Token) (e : Expr) (half : Bool) :
    Prop where
  parsed : ∃ p o, parse file tokens = .ok p ∧ Diagnostic.anyError p.diagnostics = false ∧
    p.stmts = [.stmt o (.exprStmt e)]
  begins : (ParserState.start file tokens).kindAfterNewlines ≠ .symbol .semi
  half : (endState file tokens).halfShift = half

/-- Without errors, what is asked of an expression is read up to the terminators at the end. -/
structure ExpressionRun (file : FileId) (tokens : List Token) (behind : List TokenKind) (e : Expr)
    (half : Bool) (s' : ParserState) : Prop where
  run : ∃ e', expr (tokens.length + 1) (grammar (tokens.length + 1))
    (ParserState.start file tokens).skipNewlines = .ok e' s' ∧ Likeness.bare.Alike e e'
  count : s'.errorCount = 0
  rest : s'.atStatement.rest.map (·.kind) = behind
  half : s'.halfShift = half

/-- A text that is an expression is read by one run of the parser of expressions. -/
theorem ExpressionTokens.alone {file : FileId} {tokens : List Token} {e : Expr} {half : Bool}
    (h : ExpressionTokens file tokens e half) :
    (ParserState.start file tokens).skipNewlines.rest ≠ [] ∧
      ∃ s', ExpressionRun file tokens [] e half s' := by
  obtain ⟨p, o, hparse, free, hstmts⟩ := h.parsed
  obtain ⟨more, -, s', hrun, hfree, -, hlast, hrest⟩ := parse_statement hparse free hstmts
  obtain ⟨s₁, hform, rfl⟩ := stmt_run hrun
  have hexpr := (stmtForm_run hform).2 e rfl
  have sound := ParserState.start_sound file tokens
  have hskip : (ParserState.start file tokens).atStatement =
      (ParserState.start file tokens).skipNewlines := by
    refine ParserState.skipWhile_more (fun k hk => ?_) ?_ rfl
    · simp [TokenKind.terminates, of_decide_eq_true hk]
    · simp only [TokenKind.terminates, decide_eq_false_iff_not, not_or]
      refine ⟨fun hbroken => ?_, h.begins⟩
      have hnone : decide ((ParserState.start file tokens).skipNewlines.kind = .newline) = false :=
        ParserState.skipWhile_kind (p := fun k => decide (k = .newline)) (by rw [sound.final]; rfl)
      exact of_decide_eq_false hnone hbroken
  rw [hskip] at hexpr more
  have hsome := ((ParserState.skipWhile_onward _ _).sound sound).rest_ne_nil more
  refine ⟨hsome, s₁, ⟨e, hexpr, rfl⟩, (ParserState.errorFree_iff s₁).1 hfree, congrArg _ hrest, ?_⟩
  rw [← h.half, ← hlast]
  rfl

/-- A text that breaks off behind some token is read inside a block up to there. -/
theorem InBlock.linked_cut {file : FileId} {tokens ms w : List Token} {t : ParserState}
    {mark : TokenKind} (h : InBlock false 0 (ms ++ w) t)
    (halike : Likeness.bare.Alike (ParserState.start file tokens).rest ms) (hmark : mark.Bounds)
    (hlast : (ParserState.start file tokens).rest.getLast?.map (·.kind) = some mark) :
    (Simulation.cutting .bare [⟨false, true⟩] rfl t.warnings hmark w).Linked
    (.start file tokens) t where
  sound := ParserState.start_sound file tokens
  final := h.sound.final
  stream := ⟨hlast, ms, halike, h.rest⟩
  groups := h.groups
  brace := h.brace
  half := h.half
  ids := fun _ => rfl
  count := h.count
  warned := ⟨[], (List.append_nil _).symm, rfl⟩
  ends := fun _ _ _ => rfl
  finals := fun h => absurd trivial h

/-- The run of an expression is followed on a right stream, up to where the expression ends. -/
theorem ExpressionRun.follow {K : Simulation} {file : FileId} {tokens : List Token}
    {behind : List TokenKind} {e : Expr} {half : Bool} {s' t : ParserState} {n m : Nat}
    (h : ExpressionRun file tokens behind e half s') (hlike : K.like = .bare) (hlimit : K.limit = 1)
    (htail : e.dangles = true → K.tail = .firm) (hlinked : K.Linked (.start file tokens) t)
    (hsome : (ParserState.start file tokens).skipNewlines.rest ≠ []) (hcut : s'.rest ≠ [] ∨ ¬K.cut)
    (hn : tokens.length + 1 ≤ n) (hm : tokens.length + 1 ≤ m) :
    s'.groups = [] ∧ s'.allowsBrace = true ∧ ∃ z t', expr n (grammar m) t.skipNewlines = .ok z t' ∧
      Likeness.bare.Alike e z ∧ K.Linked s' t' := by
  obtain ⟨e', hrun, he⟩ := h.run
  have hfollows : FollowsTo K 0 .firm (Comparison.behind K) (fun _ => True)
      (expr (tokens.length + 1) (grammar (tokens.length + 1))) (expr n (grammar m)) :=
    expr_follows (grammar_follows hm) hn
  have hbehind : K.Linked (ParserState.start file tokens).skipNewlines t.skipNewlines := by
    refine (hlinked.skip (p := fun k => k = .newline) rfl fun k hk => ?_).resolve_left
      fun hended => hsome hended.2
    rw [of_decide_eq_true hk]
    exact ⟨rfl, rfl⟩
  have run := hfollows.runs hbehind.sound.final trivial
  rw [hrun] at run
  have hgroups : s'.groups = [] := run.groups
  obtain ⟨z, t', hright, hz, hlinked'⟩ := hfollows.result_right hbehind trivial
    (K.not_lost hlimit rfl (Or.inl hsome)) hrun
    (K.not_lost hlimit h.count (hcut.imp_right fun hcut => ⟨hgroups, hcut⟩))
    (Comparison.gripOf_firm (he.dangles ▸ htail))
  have hz' : K.like.Alike e' z := hz
  rw [hlike] at hz'
  exact ⟨hgroups, run.brace, z, t', hright, he.trans hz', hlinked'⟩

/-- In front of a line break and later tokens, an expression is read up to the next line. -/
def ReadsInFront (e : Expr) (half : Bool) (size : Nat) (ks next : List TokenKind) : Prop :=
  ∀ ⦃t : ParserState⦄ ⦃n m : Nat⦄, InBlock false 0 t.rest t →
    t.rest.map (·.kind) = ks ++ .newline :: next → size ≤ n → size ≤ m →
    ∃ z t', expr n (grammar m) t.skipNewlines = .ok z t' ∧ Likeness.bare.Alike e z ∧
      InBlock half 0 t'.atStatement.rest t'.atStatement ∧ t'.atStatement.rest.map (·.kind) = next

/-- The kinds of what is left at the next statement. -/
theorem ParserState.atStatement_kinds (s : ParserState) : s.atStatement.rest.map (·.kind) =
    (s.rest.map (·.kind)).dropWhile TokenKind.terminates := by
  rw [List.dropWhile_map]
  rfl

/-- An expression is read in front of a line that does not go on with it. -/
theorem ExpressionTokens.readsInFront {file : FileId} {tokens : List Token} {e : Expr} {half : Bool}
    {next : List TokenKind} (h : ExpressionTokens file tokens e half)
    (hnext : ∀ k ∈ next.head?, k.terminates = false ∧ k.continues = false) :
    ReadsInFront e half (tokens.length + 1)
      ((ParserState.start file tokens).rest.map (·.kind)) next := by
  intro t n m ht hkinds hn hm
  obtain ⟨hsome, s', hrun⟩ := h.alone
  obtain ⟨ms, y, v, hrest, hms, hy, hv⟩ := split_line hkinds
  have hnew : next.dropWhile (· = .newline) = next ∧
      next.dropWhile TokenKind.terminates = next := by
    cases next with
    | nil => exact ⟨rfl, rfl⟩
    | cons k ks =>
      have hk := (hnext k rfl).1
      have hbroken : k ≠ .newline := by
        rintro rfl
        cases hk
      exact ⟨List.dropWhile_cons_of_neg (by simpa using hbroken),
        List.dropWhile_cons_of_neg (by rw [hk]; decide)⟩
  have fresh : Fresh v := (fresh_iff_kinds hv).2 (hnew.1.symm ▸ fun k hk => (hnext k hk).2)
  rw [hrest] at ht
  have hlinked := ht.linked (alike_of_kinds hms.symm) (.line hy fresh) first_le_maxErrors
  obtain ⟨hgroups, hbrace, z, t', hright, hz, hlinked'⟩ :=
    hrun.follow rfl rfl (fun _ => rfl) hlinked hsome (Or.inr id) hn hm
  have hwhole : ∀ x ∈ y :: v, x.kind ≠ .eof := fun x hx =>
    ht.sound.rest x (by rw [ht.rest]; exact List.mem_append_right ms hx)
  have hthere := InBlock.of_linked hlinked' hgroups hbrace hwhole
  rw [hrun.half, hrun.count] at hthere
  refine ⟨z, t', hright, hz, hthere.skipped TokenKind.terminates, ?_⟩
  -- What is left of the text are terminators, and so is the line break behind it.
  obtain ⟨ms', hms', hrest'⟩ := hlinked'.rest_joined
  have hend := hrun.rest
  rw [ParserState.atStatement_kinds, ← hms', List.dropWhile_eq_nil_iff] at hend
  rw [ParserState.atStatement_kinds, hrest', List.map_append, List.dropWhile_append_of_pos hend,
    List.map_cons, hy, hv, List.dropWhile_cons_of_pos rfl, hnew.2]

/-- The kinds of the tokens of a text and of an `else` below it. -/
def aboveElse (ks : List TokenKind) : List TokenKind := ks ++ [.newline, .keyword .else_]

/-- An expression that leaves an `else` below it is read in front of every `else`. -/
theorem ExpressionRun.readsInFront {file : FileId} {tokens : List Token} {e : Expr} {half : Bool}
    {s' : ParserState} {ks later : List TokenKind}
    (h : ExpressionRun file tokens [.keyword .else_] e half s')
    (hks : (ParserState.start file tokens).rest.map (·.kind) = aboveElse ks) :
    ReadsInFront e half (tokens.length + 1) ks (.keyword .else_ :: later) := by
  intro t n m ht hkinds hn hm
  have hboth : t.rest.map (·.kind) = aboveElse ks ++ later := by simpa [aboveElse] using hkinds
  obtain ⟨ms, w, hrest, hms, hw⟩ := List.map_eq_append_iff.1 hboth
  rw [hrest] at ht
  have hmark : (TokenKind.keyword .else_).Bounds := ⟨by simp, rfl, by simp⟩
  have hlast : (ParserState.start file tokens).rest.getLast?.map (·.kind) =
      some (.keyword .else_) := by
    rw [← List.getLast?_map, hks]
    simp [aboveElse]
  have hsome : (ParserState.start file tokens).skipNewlines.rest ≠ [] := by
    intro hnone
    obtain ⟨x, hx, hkind⟩ := Option.map_eq_some_iff.1 hlast
    have hbroken := List.dropWhile_eq_nil_iff.1 hnone x (List.mem_of_getLast? hx)
    rw [hkind] at hbroken
    cases hbroken
  have hleft : s'.rest ≠ [] := by
    intro hnone
    have hrest' := h.rest
    rw [ParserState.atStatement_kinds, hnone] at hrest'
    cases hrest'
  obtain ⟨hgroups, hbrace, z, t', hright, hz, hlinked'⟩ := h.follow rfl rfl (fun _ => rfl)
    (ht.linked_cut (alike_of_kinds (hks.trans hms.symm)) hmark hlast) hsome (Or.inl hleft) hn hm
  have hwhole : ∀ x ∈ w, x.kind ≠ .eof := fun x hx =>
    ht.sound.rest x (by rw [ht.rest]; exact List.mem_append_right ms hx)
  obtain ⟨-, ms', hms', hrest'⟩ := hlinked'.stream
  have hthere := InBlock.of_joined hlinked' rfl ⟨ms', (kinds_of_alike hms').symm, hrest'⟩ hgroups
    hbrace hwhole
  rw [h.half, h.count] at hthere
  refine ⟨z, t', hright, hz, hthere.skipped TokenKind.terminates, ?_⟩
  have hend := h.rest
  rw [ParserState.atStatement_kinds, kinds_of_alike hms'] at hend
  rw [ParserState.atStatement_kinds, hrest', List.map_append, List.dropWhile_append, hend, hw]
  rfl

/-- A text is read above an `else` as it is read alone, as long as no condition takes it. -/
theorem ParserState.linked_aboveElse {file : FileId} {tokens tokens' ms : List Token} {y z : Token}
    (hrest : (start file tokens').rest = ms ++ [y, z])
    (halike : Likeness.bare.Alike (start file tokens).rest ms)
    (hline : InLine (start file tokens).rest)
    (newline : y.kind = .newline) (second : z.kind = .keyword .else_) :
    (Simulation.aboveElse newline second).Linked (.start file tokens) (.start file tokens') where
  sound := start_sound file tokens
  final := start_final file tokens'
  stream := ⟨hline, ms, halike, hrest⟩
  groups := rfl
  brace := rfl
  half := rfl
  ids := fun _ => rfl
  count := rfl
  warned := ⟨[], rfl, rfl⟩
  ends := fun _ _ _ => rfl
  finals := fun h => absurd trivial h

/-- An expression leaves an `else` below it, if no condition at its end lacks the second branch:
above the `else` it is read as it is read alone. -/
theorem ExpressionTokens.leavesElse {file : FileId} {tokens tokens' : List Token} {e : Expr}
    {half : Bool} (h : ExpressionTokens file tokens e half) (hdangles : e.dangles = false)
    (hline : InLine (ParserState.start file tokens).rest)
    (hkinds : (ParserState.start file tokens').rest.map (·.kind) =
      aboveElse ((ParserState.start file tokens).rest.map (·.kind)))
    (hlength : tokens.length ≤ tokens'.length) :
    ∃ t', ExpressionRun file tokens' [.keyword .else_] e half t' := by
  obtain ⟨hsome, s', hrun⟩ := h.alone
  obtain ⟨ms, v, hrest, hms, hv⟩ := List.map_eq_append_iff.1 hkinds
  obtain ⟨y, _, rfl, newline, htail⟩ := List.map_eq_cons_iff.1 hv
  obtain ⟨z, rfl, second⟩ := List.map_eq_singleton_iff.1 htail
  have hlinked := ParserState.linked_aboveElse hrest (alike_of_kinds hms.symm) hline newline second
  have hbound := Nat.succ_le_succ hlength
  obtain ⟨-, -, e', t', hright, he, hlinked'⟩ :=
    hrun.follow rfl rfl (by simp [hdangles]) hlinked hsome (Or.inr id) hbound hbound
  obtain ⟨-, ms', hms', hrest'⟩ := hlinked'.stream
  refine ⟨t', ⟨e', hright, he⟩, hlinked'.count.trans hrun.count, ?_, hlinked'.half.trans hrun.half⟩
  -- What is left of the text are terminators, and so is the line break behind it.
  have hend := hrun.rest
  rw [ParserState.atStatement_kinds, kinds_of_alike hms', List.dropWhile_eq_nil_iff] at hend
  rw [ParserState.atStatement_kinds, hrest', List.map_append, List.dropWhile_append_of_pos hend,
    List.map_cons, List.map_singleton, newline, second]
  rfl

end FrontEnd
