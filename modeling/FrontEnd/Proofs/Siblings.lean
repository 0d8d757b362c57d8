import FrontEnd.Proofs.Grouping.Operands
import FrontEnd.Proofs.Independence
import FrontEnd.Proofs.Scoping.Modules

/-!
# Errors stay among their siblings

A block with a broken text inside keeps the statements before and behind it. The broken text is read
as it is read alone, stubs included, and the statements behind it begin at the boundary that was
found there.
-/

namespace FrontEnd

namespace Parse

variable {s s' : ParserState} {n : Nat} {g : Grammar} {e : Expr}

/-- A text at its end. -/
structure AtEnd (s : ParserState) : Prop where
  rest : s.rest = []
  final : s.final.kind = .eof

theorem AtEnd.kind (h : AtEnd s) : s.kind = .eof := by
  unfold ParserState.kind ParserState.current
  rw [h.rest]
  exact h.final

/-- Nothing goes on with an operand at the end of a text. -/
theorem AtEnd.idle (h : AtEnd s) : s.Idle := by
  refine ParserState.idle_unbroken (fun t ht => ?_) ?_
  · rw [h.rest] at ht
    cases ht
  · rw [h.kind]
    rfl

/-- An operand that ends with the text is the whole expression. -/
theorem expr_end (h : operand (n + 1) g s = .ok e s') (hend : AtEnd s') :
    expr (n + 1) g s = .ok e s' := by
  refine expr_operand h hend.idle (.of_canStartValue ?_)
  change s'.kind.canStartValue = false
  rw [hend.kind]
  rfl

/-- A block that ends with the text. -/
theorem block_end {xs : Node (.many .stmt)} {t : ParserState} {mark : Token}
    (hkind : s.kind = .symbol .lBrace) (hstmts : g .stmts (s.advance.openGroup false) = .ok xs t)
    (hrest : t.rest = [mark]) (hmark : mark.kind = .symbol .rBrace) (hfinal : t.final.kind = .eof) :
    ∃ o s', block g s = .ok (.block o xs) s' ∧ AtEnd s' ∧ s'.diagnostics = t.diagnostics := by
  have hopening : expectSymbol .lBrace s = .ok s.current.span s.advance :=
    (expect_run _ s).trans (if_pos hkind)
  have hlast : t.kind = .symbol .rBrace := by
    unfold ParserState.kind ParserState.current
    rw [hrest]
    exact hmark
  have hclosing : closeStrict .rBrace t = .ok () t.closeGroup.advance :=
    (closeStrict_run .rBrace t).trans (if_pos hlast)
  obtain ⟨hfinal₁, hrest₁, hdiagnostics₁⟩ := t.closeGroup_kept
  obtain ⟨hfinal₂, hdiagnostics₂⟩ := t.closeGroup.advance_kept
  have hrest₂ : t.closeGroup.advance.rest = [] := by
    rw [ParserState.advance_eq (hrest₁.trans hrest)]
    rfl
  have hrun : block g s = (do
      return .block ⟨← freshId, ← spanFrom s.current.span⟩ xs : Parser Block)
        t.closeGroup.advance := by
    unfold block
    refine (bind_run hopening).trans ?_
    change (g .stmts >>= _) (s.advance.openGroup false) = _
    exact (bind_run hstmts).trans (bind_run hclosing)
  refine ⟨_, _, hrun, ⟨hrest₂, ?_⟩, hdiagnostics₂.trans hdiagnostics₁⟩
  exact (congrArg Token.kind (hfinal₂.trans hfinal₁)).trans hfinal

/-- A statement that is only an expression without operators, up to the end of the text. -/
theorem primaryStmt_end
    (hform : stmtForm (n + 1) g s = (.exprStmt <$> expr (n + 1) g : Parser StmtForm) s)
    (hplain : PrefixOp.ofTokens? s.kind s.nextKind = none) (h : primary (n + 1) g s = .ok e s')
    (hend : AtEnd s') :
    ∃ o, stmt (n + 1) g s = .ok (.stmt o (.exprStmt e)) { s' with nextId := s'.nextId + 1 } := by
  have hoperand : operand (n + 1) g s = .ok e s' := by
    rw [operand_plain hplain]
    exact (bind_run h).trans (suffixes_whole hend.idle.whole (n + 1) e)
  have hrun : stmtForm (n + 1) g s = .ok (.exprStmt e) s' := by
    rw [hform, map_run, expr_end hoperand hend]
  have hstmt : stmt (n + 1) g s = (do
      return .stmt ⟨← freshId, ← spanFrom s.current.span⟩ (.exprStmt e) : Parser Stmt) s' := by
    change (stmtForm (n + 1) g >>= _) s = _
    exact bind_run hrun
  exact ⟨_, hstmt⟩

/-- A statement that is only a block, up to the end of the text. -/
theorem blockStmt_end {xs : Node (.many .stmt)} {t : ParserState} {mark : Token}
    (hkind : s.kind = .symbol .lBrace) (hstmts : g .stmts (s.advance.openGroup false) = .ok xs t)
    (hrest : t.rest = [mark]) (hmark : mark.kind = .symbol .rBrace) (hfinal : t.final.kind = .eof) :
    ∃ o o' o'' s', stmt (n + 1) g s =
        .ok (.stmt o (.exprStmt (.expr o' (.blockExpr (.block o'' xs))))) s' ∧
      AtEnd s' ∧ s'.diagnostics = t.diagnostics := by
  obtain ⟨o, s₁, hblock, hend, hdiagnostics⟩ := block_end hkind hstmts hrest hmark hfinal
  have hsimple : simpleForm? g s = .ok (some (.blockExpr (.block o xs))) s₁ := by
    unfold simpleForm?
    rw [bind_run (kind_run s), hkind]
    exact bind_run hblock
  let e : Expr := .expr ⟨⟨s₁.nextId⟩, s₁.spanFrom s.current.span⟩ (.blockExpr (.block o xs))
  have hprimary : primary (n + 1) g s = .ok e { s₁ with nextId := s₁.nextId + 1 } := by
    unfold primary
    rw [bind_run (kind_run s), hkind]
    change (simpleForm? g >>= _) s = _
    exact bind_run hsimple
  have hform : stmtForm (n + 1) g s = (.exprStmt <$> expr (n + 1) g : Parser StmtForm) s := by
    unfold stmtForm
    rw [bind_run (kind_run s), hkind]
    rfl
  obtain ⟨o', hstmt⟩ := primaryStmt_end hform (by rw [hkind]; rfl) hprimary ⟨hend.rest, hend.final⟩
  exact ⟨_, _, _, _, hstmt, ⟨hend.rest, hend.final⟩, hdiagnostics⟩

/-- At the end of a text there is nothing to step over. -/
theorem settle_end (h : AtEnd s) (before : ParserState) :
    AtEnd (s.settle before) ∧ (s.settle before).diagnostics = s.diagnostics := by
  unfold ParserState.settle
  split
  · obtain ⟨hfinal, hdiagnostics⟩ := (s.restore before).synchronize_kept before
    have onward := ((s.restore before).synchronize_onward before).1
    exact ⟨⟨onward.rest_nil h.rest, hfinal ▸ h.final⟩, hdiagnostics⟩
  · unfold ParserState.terminate
    rw [h.kind]
    exact ⟨h, rfl⟩

/-- At the end of a text there are no statements. -/
theorem fileStmts_end_nil (h : AtEnd s) (bound n : Nat) : fileStmts bound (n + 1) s = .ok [] s := by
  unfold fileStmts
  change (if (s.kind == .eof) = true then _ else _ : Parser (List Stmt)) s = _
  rw [h.kind]
  rfl

/-- A file that is only a statement. -/
theorem file_single {x : Stmt} (hstatement : s.atStatement = s) (more : s.kind ≠ .eof)
    (inside : s.kind ≠ .symbol .rBrace)
    (hrun : stmt (n + 2) (grammar (n + 2)) s = .ok x s') (hend : AtEnd s')
    (hfew : s'.errorCount < maxErrors) :
    ∃ s'', file (n + 2) s = .ok [x] s'' ∧ s''.diagnostics = s'.diagnostics := by
  obtain ⟨hend₁, hdiagnostics⟩ := settle_end hend s
  have hcount : ¬maxErrors ≤ (s'.settle s).errorCount := by
    unfold ParserState.errorCount at hfew ⊢
    rw [hdiagnostics]
    omega
  have hfirst : stmtOrStub (n + 2) (grammar (n + 2)) s = .ok x (s'.settle s) := by
    rw [stmtOrStub_run, recovering_run, hrun]
    dsimp only [finished]
    rw [if_neg hcount]
  have hend₂ : AtEnd (s'.settle s).atStatement :=
    ⟨((s'.settle s).skipWhile_onward _).rest_nil hend₁.rest, hend₁.final⟩
  have hstmts := fileStmts_append (.cons more inside hfirst (.nil _))
    (fileStmts_end_nil hend₂ (n + 2) n)
  rw [List.length_singleton, Nat.add_comm 1] at hstmts
  refine ⟨(s'.settle s).atStatement, ?_, hdiagnostics⟩
  change fileStmts (n + 2) (n + 2) s.atStatement = _
  rw [hstatement]
  exact hstmts

end Parse

/-- So is a file of these tokens. -/
theorem parse_single {file : FileId} {tokens ts : List Token} {t : Token} {x : Stmt} {n : Nat}
    {s' : ParserState} (hrest : (ParserState.start file tokens).rest = t :: ts)
    (ht : t.kind ≠ .eof ∧ t.kind ≠ .symbol .rBrace) (hstays : t.kind.terminates = false)
    (hn : tokens.length = n + 1)
    (hrun : Parse.stmt (n + 2) (Parse.grammar (n + 2)) (.start file tokens) = .ok x s')
    (hend : Parse.AtEnd s') (hfew : s'.errorCount < maxErrors) :
    ∃ q, parse file tokens = .ok q ∧ q.stmts = [x] ∧ q.diagnostics = s'.diagnostics := by
  have hkind : (ParserState.start file tokens).kind = t.kind := by
    unfold ParserState.kind ParserState.current
    rw [hrest]
    rfl
  obtain ⟨s'', hfile, hdiagnostics⟩ := Parse.file_single (n := n)
    (ParserState.atStatement_stays hrest hstays) (hkind ▸ ht.1) (hkind ▸ ht.2) hrun hend hfew
  refine ⟨_, parse_of_file (s := s'') ?_, rfl, hdiagnostics⟩
  rw [hn]
  exact hfile

/-- The delimiter that closes an opening one. -/
def TokenKind.closer? : TokenKind → Option TokenKind
  | .symbol .lParen => some (.symbol .rParen)
  | .symbol .lBracket => some (.symbol .rBracket)
  | .symbol .lBrace => some (.symbol .rBrace)
  | _ => none

theorem TokenKind.isOpening_eq (k : TokenKind) : k.isOpening = k.closer?.isSome := by
  unfold isOpening closer?
  split
  · rfl
  · rfl
  · rfl
  · split <;> simp_all

/-- Whether all delimiters of some tokens are properly nested, given those that are expected to
close, innermost first. -/
def nested : List TokenKind → List Token → Bool
  | expected, [] => expected.isEmpty
  | expected, t :: rest =>
    match t.kind.closer? with
    | some closer => nested (closer :: expected) rest
    | none =>
      if t.kind.isClosing then expected.head? = some t.kind && nested expected.tail rest
      else nested expected rest

/-- Every end part of nested tokens closes what is open there. -/
theorem nested_suffix {expected : List TokenKind} (xs : List Token) {ys : List Token}
    (h : nested expected (xs ++ ys) = true) : ∃ expected', nested expected' ys = true := by
  induction xs generalizing expected with
  | nil => exact ⟨expected, h⟩
  | cons x xs ih =>
    rw [List.cons_append] at h
    unfold nested at h
    split at h
    · exact ih h
    · split at h
      · exact ih (Bool.and_eq_true_iff.1 h).2
      · exact ih h

/-- Behind nested tokens no delimiter is open that was opened among them. -/
theorem depthBehind_nested {expected : List TokenKind} {xs : List Token} {depth : Nat}
    (h : nested expected xs = true) (hdepth : depth ≤ expected.length) :
    depthBehind depth xs = 0 := by
  induction xs generalizing expected depth with
  | nil =>
    obtain rfl : expected = [] := List.isEmpty_iff.1 h
    exact Nat.le_zero.1 hdepth
  | cons x xs ih =>
    unfold nested at h
    unfold depthBehind
    rw [x.kind.isOpening_eq]
    split at h
    · rename_i closer hcloser
      rw [hcloser, if_pos Option.isSome_some]
      exact ih h (Nat.succ_le_succ hdepth)
    · rename_i hcloser
      rw [hcloser, if_neg (by decide)]
      split at h
      · rw [if_pos ‹_›]
        refine ih (Bool.and_eq_true_iff.1 h).2 ?_
        rw [List.length_tail]
        omega
      · rw [if_neg ‹_›]
        exact ih h hdepth

/-- The tokens in front of the end mark are nested too, up to every end part. -/
theorem closed_of_nested {xs : List Token} {final : Token} (hfinal : final.kind = .eof)
    (h : nested [] (xs ++ [final]) = true) {u : List Token} (hu : u <:+ xs) :
    depthBehind 0 u = 0 := by
  obtain ⟨w, rfl⟩ := hu
  rw [List.append_assoc] at h
  obtain ⟨expected, hexpected⟩ := nested_suffix w h
  have hbehind := depthBehind_nested hexpected (Nat.zero_le _)
  rw [depthBehind_append] at hbehind
  unfold depthBehind at hbehind
  rw [hfinal] at hbehind
  exact hbehind

/-- A text that can be read inside a block as it is read alone. -/
structure Embeds (file : FileId) (tokens : List Token) (p : Parsed) : Prop where
  parsed : parse file tokens = .ok p
  /-- No brace would close the block. -/
  stray : ∀ span, Parse.strayBraceAt span ∉ p.diagnostics
  /-- It does not go on with the statement before it. -/
  fresh : Fresh (ParserState.start file tokens).rest
  few : (endState file tokens).errorCount < maxErrors
  /-- Behind errors the next boundary is not looked for beyond the text. -/
  quiet : (endState file tokens).errorCount = 0 ∨
    ∀ u, u <:+ (ParserState.start file tokens).rest → depthBehind 0 u = 0

/-- A text without errors is such. -/
theorem embeds_of_errorFree {file : FileId} {tokens : List Token} {p : Parsed}
    (h : parse file tokens = .ok p) (free : Diagnostic.anyError p.diagnostics = false) :
    Embeds file tokens p := by
  have hcount := endState_count h free
  refine ⟨h, fun span => ?_, Parse.fresh_of_errorFree (parse_ok h).1 hcount, ?_, Or.inl hcount⟩
  · rw [← (parse_ok h).2]
    exact Parse.no_stray_of_errorFree hcount span
  · rw [hcount]
    decide

/-- So is a text with nested delimiters and no stray brace, that does not go on with the statement
before it. -/
theorem embeds_of_nested {file : FileId} {text : String} {lexed : Lexed} {p : Parsed}
    (hlex : lex file text = .ok lexed) (h : parse file lexed.tokens = .ok p)
    (hnested : nested [] lexed.tokens = true) (fresh : Fresh lexed.tokens)
    (hstray : ∀ span, Parse.strayBraceAt span ∉ p.diagnostics) : Embeds file lexed.tokens p := by
  obtain ⟨⟨_, hlex', htokens⟩, -⟩ := ScansTo.of_lex hlex
  obtain rfl : lexed = _ := Except.ok.inj (hlex.symm.trans hlex')
  rw [htokens] at hnested
  refine ⟨h, hstray, fresh.of_lex hlex, ?_, Or.inr fun u hu => closed_of_nested rfl hnested hu⟩
  obtain ⟨hfile, hdiagnostics⟩ := parse_ok h
  have hstatements := (Parse.file_statements hfile (hdiagnostics ▸ hstray)).1
  exact hstatements.limit (by decide : 0 < maxErrors)

/-- A state inside a block, between its statements. -/
structure InBlock (half : Bool) (count : Nat) (rest : List Token) (t : ParserState) : Prop where
  sound : t.Sound
  rest : t.rest = rest
  groups : t.groups = [⟨false, true⟩]
  brace : t.allowsBrace = true
  half : t.halfShift = half
  count : t.errorCount = count

/-- A text begins inside a block as it begins alone. -/
theorem InBlock.linked {file : FileId} {tokens ms w : List Token} {t : ParserState}
    {count limit : Nat} (h : InBlock false count (ms ++ w) t)
    (halike : Likeness.bare.Alike (ParserState.start file tokens).rest ms) (seam : Seam w)
    (hfew : limit + count ≤ maxErrors) :
    (Simulation.joining .bare [⟨false, true⟩] rfl count limit hfew t.warnings seam).Linked
      (.start file tokens) t where
  sound := ParserState.start_sound file tokens
  final := h.sound.final
  stream := ⟨ms, halike, h.rest⟩
  groups := h.groups
  brace := h.brace
  half := h.half
  ids := fun _ => rfl
  count := h.count.trans (Nat.zero_add count).symm
  warned := ⟨[], (List.append_nil _).symm, rfl⟩
  ends := fun _ _ _ => rfl
  finals := fun _ => rfl

/-- A text inside a block is read as it is alone, with its errors. -/
theorem InBlock.text {file : FileId} {tokens ms v : List Token} {p : Parsed} {y : Token}
    {t : ParserState} {count n m : Nat} (h : InBlock false count (ms ++ y :: v) t)
    (htext : Embeds file tokens p)
    (halike : Likeness.bare.Alike (ParserState.start file tokens).rest ms)
    (newline : y.kind = .newline) (fresh : Fresh v)
    (hfew : (endState file tokens).errorCount + count < maxErrors)
    (hn : tokens.length + 1 ≤ n) (hm : tokens.length + 1 ≤ m) :
    ∃ zs u, Parse.Statements (Parse.stmtOrStub n (Parse.grammar m)) t.atStatement zs u.atStatement ∧
      Likeness.bare.Alike p.stmts zs ∧ zs.length ≤ tokens.length ∧
      InBlock (endState file tokens).halfShift ((endState file tokens).errorCount + count) v u := by
  let K : Simulation := .joining .bare [⟨false, true⟩] rfl count
    ((endState file tokens).errorCount + 1) (by omega) t.warnings (.line newline fresh)
  have hK : K.Continues y v := ⟨newline, id, rfl, fun h => h⟩
  have hlinked : K.Linked (.start file tokens) t := h.linked halike _ _
  obtain ⟨hfile, hdiagnostics⟩ := parse_ok htext.parsed
  obtain ⟨hgroups, hbrace⟩ := endState_frame htext.parsed
  obtain ⟨zs, u, hzs, hxs, hcrossed, hlength⟩ := Parse.file_follow hK (Parse.grammar_follows hm) hn
    hlinked hfile (fun span => hdiagnostics ▸ htext.stray span) (Nat.lt_succ_self _)
    (htext.quiet.imp_right fun hclosed => ⟨fun _ _ => rfl, hclosed⟩)
  have hsame : u.final = t.final :=
    (hzs.onward ((t.skipWhile_onward _).sound h.sound)).1.final
  refine ⟨zs, u, hzs, hxs, Nat.lt_succ_iff.1 hlength, ⟨?_, ?_⟩, hcrossed.rest, ?_, ?_,
    hcrossed.half, hcrossed.count⟩
  · rw [hsame]
    exact h.sound.final
  · intro x hx
    rw [hcrossed.rest] at hx
    refine h.sound.rest x ?_
    rw [h.rest]
    exact List.mem_append_right _ (List.mem_cons_of_mem y hx)
  · rw [hcrossed.groups, hgroups]
    rfl
  · rw [hcrossed.brace, hbrace]

/-- Texts on lines of their own up to the brace that closes a block: the statements to which they
are read alone, the numbers of their errors and tokens, and the tokens of the block. The flag tells
whether a half of `>>` is left over from before; only the brace may come behind one. -/
inductive Body (file : FileId) (mark : Token) :
    Bool → List Stmt → Nat → Nat → List Token → Prop
  | close (half : Bool) (hmark : mark.kind = .symbol .rBrace) : Body file mark half [] 0 0 [mark]
  | text {tokens ms rest : List Token} {p : Parsed} {y : Token} {xs : List Stmt} {count size : Nat}
    (embeds : Embeds file tokens p)
    (alike : Likeness.bare.Alike (ParserState.start file tokens).rest ms)
    (newline : y.kind = .newline)
    (others : Body file mark (endState file tokens).halfShift xs count size rest) :
    Body file mark false (p.stmts ++ xs) ((endState file tokens).errorCount + count)
      (tokens.length + size) (ms ++ y :: rest)

namespace Body

variable {file : FileId} {mark : Token} {half : Bool} {xs : List Stmt} {count size : Nat}
  {rest : List Token}

/-- Nothing goes on with a statement before it. -/
theorem fresh (h : Body file mark half xs count size rest) : Fresh rest := by
  induction h with
  | close _ hmark =>
    have hstays : [mark].dropWhile (·.kind = .newline) = [mark] :=
      List.dropWhile_cons_of_neg (by simp [hmark])
    intro t hfirst
    rw [hstays] at hfirst
    cases hfirst
    rw [hmark]
    rfl
  | text embeds alike newline _ ih => exact (embeds.fresh.alike alike).append newline ih

/-- The texts are read one after the other, up to the brace. -/
theorem statements (h : Body file mark half xs count size rest) {t : ParserState} {before n m : Nat}
    (ht : InBlock half before rest t) (hfew : count + before < maxErrors) (hn : size + 1 ≤ n)
    (hm : size + 1 ≤ m) :
    ∃ zs u half', Parse.Statements (Parse.stmtOrStub n (Parse.grammar m)) t.atStatement zs
        u.atStatement ∧ Likeness.bare.Alike xs zs ∧ zs.length ≤ size ∧
      InBlock half' (count + before) [mark] u := by
  induction h generalizing t before with
  | close half hmark => exact ⟨[], t, half, .nil _, rfl, Nat.le_refl 0, by rwa [Nat.zero_add]⟩
  | @text tokens ms rest p y xs count size embeds alike newline others ih =>
    obtain ⟨zs, u, hzs, hxs, hlength, hu⟩ := ht.text (n := n) (m := m) embeds alike newline
      others.fresh (by omega) (by omega) (by omega)
    obtain ⟨zs', u', half', hzs', hxs', hlength', hu'⟩ := ih hu (by omega) (by omega) (by omega)
    refine ⟨zs ++ zs', u', half', hzs.append hzs', hxs.append hxs', ?_, ?_⟩
    · rw [List.length_append]
      omega
    · rwa [Nat.add_comm _ count, Nat.add_assoc]

/-- The statements of the block are those of the texts. -/
theorem stmtList (h : Body file mark half xs count size rest) (hmark : mark.kind = .symbol .rBrace)
    {t : ParserState} (ht : InBlock half 0 rest t) (hfew : count < maxErrors) {n : Nat}
    (hn : size + 1 ≤ n) :
    ∃ zs t', Parse.stmtList (n + 1) (Parse.grammar n) (n + 1) t.atStatement = .ok zs t' ∧
      Likeness.bare.Alike xs zs ∧ t'.rest = [mark] ∧ t'.final.kind = .eof ∧
      t'.errorCount = count := by
  obtain ⟨zs, u, half', hzs, hxs, hlength, hu⟩ := h.statements (n := n + 1) ht hfew (by omega) hn
  have hrest : u.atStatement.rest = [mark] := by
    have hstays : ¬mark.kind.terminates = true := by
      rw [hmark]
      decide
    change u.rest.dropWhile (·.kind.terminates) = [mark]
    rw [hu.rest]
    exact List.dropWhile_cons_of_neg hstays
  have hkind : u.atStatement.kind = .symbol .rBrace := by
    unfold ParserState.kind ParserState.current
    rw [hrest]
    exact hmark
  exact ⟨zs, u.atStatement, Parse.stmtList_of_statements hzs hkind (by omega), hxs, hrest,
    hu.sound.final, hu.count⟩

/-- A file that is a block with such a body. -/
theorem parse_block {joined : List Token} {opening y : Token}
    (h : Body file mark false xs count size rest) (hmark : mark.kind = .symbol .rBrace)
    (hfew : count < maxErrors) (hopening : opening.kind = .symbol .lBrace)
    (newline : y.kind = .newline)
    (hrest : (ParserState.start file joined).rest = opening :: y :: rest)
    (hsize : size + 1 ≤ joined.length) :
    ∃ q o o' o'' zs, parse file joined = .ok q ∧
      q.stmts = [.stmt o (.exprStmt (.expr o' (.blockExpr (.block o'' (.ofList zs)))))] ∧
      Likeness.bare.Alike xs zs := by
  obtain ⟨n, hn⟩ : ∃ n, joined.length = n + 1 := ⟨joined.length - 1, by omega⟩
  let s := ParserState.start file joined
  have sound : s.Sound := ParserState.start_sound file joined
  have hkind : s.kind = .symbol .lBrace := by
    unfold ParserState.kind ParserState.current
    rw [hrest]
    exact hopening
  -- Behind the opening brace the line break is stepped over.
  let t : ParserState := { s with rest := rest, lastSpan := y.span, groups := [⟨false, true⟩] }
  have ht : InBlock false 0 rest t := by
    refine ⟨⟨sound.final, fun x hx => sound.rest x ?_⟩, rfl, rfl, rfl, rfl, rfl⟩
    rw [hrest]
    exact List.mem_cons_of_mem _ (List.mem_cons_of_mem _ hx)
  have hskip : (s.advance.openGroup false).atStatement = t.atStatement := by
    rw [ParserState.enter_eq hrest]
    have hnone : (y :: rest).dropWhile
        (fun x => ParserState.breaks (ignoresNewlines s.groups || false) x.kind) =
          [] ++ y :: rest := rfl
    exact ParserState.atStatement_behind newline hnone (by simp)
  obtain ⟨zs, t', hlist, hzs, hrest', hfinal, hcount⟩ := h.stmtList hmark ht hfew (hn ▸ hsize)
  have hstmts : Parse.grammar (n + 2) .stmts (s.advance.openGroup false) = .ok (.ofList zs) t' := by
    change (Parse.stmtList (n + 2) (Parse.grammar (n + 1)) (n + 2) >>= _)
      (s.advance.openGroup false).atStatement = _
    rw [hskip]
    exact Parse.bind_run hlist
  obtain ⟨o, o', o'', s', hstmt, hend, hdiagnostics⟩ := Parse.blockStmt_end (n := n + 1)
    (g := Parse.grammar (n + 2)) hkind hstmts hrest' hmark hfinal
  have hcount' : s'.errorCount < maxErrors := by
    unfold ParserState.errorCount at hcount ⊢
    rw [hdiagnostics, hcount]
    exact hfew
  obtain ⟨q, hparse, hq, -⟩ := parse_single (n := n) hrest (by rw [hopening]; simp)
    (by rw [hopening]; decide) hn hstmt hend hcount'
  exact ⟨q, o, o', o'', zs, hparse, hq, hzs⟩

end Body

/-- Tokens that are moved stay the same but for their places. -/
theorem alike_moved (bytes : Nat) (tokens : List Token) :
    Likeness.bare.Alike tokens (tokens.map (Relabeling.shift 0 bytes).token) := by
  change List.map _ _ = List.map _ _
  rw [List.map_map]
  rfl

/-- A block of three texts, each on lines of its own. -/
def blockOf (first middle last : String) : String :=
  "\x7b" ++ "\n" ++ first ++ "\n" ++ middle ++ "\n" ++ last ++ "\n" ++ "\x7d"

/-- The statements of a block that is a statement by itself. -/
def Node.blockStmts? : Stmt → Option (List Stmt)
  | .stmt _ (.exprStmt (.expr _ (.blockExpr (.block _ stmts)))) => some stmts.toList
  | _ => none

/-- A brace alone. -/
theorem scansTo_brace (file : FileId) : ScansTo file "\x7b" [⟨.symbol .lBrace, 0, 1, file⟩] ∧
    ScansTo file "\x7d" [⟨.symbol .rBrace, 0, 1, file⟩] :=
  ⟨⟨_, rfl, rfl⟩, ⟨_, rfl, rfl⟩⟩

section Siblings

variable {file : FileId} {first middle last : String} {lexed₁ lexed₂ lexed₃ : Lexed}
  {p₁ p₂ p₃ : Parsed}

/-- The tokens of a block of three texts. -/
theorem blockOf_body (h₁ : lex file first = .ok lexed₁) (h₂ : lex file middle = .ok lexed₂)
    (h₃ : lex file last = .ok lexed₃) (embeds₁ : Embeds file lexed₁.tokens p₁)
    (embeds₂ : Embeds file lexed₂.tokens p₂) (embeds₃ : Embeds file lexed₃.tokens p₃)
    (whole₁ : (endState file lexed₁.tokens).halfShift = false)
    (whole₂ : (endState file lexed₂.tokens).halfShift = false) :
    ∃ lexed opening y mark rest size, lex file (blockOf first middle last) = .ok lexed ∧
      (ParserState.start file lexed.tokens).rest = opening :: y :: rest ∧
      opening.kind = .symbol .lBrace ∧ y.kind = .newline ∧ mark.kind = .symbol .rBrace ∧
      Body file mark false (p₁.stmts ++ (p₂.stmts ++ (p₃.stmts ++ [])))
        ((endState file lexed₁.tokens).errorCount + ((endState file lexed₂.tokens).errorCount +
          ((endState file lexed₃.tokens).errorCount + 0))) size rest ∧
      size + 1 ≤ lexed.tokens.length := by
  obtain ⟨scans₁, length₁, -⟩ := ScansTo.of_lex h₁
  obtain ⟨scans₂, length₂, -⟩ := ScansTo.of_lex h₂
  obtain ⟨scans₃, length₃, -⟩ := ScansTo.of_lex h₃
  obtain ⟨scansOpen, scansClose⟩ := scansTo_brace file
  have hscans := (((scansOpen.line scans₁ rfl).line scans₂ rfl).line scans₃ rfl).line scansClose rfl
  obtain ⟨lexed, hlex, hlength, hrest, -⟩ := hscans.start
  simp only [List.append_assoc, List.cons_append, List.nil_append] at hrest
  let mark : Token :=
    (Relabeling.shift 0 (Text.byteSize ("\x7b" ++ "\n" ++ first ++ "\n" ++ middle ++
      "\n" ++ last).toList + 1)).token ⟨.symbol .rBrace, 0, 1, file⟩
  refine ⟨lexed, _, _, mark, _, lexed₁.tokens.length + (lexed₂.tokens.length +
    (lexed₃.tokens.length + 0)), hlex, hrest, rfl, rfl, rfl,
    .text embeds₁ (alike_moved _ _) rfl ?_, ?_⟩
  · rw [whole₁]
    refine .text embeds₂ (alike_moved _ _) rfl ?_
    rw [whole₂]
    exact .text embeds₃ (alike_moved _ _) rfl (.close _ rfl)
  · simp only [hlength, List.length_append, List.length_cons, List.length_map, List.length_nil]
    omega

/-- A block keeps the statements before and behind a broken text: those of the texts around it, in
their order, with what the broken text is read to alone between them. The broken text is nested,
does not go on with the statement before it, does not close the block, and neither it nor the text
before it leaves a half of `>>` over. -/
theorem parse_block_siblings (h₁ : lex file first = .ok lexed₁)
    (parse₁ : parse file lexed₁.tokens = .ok p₁)
    (free₁ : Diagnostic.anyError p₁.diagnostics = false)
    (whole₁ : (endState file lexed₁.tokens).halfShift = false)
    (h₂ : lex file middle = .ok lexed₂) (parse₂ : parse file lexed₂.tokens = .ok p₂)
    (nested₂ : nested [] lexed₂.tokens = true) (fresh₂ : Fresh lexed₂.tokens)
    (stray₂ : ∀ span, Parse.strayBraceAt span ∉ p₂.diagnostics)
    (whole₂ : (endState file lexed₂.tokens).halfShift = false)
    (h₃ : lex file last = .ok lexed₃) (parse₃ : parse file lexed₃.tokens = .ok p₃)
    (free₃ : Diagnostic.anyError p₃.diagnostics = false) :
    ∃ lexed q stmts, lex file (blockOf first middle last) = .ok lexed ∧
      parse file lexed.tokens = .ok q ∧ q.stmts.map Node.blockStmts? = [some stmts] ∧
      Likeness.bare.Alike (p₁.stmts ++ p₂.stmts ++ p₃.stmts) stmts := by
  have embeds₂ := embeds_of_nested h₂ parse₂ nested₂ fresh₂ stray₂
  obtain ⟨lexed, opening, y, mark, rest, size, hlex, hrest, hopening, newline, hmark,
    hbody, hsize⟩ :=
    blockOf_body h₁ h₂ h₃ (embeds_of_errorFree parse₁ free₁) embeds₂
      (embeds_of_errorFree parse₃ free₃) whole₁ whole₂
  have hfew : (endState file lexed₁.tokens).errorCount +
      ((endState file lexed₂.tokens).errorCount +
        ((endState file lexed₃.tokens).errorCount + 0)) < maxErrors := by
    rw [endState_count parse₁ free₁, endState_count parse₃ free₃]
    have := embeds₂.few
    omega
  obtain ⟨q, o, o', o'', zs, hparse, hstmts, halike⟩ :=
    hbody.parse_block hmark hfew hopening newline hrest hsize
  refine ⟨lexed, q, zs, hlex, hparse, ?_, ?_⟩
  · rw [hstmts]
    simp [Node.blockStmts?]
  · rwa [List.append_nil, ← List.append_assoc] at halike

end Siblings

/-- Whether tokens with such a result stay between their siblings inside a block. -/
def staysInBlock (file : FileId) (tokens : List Token) (p : Parsed) : Bool :=
  nested [] tokens && decide (Fresh tokens) &&
    !(p.diagnostics.any fun d => d = Parse.strayBraceAt d.span) && !(endState file tokens).halfShift

example : readsTo ⟨0⟩ "val 5" (staysInBlock ⟨0⟩) = true ∧
    readsTo ⟨0⟩ "val 5 \x7d" (staysInBlock ⟨0⟩) = false := by
  decide +kernel

/-- A variable without a name between two others. -/
theorem parse_block_siblings_nameless : ∃ lexed₁ lexed₂ lexed₃ lexed p₁ p₂ p₃ q stmts,
    lex ⟨0⟩ "val a = 1" = .ok lexed₁ ∧ parse ⟨0⟩ lexed₁.tokens = .ok p₁ ∧
      lex ⟨0⟩ "val 5" = .ok lexed₂ ∧ parse ⟨0⟩ lexed₂.tokens = .ok p₂ ∧
      lex ⟨0⟩ "val b = 2" = .ok lexed₃ ∧ parse ⟨0⟩ lexed₃.tokens = .ok p₃ ∧
      lex ⟨0⟩ (blockOf "val a = 1" "val 5" "val b = 2") = .ok lexed ∧
      parse ⟨0⟩ lexed.tokens = .ok q ∧ q.stmts.map Node.blockStmts? = [some stmts] ∧
      Likeness.bare.Alike (p₁.stmts ++ p₂.stmts ++ p₃.stmts) stmts := by
  obtain ⟨lexed₁, p₁, h₁, parse₁, free₁⟩ := exists_of_readsClean ⟨0⟩ "val a = 1" (by decide +kernel)
  obtain ⟨lexed₂, p₂, h₂, parse₂, test₂⟩ := exists_of_readsTo
    (show readsTo ⟨0⟩ "val 5" (staysInBlock ⟨0⟩) = true by decide +kernel)
  obtain ⟨lexed₃, p₃, h₃, parse₃, free₃⟩ := exists_of_readsClean ⟨0⟩ "val b = 2" (by decide +kernel)
  have whole₁ : endsWhole ⟨0⟩ "val a = 1" = true := by decide +kernel
  simp only [staysInBlock, Bool.and_eq_true, Bool.not_eq_true', decide_eq_true_eq,
    List.any_eq_false] at test₂
  obtain ⟨⟨⟨nested₂, fresh₂⟩, stray₂⟩, whole₂⟩ := test₂
  obtain ⟨lexed, q, stmts, hlex, hparse, hblock, halike⟩ := parse_block_siblings h₁ parse₁ free₁
    (halfShift_of_endsWhole whole₁ h₁) h₂ parse₂ nested₂ fresh₂
    (fun _ hmem => stray₂ _ hmem rfl) whole₂
    h₃ parse₃ free₃
  exact ⟨lexed₁, lexed₂, lexed₃, lexed, p₁, p₂, p₃, q, stmts, h₁, parse₁, h₂, parse₂, h₃,
    parse₃, hlex, hparse, hblock, halike⟩

/-- Whether a statement is an access to a field. -/
def Node.isAccess : Stmt → Bool
  | .stmt _ (.exprStmt (.expr _ (.member ..))) => true
  | _ => false

theorem Node.isAccess_relabel (r : Relabeling) (s : Stmt) :
    (s.relabel r).isAccess = s.isAccess := by
  cases s with
  | stmt _ form =>
    cases form with
    | exprStmt e =>
      cases e with
      | expr _ form => cases form <;> rfl
    | _ => rfl

/-- Statements that are alike are accesses to fields alike. -/
theorem Likeness.Alike.isAccess {xs ys : List Stmt} (h : Likeness.bare.Alike xs ys) :
    xs.map Node.isAccess = ys.map Node.isAccess := by
  have hmapped := congrArg (List.map Node.isAccess) h
  change List.map _ (List.map _ _) = List.map _ (List.map _ _) at hmapped
  simpa only [List.map_map, Function.comp_def, Labeled.relabel, Node.isAccess_relabel] using hmapped

/-- A broken text that begins with a point goes on with the statement before it: in a block behind
`x` the line `.y` is read as the access `x.y`, so the statements do not begin with those of `x`. -/
theorem parse_block_joined : readsClean ⟨0⟩ "z" = true ∧
    readsTo ⟨0⟩ ".y" (fun tokens p =>
      nested [] tokens && Diagnostic.anyError p.diagnostics) = true ∧
    ∃ lexed₁ p₁ lexed q stmts, lex ⟨0⟩ "x" = .ok lexed₁ ∧ parse ⟨0⟩ lexed₁.tokens = .ok p₁ ∧
      Diagnostic.anyError p₁.diagnostics = false ∧
      lex ⟨0⟩ (blockOf "x" ".y" "z") = .ok lexed ∧ parse ⟨0⟩ lexed.tokens = .ok q ∧
      q.stmts.map Node.blockStmts? = [some stmts] ∧
      ∀ others, ¬Likeness.bare.Alike (p₁.stmts ++ others) stmts := by
  obtain ⟨lexed₁, p₁, h₁, parse₁, test₁⟩ := exists_of_readsTo (show readsTo ⟨0⟩ "x" (fun _ p =>
    !Diagnostic.anyError p.diagnostics && p.stmts.map Node.isAccess == [false]) = true by
      decide +kernel)
  obtain ⟨lexed, q, hlex, hparse, test⟩ := exists_of_readsTo (show readsTo ⟨0⟩
    (blockOf "x" ".y" "z") (fun _ q => q.stmts.map (fun s => s.blockStmts?.map
      (·.map Node.isAccess)) == [some [true, false]]) = true by decide +kernel)
  obtain ⟨free₁, access₁⟩ := Bool.and_eq_true_iff.1 test₁
  obtain ⟨s, hq, hs⟩ := List.map_eq_singleton_iff.1 (eq_of_beq test)
  obtain ⟨stmts, hstmts, haccess⟩ := Option.map_eq_some_iff.1 hs
  refine ⟨by decide +kernel, by decide +kernel, lexed₁, p₁, lexed, q, stmts, h₁, parse₁,
    by simpa using free₁, hlex, hparse, by rw [hq, List.map_singleton, hstmts], ?_⟩
  intro others halike
  have hsame := halike.isAccess
  rw [List.map_append, eq_of_beq access₁, haccess] at hsame
  cases hsame

end FrontEnd
