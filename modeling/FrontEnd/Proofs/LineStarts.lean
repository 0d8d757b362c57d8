import FrontEnd.Proofs.Scanning

/-!
# Where lines start

While a text is scanned, line starts are recorded where a line feed stands alone, in strings, also
behind a backslash, and in block comments. No other lexeme holds a line feed. So lexeme by lexeme
each line start is recorded once, in order, and in the end they are the line table of the text.
-/

namespace FrontEnd

namespace LineTable

/-- The start of the last line. -/
def last (t : LineTable) : Nat := t.later.getLastD 0

/-- Recording some line starts, one after the other. -/
theorem foldl_addLine (starts : List Nat) (t : LineTable) :
    starts.foldl addLine t = ⟨t.later ++ starts⟩ := by
  induction starts generalizing t with
  | nil => simp
  | cons start starts ih =>
    rw [List.foldl_cons, ih, addLine, List.append_assoc, List.singleton_append]

/-- A line starts behind a line feed, -/
theorem startsFrom_break (pos : Nat) (cs : List Char) :
    startsFrom pos ('\n' :: cs) = (pos + 1) :: startsFrom (pos + 1) cs := rfl

/-- and behind no other character. -/
theorem startsFrom_other {c : Char} (h : c ≠ '\n') (pos : Nat) (cs : List Char) :
    startsFrom pos (c :: cs) = startsFrom (pos + c.utf8Size) cs := if_neg h

/-- Without line feeds no line starts. -/
theorem startsFrom_eq_nil {cs : List Char} (h : '\n' ∉ cs) (pos : Nat) :
    startsFrom pos cs = [] := by
  induction cs generalizing pos with
  | nil => rfl
  | cons c cs ih =>
    rw [List.mem_cons, not_or] at h
    unfold startsFrom
    dsimp only
    rw [if_neg (Ne.symm h.1), ih h.2]

/-- Line starts increase, and all lie behind the place where the text begins. -/
theorem startsFrom_increasing (pos : Nat) (cs : List Char) :
    (pos :: startsFrom pos cs).Pairwise (· < ·) := by
  induction cs generalizing pos with
  | nil => simp [startsFrom]
  | cons c cs ih =>
    have hsize := c.utf8Size_pos
    obtain ⟨hbehind, hlater⟩ := List.pairwise_cons.1 (ih (pos + c.utf8Size))
    have hfront : ∀ start ∈ startsFrom (pos + c.utf8Size) cs, pos < start := fun start hstart =>
      Nat.lt_trans (by omega) (hbehind start hstart)
    unfold startsFrom
    dsimp only
    split
    · refine List.pairwise_cons.2 ⟨List.forall_mem_cons.2 ⟨by omega, hfront⟩, ih _⟩
    · exact List.pairwise_cons.2 ⟨hfront, hlater⟩

/-- The last of some line starts, or the start of the text. -/
theorem last_mem (starts : List Nat) : (⟨starts⟩ : LineTable).last ∈ 0 :: starts := by
  unfold last
  cases starts with
  | nil => exact List.mem_cons_self
  | cons start starts =>
    rw [List.getLastD_cons, ← List.getLast_eq_getLastD (List.cons_ne_nil start starts)]
    exact List.mem_cons_of_mem _ (List.getLast_mem _)

end LineTable

namespace Lexer

/-- The line starts inside a string are those of its characters. -/
theorem stringStarts_eq {quote : Char} (hquote : quote ≠ '\n') {cs body : List Char}
    (h : stringBody? quote cs = some body) (pos : Nat) :
    stringStarts quote pos cs = LineTable.startsFrom pos (body ++ [quote]) := by
  fun_induction stringBody? quote cs generalizing body pos with
  | case1 => cases h
  | case2 c cs ih =>
    obtain ⟨inner, hinner, rfl⟩ := Option.map_eq_some_iff.1 h
    rw [stringStarts, List.cons_append, List.cons_append, LineTable.startsFrom_other (by decide)]
    split
    · rename_i hbreak
      subst hbreak
      rw [ih hinner]
      rfl
    · rename_i hother
      rw [ih hinner, LineTable.startsFrom_other hother]
      rfl
  | case3 cs hescape =>
    cases h
    rw [stringStarts, if_pos rfl, List.nil_append, LineTable.startsFrom_other hquote]
    · rfl
    · exact hescape
  | case4 c cs hescape hne ih =>
    obtain ⟨inner, hinner, rfl⟩ := Option.map_eq_some_iff.1 h
    rw [stringStarts, if_neg hne, List.cons_append]
    · split
      · rename_i hbreak
        subst hbreak
        rw [ih hinner, LineTable.startsFrom_break]
      · rename_i hother
        rw [ih hinner, LineTable.startsFrom_other hother]
    · exact hescape

/-- So are those inside a block comment. -/
theorem commentStarts_eq {cs chars : List Char} (h : commentBody? cs = some chars) (pos : Nat) :
    commentStarts pos cs = LineTable.startsFrom pos chars := by
  fun_induction commentBody? cs generalizing chars pos with
  | case1 => cases h
  | case2 rest =>
    cases h
    rfl
  | case3 c cs hmark ih =>
    obtain ⟨inner, hinner, rfl⟩ := Option.map_eq_some_iff.1 h
    rw [commentStarts]
    · split
      · rename_i hbreak
        subst hbreak
        rw [ih hinner, LineTable.startsFrom_break]
      · rename_i hother
        rw [ih hinner, LineTable.startsFrom_other hother]
    · exact hmark

/-- A class of characters without line feeds. -/
theorem unbroken_takeWhile {p : Char → Bool} (hp : p '\n' = false) (cs : List Char) :
    '\n' ∉ cs.takeWhile p := by
  intro hmem
  have := List.all_eq_true.1 List.all_takeWhile _ hmem
  rw [hp] at this
  cases this

/-- A decimal number holds no line feed. -/
theorem unbroken_decimal (cs : List Char) : '\n' ∉ (decimal cs).2 := by
  unfold decimal
  dsimp only
  split
  · split
    · simp [unbroken_takeWhile (p := Char.isDigit) rfl]
    · exact unbroken_takeWhile rfl cs
  · exact unbroken_takeWhile rfl cs

/-- Nor does any other number. -/
theorem unbroken_number (cs : List Char) : '\n' ∉ (number cs).2 := by
  unfold number
  split
  · rename_i mark rest
    split
    · rename_i form isDigit hbase
      have hmark : '\n' ≠ mark := by
        rintro rfl
        cases hbase
      have hdigits : isDigit '\n' = false := by
        unfold base? at hbase
        split at hbase <;> cases hbase <;> rfl
      simp [hmark, unbroken_takeWhile hdigits]
    · exact unbroken_decimal _
  · exact unbroken_decimal _

/-- A number is no break, string or gap. -/
theorem number_starts (ctx : Context) {c : Char} {cs : List Char} (h : StartsNumber c cs) :
    (⟨some (.literal (number (c :: cs)).1 (String.ofList (number (c :: cs)).2)),
      (number (c :: cs)).2⟩ : Lexeme).starts ctx cs =
        LineTable.startsFrom ctx.pos (number (c :: cs)).2 := by
  obtain ⟨-, -, hplain⟩ := number_append h
  rw [LineTable.startsFrom_eq_nil (unbroken_number _)]
  generalize (number (c :: cs)).1 = form at hplain
  cases form with
  | single => exact absurd rfl hplain.1
  | double => exact absurd rfl hplain.2
  | _ => rfl

/-- The name of a lifetime holds no line feed. -/
theorem unbroken_lifetime {ctx : Context} {cs name : List Char} (h : lifetime? ctx cs = some name) :
    '\n' ∉ name :=
  lifetime?_eq_takeWhile h ▸ unbroken_takeWhile rfl cs

/-- A word holds no line feed, and is no break, string or gap. -/
theorem word_starts (ctx : Context) (cs rest : List Char) :
    (word cs).starts ctx rest = LineTable.startsFrom ctx.pos (word cs).chars := by
  have hchars : '\n' ∉ cs.takeWhile isNamePart := unbroken_takeWhile rfl cs
  unfold word
  dsimp only
  split
  · exact (LineTable.startsFrom_eq_nil (by simp [hchars]) _).symm
  · split <;> exact (LineTable.startsFrom_eq_nil hchars _).symm

/-- In a string lines start behind line feeds. -/
theorem stringLexeme_starts {ctx : Context} {quote : Char} {form : LiteralForm} {cs : List Char}
    {l : Lexeme} (h : stringLexeme ctx quote form cs = .ok l) (hquote : quote ≠ '\n')
    (hsize : quote.utf8Size = 1)
    (hform : ∀ body chars,
    (⟨some (.literal form (String.ofList body)), chars⟩ : Lexeme).starts ctx cs =
      stringStarts quote (ctx.pos + 1) cs) :
    l.starts ctx cs = LineTable.startsFrom ctx.pos l.chars := by
  unfold stringLexeme at h
  split at h
  · rename_i body hbody
    cases h
    have hopened : LineTable.startsFrom ctx.pos (quote :: (body ++ [quote])) =
        LineTable.startsFrom (ctx.pos + quote.utf8Size) (body ++ [quote]) := if_neg hquote
    rw [hform, stringStarts_eq hquote hbody, ← hsize]
    exact hopened.symm
  · cases h

/-- In a blank no line starts. -/
theorem blank_starts (ctx : Context) {c : Char} (cs : List Char) (h : isBlank c = true) :
    (⟨none, [c]⟩ : Lexeme).starts ctx cs = LineTable.startsFrom ctx.pos [c] := by
  have hc : c = ' ' ∨ c = '\t' ∨ c = '\r' := by simpa [isBlank, or_assoc] using h
  rcases hc with rfl | rfl | rfl <;> rfl

/-- The line starts recorded while a lexeme is read are those of its characters. -/
theorem starts_eq {ctx : Context} {c : Char} {cs : List Char} {l : Lexeme}
    (h : lexeme ctx c cs = .ok l) : l.starts ctx cs = LineTable.startsFrom ctx.pos l.chars := by
  unfold lexeme at h
  split at h
  · cases h
    rfl
  · split at h
    · rename_i hname
      cases h
      refine (LineTable.startsFrom_eq_nil ?_ _).symm
      exact List.not_mem_cons_of_ne_of_not_mem (by decide) (unbroken_lifetime hname)
    · exact stringLexeme_starts h (by decide) rfl fun _ _ => rfl
  · exact stringLexeme_starts h (by decide) rfl fun _ _ => rfl
  · rename_i body
    cases h
    have hchars : '\n' ∉ body.takeWhile (· ≠ '\n') := unbroken_takeWhile rfl body
    exact (LineTable.startsFrom_eq_nil (List.not_mem_cons_of_ne_of_not_mem (by decide)
      (List.not_mem_cons_of_ne_of_not_mem (by decide) hchars)) _).symm
  · split at h
    · rename_i hbody
      cases h
      exact commentStarts_eq hbody (ctx.pos + 2)
    · cases h
  · split at h
    · rename_i hblank
      cases h
      exact blank_starts ctx cs hblank
    · split at h
      · rename_i hnumber
        cases h
        exact number_starts ctx (startsNumber_iff.1 hnumber)
      · split at h
        · cases h
          exact word_starts ..
        · split at h
          · rename_i mark _
            cases h
            refine (LineTable.startsFrom_eq_nil ?_ _).symm
            cases mark <;> decide
          · cases h

/-- The state behind a lexeme lies behind its characters. -/
theorem Context.after_place (ctx : Context) (l : Lexeme) :
    (ctx.after l).file = ctx.file ∧ (ctx.after l).pos = ctx.pos + Text.byteSize l.chars := by
  unfold Context.after
  dsimp only
  split <;> exact ⟨rfl, rfl⟩

/-- A scan without errors, lexeme by lexeme: the tokens and the line starts it finds. -/
inductive Scans : Context → List Char → List Token → List Nat → Prop
  | done (ctx : Context) : Scans ctx [] [⟨.eof, ctx.span 0⟩] []
  | step {ctx : Context} {c : Char} {cs rest : List Char} {l : Lexeme} {tokens : List Token}
    {starts : List Nat} (hl : lexeme ctx c cs = .ok l) (hrest : c :: cs = l.chars ++ rest)
    (h : Scans (ctx.after l) rest tokens starts) :
    Scans ctx (c :: cs) (l.tokens ctx ++ tokens) (LineTable.startsFrom ctx.pos l.chars ++ starts)

/-- The scanner goes on behind the lexeme it has found. -/
theorem scan_lexeme {ctx : Context} {c : Char} {cs rest : List Char} {l : Lexeme}
    (hl : lexeme ctx c cs = .ok l) (hrest : c :: cs = l.chars ++ rest) (hchars : l.chars ≠ []) :
    scan 0 ctx (c :: cs) = (scan 0 (ctx.after l) rest).map fun r =>
      (l.tokens ctx ++ r.1, LineTable.startsFrom ctx.pos l.chars ++ r.2) := by
  rw [← starts_eq hl]
  have hdrop : cs.drop (l.chars.length - 1) = rest := by
    have hpos : 0 < l.chars.length := List.length_pos_iff.2 hchars
    have hfront := congrArg (List.drop l.chars.length) hrest
    rw [List.drop_left] at hfront
    rwa [← Nat.succ_pred_eq_of_pos hpos, List.drop_succ_cons] at hfront
  have hstep : scan 0 ctx (c :: cs) = (do
      let l ← lexeme ctx c cs
      let r ← scan (l.chars.length - 1) (ctx.after l) cs
      return (l.tokens ctx ++ r.1, l.starts ctx cs ++ r.2)) := rfl
  rw [hstep, hl]
  dsimp only [bind, Except.bind]
  rw [scan_inside, hdrop]
  cases scan 0 (ctx.after l) rest <;> rfl

/-- Scans without errors are the runs of the scanner. -/
theorem scans_iff {ctx : Context} {cs : List Char} {tokens : List Token} {starts : List Nat} :
    Scans ctx cs tokens starts ↔ scan 0 ctx cs = .ok (tokens, starts) := by
  constructor
  · intro h
    induction h with
    | done => rfl
    | step hl hrest _ ih =>
      obtain ⟨_, -, hopens⟩ := lexeme_opens hl
      rw [scan_lexeme hl hrest hopens.some_chars, ih]
      rfl
  · intro h
    generalize hlen : cs.length = n
    induction n using Nat.strongRecOn generalizing ctx cs tokens starts with
    | _ n ih =>
      cases cs with
      | nil =>
        cases h
        exact .done ctx
      | cons c cs =>
        cases hl : lexeme ctx c cs with
        | error e =>
          unfold scan at h
          rw [hl] at h
          cases h
        | ok l =>
          obtain ⟨rest, hrest, hopens⟩ := lexeme_opens hl
          have hshort : rest.length < n := hlen ▸ hopens.shorter hrest
          rw [scan_lexeme hl hrest hopens.some_chars] at h
          cases hscan : scan 0 (ctx.after l) rest with
          | error e =>
            rw [hscan] at h
            cases h
          | ok r =>
            rw [hscan] at h
            cases h
            exact .step hl hrest (ih rest.length hshort hscan rfl)

/-- There is always an end mark. -/
theorem Scans.tokens_ne_nil {ctx : Context} {cs : List Char} {tokens : List Token}
    {starts : List Nat} (h : Scans ctx cs tokens starts) : tokens ≠ [] := by
  induction h with
  | done => simp
  | step _ _ _ ih => exact List.append_ne_nil_of_right_ne_nil _ ih

/-- All line starts of a text are recorded, each once. -/
theorem Scans.starts_eq {ctx : Context} {cs : List Char} {tokens : List Token} {starts : List Nat}
    (h : Scans ctx cs tokens starts) : starts = LineTable.startsFrom ctx.pos cs := by
  induction h with
  | done => rfl
  | @step ctx c cs rest l tokens starts _ hrest _ ih =>
    obtain ⟨-, hpos⟩ := ctx.after_place l
    rw [hrest, LineTable.startsFrom_append, ← hpos, ih]

end Lexer

/-- A text that can be scanned is scanned lexeme by lexeme. -/
theorem lex_scans {file : FileId} {text : String} {lexed : Lexed} (h : lex file text = .ok lexed) :
    Lexer.Scans (.start file) text.toList lexed.tokens lexed.lines.later := by
  unfold lex at h
  cases hscan : Lexer.scan 0 (.start file) text.toList with
  | error e =>
    rw [hscan] at h
    cases h
  | ok r =>
    rw [hscan] at h
    cases h
    rw [LineTable.foldl_addLine]
    exact Lexer.scans_iff.2 hscan

/-- A scan of a whole text gives its tokens and lines. -/
theorem lex_of_scans {file : FileId} {text : String} {tokens : List Token} {starts : List Nat}
    (h : Lexer.Scans (.start file) text.toList tokens starts) :
    lex file text = .ok ⟨tokens, ⟨starts⟩⟩ := by
  unfold lex
  rw [Lexer.scans_iff.1 h]
  exact congrArg (fun lines => Except.ok (Lexed.mk tokens lines)) (LineTable.foldl_addLine starts _)

/-- What is recorded on the way is the line table of the text; each line start is recorded behind
the one before it. -/
theorem lex_lineTable {file : FileId} {text : String} {lexed : Lexed}
    (h : lex file text = .ok lexed) :
    lexed.lines = .scan text ∧ ∃ starts,
      Lexer.scan 0 (.start file) text.toList = .ok (lexed.tokens, starts) ∧
      lexed.lines = starts.foldl LineTable.addLine .single ∧
      ∀ before start after, starts = before ++ start :: after →
        (before.foldl LineTable.addLine .single).last < start := by
  have hscans := lex_scans h
  have hstarts : lexed.lines.later = LineTable.startsFrom 0 text.toList := hscans.starts_eq
  refine ⟨congrArg LineTable.mk hstarts, lexed.lines.later, Lexer.scans_iff.1 hscans, ?_, ?_⟩
  · rw [LineTable.foldl_addLine]
    rfl
  · intro before start after hsplit
    have hincreasing := LineTable.startsFrom_increasing 0 text.toList
    rw [← hstarts, hsplit, ← List.cons_append] at hincreasing
    have hbehind := (List.pairwise_append.1 hincreasing).2.2
    rw [LineTable.foldl_addLine]
    exact hbehind _ (LineTable.last_mem before) start List.mem_cons_self

/-- Line feeds alone, in a string, behind a backslash and in a comment. -/
theorem lex_lineTable_everywhere : ∃ lexed,
    lex ⟨0⟩ "a\n'b\n\\\nc'/*\n*/" = .ok lexed ∧ lexed.lines = ⟨[2, 5, 7, 12]⟩ ∧
    lexed.lines = .scan "a\n'b\n\\\nc'/*\n*/" ∧ ∃ starts,
      Lexer.scan 0 (.start ⟨0⟩) "a\n'b\n\\\nc'/*\n*/".toList = .ok (lexed.tokens, starts) ∧
      lexed.lines = starts.foldl LineTable.addLine .single ∧
      ∀ before start after, starts = before ++ start :: after →
        (before.foldl LineTable.addLine .single).last < start := by
  have hlex : lex ⟨0⟩ "a\n'b\n\\\nc'/*\n*/" = .ok ⟨_, ⟨[2, 5, 7, 12]⟩⟩ := rfl
  exact ⟨_, hlex, rfl, lex_lineTable hlex⟩

end FrontEnd
