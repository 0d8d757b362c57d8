import FrontEnd.Proofs.Rescanning
import FrontEnd.Proofs.Following.Relabeling

/-!
# Texts on lines of their own

A line feed ends every lexeme and closes all angle brackets, so the scanner begins a new line as it
begins a text. Two texts with a line feed between them are scanned one after the other.
-/

namespace FrontEnd

/-- Line starts move with the text. -/
theorem LineTable.startsFrom_shift (pos d : Nat) (cs : List Char) :
    startsFrom (pos + d) cs = (startsFrom pos cs).map (· + d) := by
  induction cs generalizing pos with
  | nil => rfl
  | cons c cs ih =>
    have hnext : pos + d + c.utf8Size = pos + c.utf8Size + d := by omega
    unfold startsFrom
    dsimp only
    rw [hnext, ih]
    split <;> rfl

namespace Lexer

variable {ctx ctx' : Context} {cs zs : List Char} {tokens tokens' : List Token}
  {starts starts' : List Nat}

/-- The places of a later state. -/
theorem Context.span_shift {d : Nat} (hfile : ctx'.file = ctx.file) (hpos : ctx'.pos = ctx.pos + d)
    (len : Nat) : ctx'.span len = (Relabeling.shift 0 d).span (ctx.span len) := by
  unfold Context.span
  rw [hfile, hpos]
  rfl

/-- A text is scanned alike at a later place. -/
theorem Scans.moved (h : Scans ctx cs tokens starts) (halike : ctx.Alike ctx') {d : Nat}
    (hfile : ctx'.file = ctx.file) (hpos : ctx'.pos = ctx.pos + d) :
    Scans ctx' cs (tokens.map (Relabeling.shift 0 d).token) (starts.map (· + d)) := by
  induction h generalizing ctx' with
  | done ctx =>
    have hdone := Scans.done ctx'
    rwa [Context.span_shift hfile hpos] at hdone
  | @step ctx c cs rest l tokens starts hl hrest _ ih =>
    obtain ⟨hfile₁, hpos₁⟩ := ctx.after_place l
    obtain ⟨hfile₂, hpos₂⟩ := ctx'.after_place l
    have hlater := ih (halike.after l) (by rw [hfile₁, hfile₂, hfile])
      (by rw [hpos₁, hpos₂, hpos]; omega)
    have hstep := Scans.step (lexeme_alike halike hl) hrest hlater
    have htokens : l.tokens ctx' = (l.tokens ctx).map (Relabeling.shift 0 d).token := by
      unfold Lexeme.tokens
      rw [Context.span_shift hfile hpos, List.map_map]
      rfl
    rwa [htokens, hpos, LineTable.startsFrom_shift, ← List.map_append, ← List.map_append] at hstep

/-- A text with a line feed behind it, and what is scanned on the next line. -/
theorem Scans.line (h : Scans ctx cs tokens starts)
    (hnext : Scans ⟨ctx.file, ctx.pos + Text.byteSize cs + 1, some .newline, 0⟩ zs tokens'
    starts') : Scans ctx (cs ++ '\n' :: zs)
      (tokens.dropLast ++ ⟨.newline, ctx.pos + Text.byteSize cs, 1, ctx.file⟩ :: tokens')
      (starts ++ (ctx.pos + Text.byteSize cs + 1) :: starts') := by
  induction h with
  | done ctx => exact .step (l := ⟨some .newline, ['\n']⟩) rfl rfl hnext
  | @step ctx c cs rest l tokens starts hl hrest hscan ih =>
    obtain ⟨hfile, hpos⟩ := ctx.after_place l
    have hsize : ctx.pos + Text.byteSize (c :: cs) =
        ctx.pos + Text.byteSize l.chars + Text.byteSize rest := by
      rw [hrest, Text.byteSize_append, Nat.add_assoc]
    rw [hfile, hpos, ← hsize] at ih
    have hseparates : Separates ('\n' :: zs) := ⟨'\n', zs, rfl, Or.inr rfl⟩
    have hfound := lexeme_append_separated hseparates (fun _ => rfl) hl
    have hsplit : c :: (cs ++ '\n' :: zs) = l.chars ++ (rest ++ '\n' :: zs) := by
      rw [← List.cons_append, hrest, List.append_assoc]
    have hstep := Scans.step hfound hsplit (ih hnext)
    rwa [← List.append_assoc, ← List.append_assoc,
      ← List.dropLast_append_of_ne_nil hscan.tokens_ne_nil] at hstep

/-- The scan of a second text begins behind a line feed as it begins at the start. -/
theorem Scans.next_line {file : FileId} (h : Scans (.start file) zs tokens starts) (size : Nat) :
    Scans ⟨file, size + 1, some .newline, 0⟩ zs (tokens.map (Relabeling.shift 0 (size + 1)).token)
      (starts.map (· + (size + 1))) := by
  have halike : (Context.start file).Alike ⟨file, size + 1, some .newline, 0⟩ :=
    ⟨rfl, by simp [Context.start]⟩
  exact h.moved halike rfl (Nat.zero_add _).symm

/-- Two texts with a line feed between them are scanned into the tokens of the first, a line break
and the tokens of the second, moved to their place. -/
theorem Scans.lines {file : FileId} {text text' : String} {size : Nat}
    (h : Scans (.start file) text.toList tokens starts)
    (h' : Scans (.start file) text'.toList tokens' starts')
    (hsize : Text.byteSize text.toList = size) :
    Scans (.start file) (text ++ "\n" ++ text').toList
      (tokens.dropLast ++ ⟨.newline, size, 1, file⟩ ::
        tokens'.map (Relabeling.shift 0 (size + 1)).token)
      (starts ++ (size + 1) :: starts'.map (· + (size + 1))) := by
  subst hsize
  have hbehind : (Context.start file).pos + Text.byteSize text.toList = Text.byteSize text.toList :=
    Nat.zero_add _
  have hline := h.line (by rw [hbehind]; exact h'.next_line _)
  rw [hbehind] at hline
  simpa [Context.start] using hline

end Lexer

/-- Two texts and the line feed between them. -/
theorem Text.byteSize_line (text text' : String) : byteSize (text ++ "\n" ++ text').toList =
    byteSize text'.toList + (byteSize text.toList + 1) := by
  have hbreak : byteSize "\n".toList = 1 := by decide
  rw [String.toList_append, String.toList_append, byteSize_append, byteSize_append, hbreak,
    Nat.add_comm]

/-- A text is scanned into some tokens and an end mark. -/
def ScansTo (file : FileId) (text : String) (tokens : List Token) : Prop :=
  ∃ lexed, lex file text = .ok lexed ∧
    lexed.tokens = tokens ++ [⟨.eof, Text.byteSize text.toList, 0, file⟩]

namespace ScansTo

variable {file : FileId} {text text' : String} {xs ys : List Token}

/-- The parser reads the tokens in front of the end mark. -/
theorem start (h : ScansTo file text xs) : ∃ lexed, lex file text = .ok lexed ∧
    lexed.tokens.length = xs.length + 1 ∧ (ParserState.start file lexed.tokens).rest = xs ∧
    (ParserState.start file lexed.tokens).final = ⟨.eof, Text.byteSize text.toList, 0, file⟩ := by
  obtain ⟨lexed, hlex, htokens⟩ := h
  have hkinds : ∀ t ∈ xs, t.kind ≠ .eof := by
    obtain ⟨before, hbefore, hother⟩ := (lex_cut hlex).ends
    obtain rfl : xs = before := by
      rw [htokens, Nat.zero_add] at hbefore
      exact List.append_cancel_right hbefore
    exact fun t ht => (hother t ht).1
  refine ⟨lexed, hlex, by rw [htokens, List.length_append]; rfl, ?_, ?_⟩
  · rw [htokens]
    change (xs ++ [_]).takeWhile (fun t => t.kind ≠ TokenKind.eof) = xs
    rw [List.takeWhile_append_of_pos (by simpa using hkinds)]
    simp
  · rw [htokens]
    change ((xs ++ [_]).find? fun t : Token => t.kind = TokenKind.eof).getD _ = _
    rw [List.find?_append, List.find?_eq_none.2 (by simpa using hkinds)]
    rfl

/-- A text that can be scanned, as the parser sees it. -/
theorem of_lex {lexed : Lexed} (h : lex file text = .ok lexed) :
    ScansTo file text (ParserState.start file lexed.tokens).rest ∧
      lexed.tokens.length = (ParserState.start file lexed.tokens).rest.length + 1 ∧
      (ParserState.start file lexed.tokens).final = ⟨.eof, Text.byteSize text.toList, 0, file⟩ := by
  obtain ⟨before, htokens, -⟩ := (lex_cut h).ends
  rw [Nat.zero_add] at htokens
  have hscans : ScansTo file text before := ⟨lexed, h, htokens⟩
  obtain ⟨lexed', hlex', hlength, hrest, hfinal⟩ := hscans.start
  obtain rfl : lexed = lexed' := Except.ok.inj (h.symm.trans hlex')
  rw [hrest]
  exact ⟨hscans, hlength, hfinal⟩

/-- One text on the lines behind another one. -/
theorem line (h : ScansTo file text xs) (h' : ScansTo file text' ys) {size : Nat}
    (hsize : Text.byteSize text.toList = size) :
    ScansTo file (text ++ "\n" ++ text') (xs ++ ⟨.newline, size, 1, file⟩ ::
      ys.map (Relabeling.shift 0 (size + 1)).token) := by
  obtain ⟨lexed, hlex, htokens⟩ := h
  obtain ⟨lexed', hlex', htokens'⟩ := h'
  refine ⟨_, lex_of_scans ((lex_scans hlex).lines (lex_scans hlex') hsize), ?_⟩
  rw [htokens, htokens', List.dropLast_concat, List.map_append, Text.byteSize_line, hsize]
  simp [Relabeling.token, Relabeling.shift]

end ScansTo

/-- Scanning goes line by line: two texts that can be scanned are scanned one after the other, into
the tokens of the first up to its end mark, the line break between the texts and the tokens of the
second; the lines of the second come behind those of the first. -/
theorem lex_line_by_line {file : FileId} {text text' : String} {lexed lexed' : Lexed}
    (h : lex file text = .ok lexed) (h' : lex file text' = .ok lexed') :
    ∃ front joined, lexed.tokens = front ++ [⟨.eof, Text.byteSize text.toList, 0, file⟩] ∧
      lex file (text ++ "\n" ++ text') = .ok joined ∧
      joined.tokens = front ++ ⟨.newline, Text.byteSize text.toList, 1, file⟩ ::
        lexed'.tokens.map (Relabeling.shift 0 (Text.byteSize text.toList + 1)).token ∧
      joined.lines.starts = lexed.lines.starts ++
        lexed'.lines.starts.map (· + (Text.byteSize text.toList + 1)) := by
  obtain ⟨front, htokens, -⟩ := (lex_cut h).ends
  rw [Nat.zero_add] at htokens
  refine ⟨front, _, htokens, lex_of_scans ((lex_scans h).lines (lex_scans h') rfl), ?_, ?_⟩
  · rw [htokens, List.dropLast_concat]
  · simp [LineTable.starts]

/-- Behind an open angle bracket and a comment, a string of two lines that would be a lifetime
inside the brackets. -/
theorem lex_line_by_line_open : ∃ lexed lexed', lex ⟨0⟩ "A< //" = .ok lexed ∧
    lex ⟨0⟩ "'c\n'" = .ok lexed' ∧
    ∃ front joined, lexed.tokens = front ++ [⟨.eof, Text.byteSize "A< //".toList, 0, ⟨0⟩⟩] ∧
      lex ⟨0⟩ ("A< //" ++ "\n" ++ "'c\n'") = .ok joined ∧
      joined.tokens = front ++ ⟨.newline, Text.byteSize "A< //".toList, 1, ⟨0⟩⟩ ::
        lexed'.tokens.map (Relabeling.shift 0 (Text.byteSize "A< //".toList + 1)).token ∧
      joined.lines.starts = lexed.lines.starts ++
        lexed'.lines.starts.map (· + (Text.byteSize "A< //".toList + 1)) := by
  have hlex : lex ⟨0⟩ "A< //" = .ok ⟨_, ⟨[]⟩⟩ := rfl
  have hlex' : lex ⟨0⟩ "'c\n'" = .ok ⟨_, ⟨[3]⟩⟩ := rfl
  exact ⟨_, _, hlex, hlex', lex_line_by_line hlex hlex'⟩

end FrontEnd
