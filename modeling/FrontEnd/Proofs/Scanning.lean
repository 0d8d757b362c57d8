import FrontEnd.Token.Lexer

/-!
# Scanning loses nothing

A text is cut into tokens and the gaps between them. Each lexeme the scanner finds is a piece of
the text at its place, so by induction over the lexemes the tokens and gaps, one after the other,
are the text. Everything else that is said of spans is read off this cut.
-/

namespace FrontEnd

/-- What stands in the text for a token: a line break is a line feed, and the end is nothing. -/
def TokenKind.source : TokenKind → List Char
  | .eof => []
  | .newline => ['\n']
  | kind => kind.text.toList

/-- What may stand between tokens, given the text that follows: blanks, comments up to the end of
the line, and block comments, which end with the first end mark. -/
inductive Gap : List Char → List Char → Prop
  | none (rest : List Char) : Gap [] rest
  | blank {c : Char} {gap rest : List Char} (hc : c = ' ' ∨ c = '\t' ∨ c = '\r')
    (h : Gap gap rest) : Gap (c :: gap) rest
  | line {body rest : List Char} (hbody : '\n' ∉ body)
    (hrest : rest = [] ∨ rest.head? = some '\n') : Gap ('/' :: '/' :: body) rest
  | block {body gap rest : List Char} (hbody : ¬['*', '/'] <:+: body ++ ['*'])
    (h : Gap gap rest) : Gap ('/' :: '*' :: (body ++ '*' :: '/' :: gap)) rest

/-- The cut of a text that begins at a byte offset into gaps and tokens, up to the end mark. -/
inductive Cut (file : FileId) : Nat → List Char → List Token → Prop
  | done {pos : Nat} {gap : List Char} (h : Gap gap []) :
    Cut file pos gap [⟨.eof, pos + Text.byteSize gap, 0, file⟩]
  | token {pos : Nat} {gap rest : List Char} {kind : TokenKind} {tokens : List Token}
    (hgap : Gap gap (kind.source ++ rest)) (hkind : kind ≠ .eof) (hsource : kind.source ≠ [])
    (h : Cut file (pos + Text.byteSize gap + Text.byteSize kind.source) rest tokens) :
    Cut file pos (gap ++ (kind.source ++ rest))
      (⟨kind, pos + Text.byteSize gap, Text.byteSize kind.source, file⟩ :: tokens)

namespace Text

/-- Some characters have at least one byte. -/
theorem byteSize_pos {cs : List Char} (h : cs ≠ []) : 0 < byteSize cs := by
  cases cs with
  | nil => exact absurd rfl h
  | cons c cs =>
    have := c.utf8Size_pos
    rw [byteSize_cons]
    omega

/-- A text can be cut after any of its front parts. -/
theorem splitAt?_append (front rest : List Char) :
    splitAt? (front ++ rest) (byteSize front) = some (front, rest) := by
  induction front with
  | nil => rw [byteSize_nil, List.nil_append, splitAt?]
  | cons c cs ih =>
    have hpos := c.utf8Size_pos
    rw [byteSize_cons, List.cons_append]
    obtain ⟨n, hn⟩ : ∃ n, c.utf8Size + byteSize cs = n + 1 :=
      ⟨c.utf8Size + byteSize cs - 1, by omega⟩
    have hrest : n + 1 - c.utf8Size = byteSize cs := by omega
    rw [hn, splitAt?, if_pos (by omega), hrest, ih]
    rfl

/-- The part between two other parts. -/
theorem slice?_append (front part rest : List Char) :
    slice? (front ++ (part ++ rest)) (byteSize front) (byteSize front + byteSize part) =
      some part := by
  have hlen : byteSize front + byteSize part - byteSize front = byteSize part := by omega
  change (if byteSize front ≤ byteSize front + byteSize part then pure () else failure) >>= _ = _
  rw [if_pos (by omega), hlen, splitAt?_append]
  change (splitAt? (part ++ rest) (byteSize part) >>= _) = _
  rw [splitAt?_append]
  rfl

end Text

namespace Lexer

/-- A string is followed by its closing quote. -/
theorem stringBody?_append {quote : Char} {cs body : List Char}
    (h : stringBody? quote cs = some body) : ∃ rest, cs = body ++ quote :: rest := by
  fun_induction stringBody? quote cs generalizing body with
  | case1 => cases h
  | case2 c cs ih =>
    obtain ⟨inner, hinner, rfl⟩ := Option.map_eq_some_iff.1 h
    obtain ⟨rest, rfl⟩ := ih hinner
    exact ⟨rest, rfl⟩
  | case3 cs =>
    cases h
    exact ⟨cs, rfl⟩
  | case4 c cs _ _ ih =>
    obtain ⟨inner, hinner, rfl⟩ := Option.map_eq_some_iff.1 h
    obtain ⟨rest, rfl⟩ := ih hinner
    exact ⟨rest, rfl⟩

/-- A block comment ends with the first end mark. -/
theorem commentBody?_append {cs chars : List Char} (h : commentBody? cs = some chars) :
    ∃ body rest, chars = body ++ ['*', '/'] ∧ cs = chars ++ rest ∧
      ¬['*', '/'] <:+: body ++ ['*'] := by
  fun_induction commentBody? cs generalizing chars with
  | case1 => cases h
  | case2 rest =>
    cases h
    exact ⟨[], rest, rfl, rfl, by decide⟩
  | case3 c cs hmark ih =>
    obtain ⟨inner, hinner, rfl⟩ := Option.map_eq_some_iff.1 h
    obtain ⟨body, rest, rfl, rfl, hbody⟩ := ih hinner
    refine ⟨c :: body, rest, rfl, rfl, fun hinfix => ?_⟩
    rw [List.cons_append, List.infix_cons_iff] at hinfix
    rcases hinfix with hfront | hlater
    · -- A mark at the front would have ended the comment there.
      obtain ⟨rfl, hnext⟩ := List.cons_prefix_cons.1 hfront
      cases body with
      | nil => simp at hnext
      | cons d body =>
        obtain ⟨rfl, -⟩ := List.cons_prefix_cons.1 hnext
        exact hmark _ rfl rfl
    · exact hbody hlater

/-- A piece of text that begins with a digit, or with a point before a digit. -/
def StartsNumber (c : Char) (cs : List Char) : Prop :=
  c.isDigit = true ∨ c = '.' ∧ cs.head?.any Char.isDigit = true

/-- A number is scanned exactly where one starts. -/
theorem startsNumber_iff {c : Char} {cs : List Char} :
    (c.isDigit || (c == '.' && cs.head?.any Char.isDigit)) = true ↔ StartsNumber c cs := by
  simp [StartsNumber]

/-- What starts a number still does in front of more text. -/
theorem StartsNumber.append {c : Char} {cs : List Char} (h : StartsNumber c cs) (rest : List Char) :
    StartsNumber c (cs ++ rest) := by
  refine h.imp_right fun ⟨hpoint, hnext⟩ => ⟨hpoint, ?_⟩
  cases cs with
  | nil => cases hnext
  | cons d cs => exact hnext

/-- Numbers whose lexeme is written as it stands. -/
def PlainForm (form : LiteralForm) : Prop := form ≠ .single ∧ form ≠ .double

/-- Such a number is its lexeme. -/
theorem source_of_plain {form : LiteralForm} (h : PlainForm form) (lexeme : String) :
    (TokenKind.literal form lexeme).source = lexeme.toList := by
  cases form with
  | single => exact absurd rfl h.1
  | double => exact absurd rfl h.2
  | _ => rfl

/-- The digits before a point, if no fraction follows, are at least one. -/
theorem whole_ne_nil {c : Char} {cs : List Char} (h : StartsNumber c cs)
    (hpoint : ∀ d rest, (c :: cs).dropWhile Char.isDigit = '.' :: d :: rest → d.isDigit = false) :
    (c :: cs).takeWhile Char.isDigit ≠ [] := by
  rcases h with hdigit | ⟨rfl, hnext⟩
  · rw [List.takeWhile_cons_of_pos hdigit]
    exact List.cons_ne_nil _ _
  · cases cs with
    | nil => cases hnext
    | cons d rest =>
      have := hpoint d rest (List.dropWhile_cons_of_neg (by decide))
      rw [show Option.any Char.isDigit (d :: rest).head? = d.isDigit from rfl, this] at hnext
      cases hnext

/-- A decimal number is a front part of the text, at least one character long. -/
theorem decimal_append {c : Char} {cs : List Char} (h : StartsNumber c cs) :
    (∃ rest, c :: cs = (decimal (c :: cs)).2 ++ rest) ∧ (decimal (c :: cs)).2 ≠ [] ∧
      PlainForm (decimal (c :: cs)).1 := by
  have hcut : (c :: cs).takeWhile Char.isDigit ++ (c :: cs).dropWhile Char.isDigit = c :: cs :=
    List.takeWhile_append_dropWhile
  unfold decimal
  dsimp only
  split
  · rename_i d rest hdrop
    rw [hdrop] at hcut
    split
    · refine ⟨⟨(d :: rest).dropWhile Char.isDigit, ?_⟩, by simp, by simp [PlainForm]⟩
      rw [List.append_assoc, List.cons_append, List.takeWhile_append_dropWhile, hcut]
    · rename_i hd
      refine ⟨⟨_, hcut.symm⟩, whole_ne_nil h fun e _ he => ?_, by simp [PlainForm]⟩
      rw [hdrop] at he
      cases he
      simpa using hd
  · rename_i hother
    exact ⟨⟨_, hcut.symm⟩, whole_ne_nil h fun d rest he => absurd he (hother d rest),
      by simp [PlainForm]⟩

/-- So is every number. -/
theorem number_append {c : Char} {cs : List Char} (h : StartsNumber c cs) :
    (∃ rest, c :: cs = (number (c :: cs)).2 ++ rest) ∧ (number (c :: cs)).2 ≠ [] ∧
      PlainForm (number (c :: cs)).1 := by
  unfold number
  split
  · rename_i mark rest hcs
    rw [hcs]
    split
    · rename_i form isDigit hbase
      refine ⟨⟨rest.dropWhile isDigit, ?_⟩, List.cons_ne_nil _ _, ?_⟩
      · rw [List.cons_append, List.cons_append, List.takeWhile_append_dropWhile]
      · unfold base? at hbase
        split at hbase
        all_goals first | cases hbase; simp [PlainForm] | cases hbase
    · cases hcs
      exact decimal_append h
  · exact decimal_append h

/-- A lexeme that is found at the start of a text: a token is written there, and a piece without
a token makes the gap behind it longer. -/
structure Lexeme.Opens (l : Lexeme) (rest : List Char) : Prop where
  /-- There is always progress. -/
  some_chars : l.chars ≠ []
  /-- Tokens are written as their kind says. -/
  written : ∀ kind ∈ l.kind?, kind ≠ .eof ∧ l.chars = kind.source
  /-- Other pieces belong to the gap. -/
  skipped : l.kind? = none → ∀ gap tail, rest = gap ++ tail → Gap gap tail →
    Gap (l.chars ++ gap) tail

/-- The text behind a lexeme is shorter. -/
theorem Lexeme.Opens.shorter {l : Lexeme} {c : Char} {cs rest : List Char} (h : l.Opens rest)
    (hrest : c :: cs = l.chars ++ rest) : rest.length < (c :: cs).length := by
  have hpos := List.length_pos_iff.2 h.some_chars
  rw [hrest, List.length_append]
  omega

/-- A token that is written at the start of a text. -/
theorem Lexeme.opens_token {kind : TokenKind} {chars rest : List Char} (hchars : chars ≠ [])
    (hkind : kind ≠ .eof) (hsource : chars = kind.source) :
    (⟨some kind, chars⟩ : Lexeme).Opens rest where
  some_chars := hchars
  written := by
    rintro _ ⟨⟩
    exact ⟨hkind, hsource⟩
  skipped := nofun

/-- A word is a keyword, a name or the safe cast. -/
theorem word_opens {c : Char} {cs : List Char} (h : isNameStart c = true) :
    ∃ rest, c :: cs = (word (c :: cs)).chars ++ rest ∧ (word (c :: cs)).Opens rest := by
  have hcut : (c :: cs).takeWhile isNamePart ++ (c :: cs).dropWhile isNamePart = c :: cs :=
    List.takeWhile_append_dropWhile
  have hpart : isNamePart c = true := by
    simp only [isNameStart, isNamePart, Char.isAlphanum, Bool.or_eq_true] at h ⊢
    rcases h with h | h
    · exact Or.inl (Or.inl h)
    · exact Or.inr h
  have hchars : (c :: cs).takeWhile isNamePart ≠ [] := by
    rw [List.takeWhile_cons_of_pos hpart]
    exact List.cons_ne_nil _ _
  unfold word
  dsimp only
  split
  · rename_i hsafe
    obtain ⟨rest, hrest⟩ : ∃ rest, (c :: cs).dropWhile isNamePart = '?' :: rest := by
      cases hdrop : (c :: cs).dropWhile isNamePart with
      | nil => simp [hdrop] at hsafe
      | cons d rest => exact ⟨rest, by simpa [hdrop] using hsafe.2⟩
    rw [hrest] at hcut
    refine ⟨rest, by simpa using hcut.symm, Lexeme.opens_token (by simp) nofun ?_⟩
    have := congrArg String.toList hsafe.1
    rw [String.toList_ofList] at this
    rw [this]
    decide
  · split
    · rename_i k hk
      refine ⟨_, hcut.symm, Lexeme.opens_token hchars nofun ?_⟩
      have := Keyword.spelling_of_ofWord? hk
      simp [TokenKind.source, TokenKind.text, this]
    · refine ⟨_, hcut.symm, Lexeme.opens_token hchars nofun ?_⟩
      simp [TokenKind.source, TokenKind.text]

/-- A string is written with its quotes. -/
theorem stringLexeme_opens {ctx : Context} {quote : Char} {form : LiteralForm} {cs : List Char}
    {l : Lexeme} (h : stringLexeme ctx quote form cs = .ok l)
    (hsource : ∀ body, (TokenKind.literal form (String.ofList body)).source =
      quote :: body ++ [quote]) :
    ∃ rest, quote :: cs = l.chars ++ rest ∧ l.Opens rest := by
  unfold stringLexeme at h
  split at h
  · rename_i body hbody
    cases h
    obtain ⟨rest, rfl⟩ := stringBody?_append hbody
    exact ⟨rest, by simp, Lexeme.opens_token (by simp) nofun (hsource body).symm⟩
  · cases h

/-- Every symbol is written with at least one character. -/
theorem spelling_ne_nil (mark : Symbol) : mark.spelling.toList ≠ [] := by
  cases mark <;> decide

/-- No gap begins with a line break. -/
theorem gap_nil_of_line {gap tail : List Char} (h : Gap gap tail)
    (hline : gap ++ tail = [] ∨ (gap ++ tail).head? = some '\n') : gap = [] := by
  cases h with
  | none => rfl
  | blank hc _ =>
    rcases hc with rfl | rfl | rfl
    · simp at hline
    · simp at hline
    · simp at hline
  | line _ _ => simp at hline
  | block _ _ => simp at hline

/-- A comment up to the end of the line belongs to the gap, which ends with it. -/
theorem lineComment_opens (cs : List Char) :
    (⟨none, '/' :: '/' :: cs.takeWhile (· ≠ '\n')⟩ : Lexeme).Opens (cs.dropWhile (· ≠ '\n')) where
  some_chars := by simp
  written := nofun
  skipped := by
    intro _ gap tail hrest hgap
    have hbody : '\n' ∉ cs.takeWhile (· ≠ '\n') := fun hmem => by
      simpa using List.all_eq_true.1 List.all_takeWhile _ hmem
    have hline : gap ++ tail = [] ∨ (gap ++ tail).head? = some '\n' := by
      rw [← hrest]
      have := List.head?_dropWhile_not (· ≠ '\n') cs
      cases hdrop : cs.dropWhile (· ≠ '\n') with
      | nil => exact Or.inl rfl
      | cons d rest =>
        rw [hdrop] at this
        exact Or.inr (by simpa using this)
    have hnil := gap_nil_of_line hgap hline
    subst hnil
    rw [List.append_nil]
    exact .line hbody hline

/-- A block comment belongs to the gap. -/
theorem blockComment_opens {body rest : List Char} (hbody : ¬['*', '/'] <:+: body ++ ['*']) :
    (⟨none, '/' :: '*' :: (body ++ ['*', '/'])⟩ : Lexeme).Opens rest where
  some_chars := by simp
  written := nofun
  skipped := by
    intro _ gap tail _ hgap
    have := Gap.block hbody hgap
    simpa using this

/-- A blank belongs to the gap. -/
theorem blank_opens {c : Char} {rest : List Char} (hc : isBlank c = true) :
    (⟨none, [c]⟩ : Lexeme).Opens rest where
  some_chars := by simp
  written := nofun
  skipped := by
    intro _ gap tail _ hgap
    refine .blank ?_ hgap
    simpa [isBlank, or_assoc] using hc

/-- The name of a lifetime is as long as it goes on. -/
theorem lifetime?_eq_takeWhile {ctx : Context} {cs name : List Char}
    (h : lifetime? ctx cs = some name) : cs.takeWhile isNamePart = name := by
  unfold lifetime? at h
  dsimp only at h
  split at h
  · cases h
    rfl
  · cases h

/-- Every lexeme is a front part of the text it is found in. -/
theorem lexeme_opens {ctx : Context} {c : Char} {cs : List Char} {l : Lexeme}
    (h : lexeme ctx c cs = .ok l) : ∃ rest, c :: cs = l.chars ++ rest ∧ l.Opens rest := by
  unfold lexeme at h
  split at h
  · cases h
    exact ⟨cs, rfl, Lexeme.opens_token (by simp) nofun rfl⟩
  · split at h
    · rename_i name hname
      cases h
      obtain rfl : cs.takeWhile isNamePart = name := lifetime?_eq_takeWhile hname
      refine ⟨cs.dropWhile isNamePart, ?_, Lexeme.opens_token (by simp) nofun ?_⟩
      · rw [List.cons_append, List.takeWhile_append_dropWhile]
      · simp [TokenKind.source, TokenKind.text]
    · exact stringLexeme_opens h fun body => by simp [TokenKind.source, TokenKind.text]
  · exact stringLexeme_opens h fun body => by simp [TokenKind.source, TokenKind.text]
  · rename_i body
    cases h
    refine ⟨_, ?_, lineComment_opens body⟩
    rw [List.cons_append, List.cons_append, List.takeWhile_append_dropWhile]
  · split at h
    · rename_i hbody
      cases h
      obtain ⟨body, rest, rfl, rfl, hfirst⟩ := commentBody?_append hbody
      exact ⟨rest, rfl, blockComment_opens hfirst⟩
    · cases h
  · split at h
    · rename_i hblank
      cases h
      exact ⟨cs, rfl, blank_opens hblank⟩
    · split at h
      · rename_i hnumber
        obtain ⟨⟨rest, hrest⟩, hchars, hplain⟩ := number_append (startsNumber_iff.1 hnumber)
        generalize number (c :: cs) = r at h hrest hchars hplain
        obtain ⟨form, chars⟩ := r
        cases h
        refine ⟨rest, hrest, Lexeme.opens_token hchars nofun ?_⟩
        rw [source_of_plain hplain, String.toList_ofList]
      · split at h
        · rename_i hname
          cases h
          exact word_opens hname
        · split at h
          · rename_i mark hmark
            cases h
            have hfits : fits (c :: cs) mark = true := List.find?_some hmark
            simp only [fits, Bool.and_eq_true, List.isPrefixOf_iff_prefix] at hfits
            obtain ⟨rest, hrest⟩ := hfits.1
            exact ⟨rest, hrest.symm, Lexeme.opens_token (spelling_ne_nil mark) nofun rfl⟩
          · cases h

/-- Inside a lexeme the scanner only counts. -/
theorem scan_inside (n : Nat) (ctx : Context) (cs : List Char) :
    scan n ctx cs = scan 0 ctx (cs.drop n) := by
  induction n generalizing cs with
  | zero => rfl
  | succ n ih =>
    cases cs with
    | nil => rfl
    | cons c cs => exact ih cs

/-- A piece of text in front of a cut, which has a token or makes the first gap longer. -/
theorem cut_after {ctx : Context} {l : Lexeme} {rest : List Char} {tokens : List Token}
    (hl : l.Opens rest) (h : Cut ctx.file (ctx.pos + Text.byteSize l.chars) rest tokens) :
    Cut ctx.file ctx.pos (l.chars ++ rest) (l.tokens ctx ++ tokens) := by
  obtain ⟨kind?, chars⟩ := l
  cases kind? with
  | some kind =>
    obtain ⟨hkind, rfl⟩ : kind ≠ .eof ∧ chars = kind.source := hl.written kind rfl
    exact .token (.none _) hkind hl.some_chars h
  | none =>
    cases h with
    | done hgap =>
      have hdone : Cut ctx.file ctx.pos (chars ++ rest) _ :=
        .done (hl.skipped rfl rest [] (by simp) hgap)
      rw [Text.byteSize_append, ← Nat.add_assoc] at hdone
      exact hdone
    | @token _ gap rest kind tokens hgap hkind hsource h =>
      rw [Nat.add_assoc ctx.pos, ← Text.byteSize_append] at h
      have htoken : Cut ctx.file ctx.pos (chars ++ gap ++ (kind.source ++ rest)) _ :=
        .token (hl.skipped rfl _ _ rfl hgap) hkind hsource h
      rw [Text.byteSize_append, ← Nat.add_assoc, List.append_assoc] at htoken
      exact htoken

/-- The tokens of a text that can be scanned are a cut of it. -/
theorem scan_cut {ctx : Context} {cs : List Char} {tokens : List Token} {starts : List Nat}
    (h : scan 0 ctx cs = .ok (tokens, starts)) : Cut ctx.file ctx.pos cs tokens := by
  generalize hlen : cs.length = n
  induction n using Nat.strongRecOn generalizing ctx cs tokens starts with
  | _ n ih =>
    cases cs with
    | nil =>
      cases h
      exact .done (.none [])
    | cons c cs =>
      unfold scan at h
      cases hlexeme : lexeme ctx c cs with
      | error e =>
        rw [hlexeme] at h
        cases h
      | ok l =>
        obtain ⟨rest, hrest, hopens⟩ := lexeme_opens hlexeme
        have hdrop : cs.drop (l.chars.length - 1) = rest := by
          have hpos : 0 < l.chars.length := List.length_pos_iff.2 hopens.some_chars
          have hchars := congrArg (List.drop l.chars.length) hrest
          rw [List.drop_left] at hchars
          rwa [← Nat.succ_pred_eq_of_pos hpos, List.drop_succ_cons] at hchars
        rw [hlexeme] at h
        dsimp only [bind, Except.bind] at h
        rw [scan_inside, hdrop] at h
        cases hscan : scan 0 (ctx.after l) rest with
        | error e =>
          rw [hscan] at h
          cases h
        | ok r =>
          obtain ⟨later, laterStarts⟩ := r
          rw [hscan] at h
          cases h
          have hshort : rest.length < n := hlen ▸ hopens.shorter hrest
          have hcut := ih rest.length hshort hscan rfl
          obtain ⟨hfile, hpos⟩ : (ctx.after l).file = ctx.file ∧
              (ctx.after l).pos = ctx.pos + Text.byteSize l.chars := by
            unfold Context.after
            dsimp only
            split <;> exact ⟨rfl, rfl⟩
          rw [hfile, hpos] at hcut
          rw [hrest]
          exact cut_after hopens hcut

end Lexer

/-- The tokens of a text are a cut of it. -/
theorem lex_cut {file : FileId} {text : String} {lexed : Lexed} (h : lex file text = .ok lexed) :
    Cut file 0 text.toList lexed.tokens := by
  unfold lex at h
  cases hscan : Lexer.scan 0 (Lexer.Context.start file) text.toList with
  | error e =>
    rw [hscan] at h
    cases h
  | ok r =>
    rw [hscan] at h
    cases h
    exact Lexer.scan_cut hscan

/-- The end of the last of some tokens, or a given offset if there is none. -/
def endFrom (pos : Nat) (tokens : List Token) : Nat :=
  (tokens.getLast?.map (·.span.stop)).getD pos

theorem endFrom_cons (pos : Nat) (t : Token) (tokens : List Token) :
    endFrom pos (t :: tokens) = endFrom t.span.stop tokens := by
  unfold endFrom
  rw [List.getLast?_cons]
  cases tokens.getLast? <;> rfl

namespace Cut

variable {file : FileId} {pos : Nat} {text : List Char} {tokens : List Token}

/-- Tokens come after the place where the cut begins. -/
theorem pos_le (h : Cut file pos text tokens) : ∀ t ∈ tokens, pos ≤ t.span.pos := by
  induction h with
  | done _ => simp
  | token _ _ _ _ ih =>
    intro t ht
    rcases List.mem_cons.1 ht with rfl | ht
    · dsimp only
      omega
    · have := ih t ht
      omega

/-- Each token ends before the next one begins, and is not empty unless it is the last. -/
theorem ordered (h : Cut file pos text tokens) :
    tokens.Pairwise fun a b => a.span.pos < b.span.pos ∧ a.span.stop ≤ b.span.pos := by
  induction h with
  | done _ => simp
  | token _ _ hsource h ih =>
    refine List.pairwise_cons.2 ⟨fun t ht => ?_, ih⟩
    have hle := h.pos_le t ht
    have hpos := Text.byteSize_pos hsource
    dsimp only [Span.stop]
    omega

/-- Only the last token is the end mark, an empty one at the end of the text. -/
theorem ends (h : Cut file pos text tokens) :
    ∃ before, tokens = before ++ [⟨.eof, pos + Text.byteSize text, 0, file⟩] ∧
      ∀ t ∈ before, t.kind ≠ .eof ∧ 0 < t.span.len := by
  induction h with
  | done _ => exact ⟨[], rfl, nofun⟩
  | @token pos gap rest kind tokens _ hkind hsource _ ih =>
    obtain ⟨before, rfl, hbefore⟩ := ih
    refine ⟨⟨kind, pos + Text.byteSize gap, Text.byteSize kind.source, file⟩ :: before, ?_, ?_⟩
    · simp [Nat.add_assoc]
    · exact List.forall_mem_cons.2 ⟨⟨hkind, Text.byteSize_pos hsource⟩, hbefore⟩

/-- The text under each span is the one of the token. -/
theorem written (h : Cut file pos text tokens) (front : List Char)
    (hfront : Text.byteSize front = pos) :
    ∀ t ∈ tokens, Text.slice? (front ++ text) t.span.pos t.span.stop = some t.kind.source := by
  induction h generalizing front with
  | @done pos gap _ =>
    have := Text.slice?_append (front ++ gap) [] []
    simpa [Span.stop, TokenKind.source, hfront] using this
  | @token pos gap rest kind tokens _ _ _ _ ih =>
    intro t ht
    rcases List.mem_cons.1 ht with rfl | ht
    · have := Text.slice?_append (front ++ gap) kind.source rest
      simpa [Span.stop, hfront] using this
    · have := ih (front ++ (gap ++ kind.source)) (by simp [hfront, Nat.add_assoc]) t ht
      simpa using this

/-- Between the end of one token and the next token there is a gap. -/
theorem gaps (h : Cut file pos text tokens) (front : List Char)
    (hfront : Text.byteSize front = pos) :
    ∀ before t after, tokens = before ++ t :: after → ∃ earlier gap rest,
      front ++ text = earlier ++ (gap ++ rest) ∧ Text.byteSize earlier = endFrom pos before ∧
        Text.byteSize (earlier ++ gap) = t.span.pos ∧ Gap gap rest := by
  induction h generalizing front with
  | @done pos gap hgap =>
    intro before t after hsplit
    cases before with
    | nil =>
      cases hsplit
      exact ⟨front, gap, [], by simp, hfront, by simp [hfront], hgap⟩
    | cons t' before => simp at hsplit
  | @token pos gap rest kind tokens hgap _ _ _ ih =>
    intro before t after hsplit
    cases before with
    | nil =>
      cases hsplit
      exact ⟨front, gap, _, rfl, hfront, by simp [hfront], hgap⟩
    | cons t' before =>
      obtain ⟨rfl, hlater⟩ := List.cons.inj hsplit
      obtain ⟨earlier, gap', rest', htext, hearlier, hpos, hgap'⟩ :=
        ih (front ++ (gap ++ kind.source)) (by simp [hfront, Nat.add_assoc]) before t after hlater
      refine ⟨earlier, gap', rest', by simpa using htext, ?_, hpos, hgap'⟩
      rw [hearlier, endFrom_cons]
      rfl

end Cut

/-- A text and its tokens: nothing of the text is lost. -/
structure Lossless (file : FileId) (text : List Char) (tokens : List Token) : Prop where
  /-- The spans are in order and do not overlap. -/
  ordered : tokens.Pairwise fun a b => a.span.pos < b.span.pos ∧ a.span.stop ≤ b.span.pos
  /-- Exactly the last token is the end mark, with the empty span at the end of the text; all other
  spans have at least one byte. -/
  ends : ∃ before, tokens = before ++ [⟨.eof, Text.byteSize text, 0, file⟩] ∧
    ∀ t ∈ before, t.kind ≠ .eof ∧ 0 < t.span.len
  /-- Every span lies inside the text. -/
  inside : ∀ t ∈ tokens, t.span.stop ≤ Text.byteSize text
  /-- Every span can be cut out of the text, and the token is written there: as its kind is
  displayed, or as a line feed. -/
  written : ∀ t ∈ tokens, t.kind ≠ .eof → Text.slice? text t.span.pos t.span.stop =
    some (if t.kind = .newline then ['\n'] else t.kind.text.toList)
  /-- In front of every token, from the end of the one before it or the start of the text on,
  there is nothing but blanks and comments. -/
  gaps : ∀ before t after, tokens = before ++ t :: after → ∃ earlier gap rest,
    text = earlier ++ (gap ++ rest) ∧ Text.byteSize earlier = endFrom 0 before ∧
      Text.byteSize (earlier ++ gap) = t.span.pos ∧ Gap gap rest

/-- A text that can be scanned is cut into tokens and gaps without loss. -/
theorem lex_lossless {file : FileId} {text : String} {lexed : Lexed}
    (h : lex file text = .ok lexed) : Lossless file text.toList lexed.tokens := by
  have hcut := lex_cut h
  have hends : ∃ before, lexed.tokens = before ++ [⟨.eof, Text.byteSize text.toList, 0, file⟩] ∧
      ∀ t ∈ before, t.kind ≠ .eof ∧ 0 < t.span.len := by
    simpa using hcut.ends
  refine ⟨hcut.ordered, hends, fun t ht => ?_, fun t ht hkind => ?_, hcut.gaps [] rfl⟩
  · obtain ⟨before, hbefore, -⟩ := hends
    have hordered := hcut.ordered
    rw [hbefore] at ht hordered
    rcases List.mem_append.1 ht with ht | ht
    · exact ((List.pairwise_append.1 hordered).2.2 t ht _ List.mem_cons_self).2
    · obtain rfl := List.mem_singleton.1 ht
      exact Nat.le_refl _
  · refine (hcut.written [] rfl t ht).trans ?_
    generalize t.kind = kind at hkind ⊢
    cases kind with
    | eof => exact absurd rfl hkind
    | newline => rfl
    | _ => rfl

/-- Two tokens, a line break and the end mark, with a comment and a character of two bytes. -/
theorem lex_lossless_two_lines : Lossless ⟨0⟩ "a // b\n'é'".toList
    [⟨.ident "a", 0, 1, ⟨0⟩⟩, ⟨.newline, 6, 1, ⟨0⟩⟩, ⟨.literal .single "é", 7, 4, ⟨0⟩⟩,
      ⟨.eof, 11, 0, ⟨0⟩⟩] :=
  @lex_lossless ⟨0⟩ "a // b\n'é'" ⟨_, ⟨[7]⟩⟩ (by rfl)

end FrontEnd
