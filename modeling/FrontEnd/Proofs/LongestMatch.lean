import FrontEnd.Proofs.Rescanning

/-!
# The longest token wins

A token is as long as the text at its place allows. For symbols this is read off the order of their
table, in which longer spellings come first; names and numbers are runs of characters of one class,
and end where the class does.
-/

namespace FrontEnd

/-- A symbol is written at the start of a text. The two that end in a word count only where no name
goes on behind them. -/
def Symbol.Begins (mark : Symbol) (cs : List Char) : Prop :=
  ∃ behind, cs = mark.spelling.toList ++ behind ∧
    (mark = .notIs ∨ mark = .notIn → behind.head?.any Lexer.isNamePart = false)

/-- The digits a number may go on with. -/
def LiteralForm.isDigit : LiteralForm → Char → Bool
  | .decimal | .float => Char.isDigit
  | .binary => Lexer.isBinDigit
  | .octal => Lexer.isOctDigit
  | .hexadecimal => Lexer.isHexDigit
  | .single | .double => fun _ => false

/-- A point and a digit. -/
def Lexer.OpensFraction (cs : List Char) : Prop :=
  ∃ d rest, cs = '.' :: d :: rest ∧ d.isDigit = true

/-- The mark of a comment. -/
def Lexer.OpensComment (cs : List Char) : Prop := ['/', '/'] <+: cs ∨ ['/', '*'] <+: cs

/-- No longer token is written at the place of a token, given the text behind it. -/
def TokenKind.Maximal : TokenKind → List Char → Prop
  | .symbol mark, behind =>
    let here := mark.spelling.toList ++ behind
    mark.Begins here ∧
      (∀ other : Symbol, other.Begins here → other.spelling.length ≤ mark.spelling.length) ∧
      ¬Lexer.OpensComment here ∧ ¬Lexer.OpensFraction here
  | .ident _, behind | .lifetime _, behind => behind.head?.any Lexer.isNamePart = false
  | .keyword word, behind => word ≠ .asSafe → behind.head?.any Lexer.isNamePart = false
  | .literal form lexeme, behind =>
    behind.head?.any form.isDigit = false ∧
      (form = .decimal → ¬Lexer.OpensFraction behind ∧
        (lexeme = "0" → ∀ mark ∈ behind.head?, Lexer.base? mark = none))
  | .eof, _ | .newline, _ => True

namespace Lexer

variable {ctx : Context} {c : Char} {cs rest : List Char} {l : Lexeme}

theorem fits_iff {mark : Symbol} : fits cs mark = true ↔ mark.Begins cs := by
  simp only [fits, Bool.and_eq_true, List.isPrefixOf_iff_prefix, Symbol.Begins]
  constructor
  · rintro ⟨⟨behind, rfl⟩, hword⟩
    refine ⟨behind, rfl, fun hmark => ?_⟩
    rw [if_pos hmark, List.drop_left] at hword
    simpa using hword
  · rintro ⟨behind, rfl, hword⟩
    refine ⟨List.prefix_append _ _, ?_⟩
    rw [List.drop_left]
    split
    · rw [hword ‹_›]
      rfl
    · rfl

/-- A symbol that is found is the longest one at its place: those in front of it in the table do not
begin the text, and those behind it are no longer. -/
theorem longest_of_symbol? {mark : Symbol} (h : symbol? cs = some mark) :
    mark.Begins cs ∧
      ∀ other : Symbol, other.Begins cs → other.spelling.length ≤ mark.spelling.length := by
  unfold symbol? at h
  rw [List.find?_eq_some_iff_append] at h
  obtain ⟨hmark, before, after, htable, hbefore⟩ := h
  refine ⟨fits_iff.1 hmark, fun other hother => ?_⟩
  have hmem := Symbol.mem_table other
  rw [htable] at hmem
  rcases List.mem_append.1 hmem with hearlier | hlater
  · have hnot := hbefore other hearlier
    rw [fits_iff.2 hother] at hnot
    cases hnot
  · rcases List.mem_cons.1 hlater with rfl | hlater
    · exact Nat.le_refl _
    · have hlongest := Symbol.table_longest_first
      rw [htable] at hlongest
      exact (List.pairwise_cons.1 (List.pairwise_append.1 hlongest).2.1).1 other hlater

/-- No character of a class is left behind those that were taken. -/
theorem stops_dropWhile (p : Char → Bool) (cs : List Char) :
    (cs.dropWhile p).head?.any p = false := by
  have hstop := List.head?_dropWhile_not p cs
  cases hdrop : cs.dropWhile p with
  | nil => rfl
  | cons d behind =>
    rw [hdrop] at hstop
    simpa using hstop

/-- What is behind a front part of a text that consists of the characters of a class. -/
theorem stops_of_takeWhile {p : Char → Bool} (h : cs = cs.takeWhile p ++ rest) :
    rest.head?.any p = false := by
  have hrest : cs.dropWhile p = rest := by
    refine (List.append_right_inj (cs.takeWhile p)).1 ?_
    rw [List.takeWhile_append_dropWhile, ← h]
  exact hrest ▸ stops_dropWhile p cs

/-- A word ends where the name does, but for the safe cast. -/
theorem maximal_word (h : cs = (word cs).chars ++ rest) :
    ∀ kind ∈ (word cs).kind?, kind.Maximal rest := by
  unfold word at h ⊢
  dsimp only at h ⊢
  split at h
  · rw [if_pos ‹_›]
    rintro _ ⟨⟩ hsafe
    exact absurd rfl hsafe
  · rw [if_neg ‹_›]
    split at h
    · rintro _ ⟨⟩ _
      exact stops_of_takeWhile h
    · rintro _ ⟨⟩
      exact stops_of_takeWhile h

/-- The digits of a base are those of the form of its numbers. -/
theorem base?_isDigit {mark : Char} {form : LiteralForm} {isDigit : Char → Bool}
    (h : base? mark = some (form, isDigit)) : form.isDigit = isDigit ∧ form ≠ .decimal := by
  unfold base? at h
  split at h <;> cases h <;> exact ⟨rfl, nofun⟩

/-- A decimal number takes all digits, and the fraction behind them. -/
theorem maximal_decimal (h : cs = (decimal cs).2 ++ rest) :
    rest.head?.any (decimal cs).1.isDigit = false ∧
      ((decimal cs).1 = .decimal → ¬OpensFraction rest) := by
  rcases decimal_cases cs with ⟨d, after, hpoint, hd⟩ | hnone
  · rw [decimal_of_point hpoint hd] at h ⊢
    have hrest : (d :: after).dropWhile Char.isDigit = rest := by
      have hcut : cs = cs.takeWhile Char.isDigit ++ '.' :: (d :: after) :=
        hpoint ▸ List.takeWhile_append_dropWhile.symm
      have hfraction := List.append_cancel_left
        ((hcut.symm.trans h).trans (List.append_assoc _ _ _))
      refine (List.append_right_inj ((d :: after).takeWhile Char.isDigit)).1 ?_
      rw [List.takeWhile_append_dropWhile]
      exact (List.cons.inj hfraction).2
    exact ⟨hrest ▸ stops_dropWhile _ _, nofun⟩
  · rw [decimal_of_digits hnone] at h ⊢
    have hrest : cs.dropWhile Char.isDigit = rest := by
      refine (List.append_right_inj (cs.takeWhile Char.isDigit)).1 ?_
      rw [List.takeWhile_append_dropWhile, ← h]
    refine ⟨hrest ▸ stops_dropWhile _ _, fun _ ⟨d, after, hpoint, hd⟩ => ?_⟩
    rw [hnone d after (hrest.trans hpoint)] at hd
    cases hd

/-- A number takes all digits of its base. -/
theorem maximal_number (h : cs = (number cs).2 ++ rest) :
    (TokenKind.literal (number cs).1 (String.ofList (number cs).2)).Maximal rest := by
  rcases number_cases cs with ⟨mark, after, form, isDigit, rfl, hbase⟩ | hnone
  · rw [number_of_base hbase] at h ⊢
    obtain ⟨hdigits, hform⟩ := base?_isDigit hbase
    subst hdigits
    have hcut : after = after.takeWhile form.isDigit ++ rest := by simpa using h
    exact ⟨stops_of_takeWhile hcut, fun hdecimal => absurd hdecimal hform⟩
  · rw [number_of_decimal hnone] at h ⊢
    obtain ⟨hdigits, hpoint⟩ := maximal_decimal h
    refine ⟨hdigits, fun hform => ⟨hpoint hform, fun hzero mark hmark => ?_⟩⟩
    obtain ⟨after, rfl⟩ : ∃ after, rest = mark :: after := List.head?_eq_some_iff.1 hmark
    refine hnone mark after ?_
    have hchars : (decimal cs).2 = ['0'] := by
      rw [← String.toList_ofList (l := (decimal cs).2), hzero]
      rfl
    rw [h, hchars]
    rfl

/-- A string has no digits. -/
theorem maximal_string {quote : Char} {form : LiteralForm} (hform : form = .single ∨ form = .double)
    (h : stringLexeme ctx quote form cs = .ok l) : ∀ kind ∈ l.kind?, kind.Maximal rest := by
  have hdigits : rest.head?.any form.isDigit = false := by
    rcases hform with rfl | rfl <;> cases rest <;> rfl
  unfold stringLexeme at h
  split at h
  · cases h
    rintro _ ⟨⟩
    refine ⟨hdigits, ?_⟩
    rintro rfl
    rcases hform with hform | hform <;> cases hform
  · cases h

/-- Every token that is found is the longest one at its place. -/
theorem maximal_of_lexeme (h : lexeme ctx c cs = .ok l) (hrest : c :: cs = l.chars ++ rest) :
    ∀ kind ∈ l.kind?, kind.Maximal rest := by
  rcases ordinary_cases c cs with rfl | rfl | rfl | ⟨body, rfl, rfl⟩ | ⟨body, rfl, rfl⟩ | hother
  · cases h
    rintro _ ⟨⟩
    trivial
  · rw [lexeme_single] at h
    cases hname : lifetime? ctx cs with
    | some name =>
      rw [hname] at h
      cases h
      rintro _ ⟨⟩
      exact stops_of_takeWhile (lifetime?_eq_takeWhile hname ▸ (List.cons.inj hrest).2)
    | none =>
      rw [hname] at h
      exact maximal_string (Or.inl rfl) h
  · exact maximal_string (Or.inr rfl) h
  · cases h
    nofun
  · rw [lexeme_comment] at h
    split at h
    · cases h
      nofun
    · cases h
  · rw [lexeme_ordinary hother] at h
    split at h
    · cases h
      nofun
    · split at h
      · cases h
        rintro _ ⟨⟩
        exact maximal_number hrest
      · rename_i hnumber
        split at h
        · cases h
          exact maximal_word hrest
        · split at h
          · rename_i mark hmark
            cases h
            rintro _ ⟨⟩
            obtain ⟨hbegins, hlongest⟩ := longest_of_symbol? hmark
            rw [hrest] at hbegins hlongest
            refine ⟨hbegins, hlongest, ?_, ?_⟩
            · rw [← hrest]
              rintro (hcomment | hcomment)
              · obtain ⟨rfl, after, hafter⟩ := List.cons_prefix_cons.1 hcomment
                exact (hother.comment rfl).1 (hafter ▸ rfl)
              · obtain ⟨rfl, after, hafter⟩ := List.cons_prefix_cons.1 hcomment
                exact (hother.comment rfl).2 (hafter ▸ rfl)
            · rw [← hrest]
              rintro ⟨d, after, hpoint, hd⟩
              obtain ⟨rfl, rfl⟩ := List.cons.inj hpoint
              exact hnumber (by simp [hd])
          · cases h

/-- The safe cast is found wherever it is written. -/
theorem lexeme_asSafe (ctx : Context) (cs : List Char) :
    lexeme ctx 'a' ('s' :: '?' :: cs) = .ok ⟨some (.keyword .asSafe), ['a', 's', '?']⟩ := rfl

/-- All tokens of a scan are the longest ones at their places, and the safe cast is one of them
wherever a token begins with it. -/
theorem Scans.maximal {tokens : List Token} {starts : List Nat} (h : Scans ctx cs tokens starts)
    (front : List Char) (hfront : Text.byteSize front = ctx.pos) :
    ∀ t ∈ tokens, ∃ before behind, front ++ cs = before ++ (t.kind.source ++ behind) ∧
      Text.byteSize before = t.span.pos ∧ Text.byteSize t.kind.source = t.span.len ∧
      t.kind.Maximal behind ∧
      (['a', 's', '?'] <+: t.kind.source ++ behind → t.kind = .keyword .asSafe) := by
  induction h generalizing front with
  | done ctx =>
    intro t ht
    obtain rfl := List.mem_singleton.1 ht
    exact ⟨front, [], rfl, hfront, rfl, trivial, fun hsafe => by simp [TokenKind.source] at hsafe⟩
  | @step ctx c cs rest l tokens starts hl hrest _ ih =>
    obtain ⟨-, hpos⟩ := ctx.after_place l
    intro t ht
    rcases List.mem_append.1 ht with ht | ht
    · obtain ⟨_, -, hopens⟩ := lexeme_opens hl
      obtain ⟨kind, hkind, rfl⟩ := List.mem_map.1 ht
      have hkind : kind ∈ l.kind? := Option.mem_toList.1 hkind
      obtain ⟨-, hchars⟩ := hopens.written kind hkind
      rw [hchars] at hrest ⊢
      refine ⟨front, rest, congrArg (front ++ ·) hrest, hfront, rfl,
        maximal_of_lexeme hl (hchars ▸ hrest) kind hkind, ?_⟩
      -- The scanner looks for words here, so nothing else can be found where the safe cast is
      -- written.
      rintro ⟨after, hafter⟩
      obtain ⟨rfl, rfl⟩ := List.cons.inj (hafter.trans hrest.symm)
      cases (lexeme_asSafe ctx after).symm.trans hl
      cases hkind
      rfl
    · have hlater := ih (front ++ l.chars) (by rw [Text.byteSize_append, hfront, hpos]) t ht
      rwa [List.append_assoc, ← hrest] at hlater

end Lexer

/-- **The longest match.** Every token of a text that can be scanned stands in the text at the place
of its span, and is the longest one there: a symbol is the longest of all symbols that begin the
text at that place, where neither a comment nor a fraction begins; behind a name, a lifetime or a
keyword that is a word no name goes on; behind a number there is no further digit of its base, and
behind a decimal one no fraction. Where a token begins with the word `as` and a question mark, it is
the safe cast. -/
theorem lex_longest {file : FileId} {text : String} {lexed : Lexed}
    (h : lex file text = .ok lexed) :
    ∀ t ∈ lexed.tokens, ∃ before behind, text.toList = before ++ (t.kind.source ++ behind) ∧
      Text.byteSize before = t.span.pos ∧ Text.byteSize t.kind.source = t.span.len ∧
      t.kind.Maximal behind ∧
      (['a', 's', '?'] <+: t.kind.source ++ behind → t.kind = .keyword .asSafe) :=
  (lex_scans h).maximal [] rfl

/-- Symbols, numbers and names that share their first characters with other tokens. -/
theorem lex_longest_overlapping : ∃ lexed,
    lex ⟨0⟩ "a>>=0x1F..<1..2.5!isnt as?/=<'b>.c" = .ok lexed ∧
    lexed.tokens.map (·.kind) = [.ident "a", .symbol .shrAssign, .literal .hexadecimal "0x1F",
      .symbol .rangeRightOpen, .literal .decimal "1", .symbol .range, .literal .float "2.5",
      .symbol .not, .ident "isnt", .keyword .asSafe, .symbol .divAssign, .symbol .lAngle,
      .lifetime "b", .symbol .rAngle, .symbol .dot, .ident "c", .eof] ∧
    ∀ t ∈ lexed.tokens, ∃ before behind,
      "a>>=0x1F..<1..2.5!isnt as?/=<'b>.c".toList = before ++ (t.kind.source ++ behind) ∧
      Text.byteSize before = t.span.pos ∧ Text.byteSize t.kind.source = t.span.len ∧
      t.kind.Maximal behind ∧
      (['a', 's', '?'] <+: t.kind.source ++ behind → t.kind = .keyword .asSafe) := by
  obtain ⟨lexed, hlex, hkinds⟩ : ∃ lexed, lex ⟨0⟩ "a>>=0x1F..<1..2.5!isnt as?/=<'b>.c" = .ok lexed ∧
      lexed.tokens.map (·.kind) = _ := ⟨_, rfl, rfl⟩
  exact ⟨lexed, hlex, hkinds, lex_longest hlex⟩

end FrontEnd
