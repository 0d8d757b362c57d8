import FrontEnd.Proofs.LongestMatch
import Mathlib.Data.List.DropRight

/-!
# The scanner stops at the first problem

Where the scanner stops there is a character that begins nothing, a string without its closing quote
or a comment without its end mark. The text in front of it can be scanned alone: no token found
there depends on what follows, as none of these problems begins with a character that a token could
go on with.
-/

namespace FrontEnd

namespace Lexer

/-- A character that begins no token, blank or comment. Comments begin like a symbol. -/
structure BeginsNothing (c : Char) : Prop where
  line : c ≠ '\n'
  blank : isBlank c = false
  quote : c ≠ '\x27' ∧ c ≠ '"'
  digit : c.isDigit = false
  name : isNameStart c = false
  symbol : ∀ mark : Symbol, mark.spelling.toList.head? ≠ some c

/-- An odd number of backslashes at the end of some characters takes the next character along. -/
def EndsEscaping (cs : List Char) : Prop := (cs.rtakeWhile (· = '\\')).length % 2 = 1

end Lexer

/-- What is wrong at a place, given the characters that are marked there and the text behind them: a
character that begins nothing; a quote such that every further one is escaped, with all that follows
it; or the mark of a block comment that is not closed. -/
def LexProblem.Stands : LexProblem → List Char → List Char → Prop
  | .unexpectedChar c, marked, _ => marked = [c] ∧ Lexer.BeginsNothing c
  | .unterminatedString, marked, behind => behind = [] ∧ ∃ quote rest,
      (quote = '\x27' ∨ quote = '"') ∧ marked = quote :: rest ∧
        ∀ body later, rest = body ++ quote :: later → Lexer.EndsEscaping body
  | .unterminatedComment, marked, behind => marked = ['/', '*'] ∧ ¬['*', '/'] <:+: behind

namespace Lexer

variable {ctx ctx' : Context} {c quote : Char} {cs rest z : List Char} {l : Lexeme} {e : LexError}

/-- What is at the end of a text goes on to a character in front of it only through the whole
text. -/
theorem rtakeWhile_cons (p : Char → Bool) (c : Char) (cs : List Char) :
    (c :: cs).rtakeWhile p = if cs.all p then [c].rtakeWhile p ++ cs else cs.rtakeWhile p := by
  have hall : (cs.reverse.takeWhile p).length = cs.reverse.length ↔ cs.all p = true := by
    rw [List.all_eq_true]
    constructor
    · intro hlength d hd
      have hwhole := (List.takeWhile_prefix p).eq_of_length hlength
      exact List.takeWhile_eq_self_iff.1 hwhole d (List.mem_reverse.2 hd)
    · intro h
      rw [List.takeWhile_eq_self_iff.2 fun d hd => h d (List.mem_reverse.1 hd)]
  unfold List.rtakeWhile
  rw [List.reverse_cons, List.takeWhile_append]
  simp only [hall]
  split
  · simp
  · rfl

/-- Another character takes nothing along. -/
theorem EndsEscaping.cons (hc : c ≠ '\\') (h : EndsEscaping cs) : EndsEscaping (c :: cs) := by
  unfold EndsEscaping at h ⊢
  rw [rtakeWhile_cons]
  split
  · rename_i hall
    rw [List.rtakeWhile_eq_self_iff.2 (List.all_eq_true.1 hall)] at h
    simpa [List.rtakeWhile, hc] using h
  · exact h

/-- A backslash takes one character along, which may be another backslash. -/
theorem EndsEscaping.pair (c : Char) (h : EndsEscaping cs) : EndsEscaping ('\\' :: c :: cs) := by
  by_cases hc : c = '\\'
  · subst hc
    unfold EndsEscaping at h ⊢
    rw [rtakeWhile_cons]
    by_cases hall : cs.all (fun d => decide (d = '\\')) = true
    · rw [List.rtakeWhile_eq_self_iff.2 (List.all_eq_true.1 hall)] at h
      rw [if_pos (by simpa using hall)]
      simpa [List.rtakeWhile, Nat.add_assoc] using h
    · rw [if_neg (by simpa using hall), rtakeWhile_cons, if_neg hall]
      exact h
  · have hcons := h.cons hc
    unfold EndsEscaping at hcons ⊢
    rw [rtakeWhile_cons, if_neg (by simp [hc])]
    exact hcons

/-- In a string that is not closed all quotes are escaped. -/
theorem escaped_of_stringBody? (hquote : quote ≠ '\\') (h : stringBody? quote cs = none) :
    ∀ body later, cs = body ++ quote :: later → EndsEscaping body := by
  fun_induction stringBody? quote cs with
  | case1 =>
    intro body later hsplit
    cases body <;> cases hsplit
  | case2 c cs ih =>
    intro body later hsplit
    have hnone := Option.map_eq_none_iff.1 h
    rcases body with _ | ⟨d, _ | ⟨d', body⟩⟩
    · exact absurd (List.cons.inj hsplit).1.symm hquote
    · obtain rfl := (List.cons.inj hsplit).1
      rfl
    · cases hsplit
      exact (ih hnone body later rfl).pair _
  | case3 => cases h
  | case4 c cs hescape hne ih =>
    intro body later hsplit
    have hnone := Option.map_eq_none_iff.1 h
    cases body with
    | nil => exact absurd (List.cons.inj hsplit).1 hne
    | cons d body =>
      cases hsplit
      refine (ih hnone body later rfl).cons ?_
      rintro rfl
      cases body with
      | nil => exact hescape _ _ rfl rfl
      | cons d body => exact hescape _ _ rfl rfl

/-- A comment that is not closed has no end mark. -/
theorem open_of_commentBody? (h : commentBody? cs = none) : ¬['*', '/'] <:+: cs := by
  fun_induction commentBody? cs with
  | case1 => simp
  | case2 => cases h
  | case3 c cs hmark ih =>
    intro hinfix
    rcases List.infix_cons_iff.1 hinfix with hfront | hlater
    · obtain ⟨rfl, after, rfl⟩ := List.cons_prefix_cons.1 hfront
      exact hmark _ rfl rfl
    · exact ih (Option.map_eq_none_iff.1 h) hlater

/-- A character that begins a symbol is a symbol by itself. -/
theorem begins_of_head? {mark : Symbol} (h : mark.spelling.toList.head? = some c) (cs : List Char) :
    ∃ single : Symbol, single.Begins (c :: cs) := by
  have hsingles : ∀ mark ∈ Symbol.table, ∃ single ∈ Symbol.table,
      single.spelling.toList = mark.spelling.toList.take 1 := by decide +kernel
  obtain ⟨single, -, hsingle⟩ := hsingles mark (Symbol.mem_table mark)
  obtain ⟨tail, htail⟩ := List.head?_eq_some_iff.1 h
  rw [htail] at hsingle
  refine ⟨single, cs, by rw [hsingle]; rfl, ?_⟩
  rintro (rfl | rfl) <;> cases hsingle

/-- Where no symbol is found, none begins with the character at hand. -/
theorem head?_of_symbol? (h : symbol? (c :: cs) = none) (mark : Symbol) :
    mark.spelling.toList.head? ≠ some c := by
  intro hhead
  obtain ⟨single, hsingle⟩ := begins_of_head? hhead cs
  have hnot := List.find?_eq_none.1 h single (Symbol.mem_table single)
  exact hnot (fits_iff.2 hsingle)

/-- No token goes on with a text. -/
structure Halts (z : List Char) : Prop where
  part : z.head?.any isNamePart = false
  quest : z.head? ≠ some '?'
  point : z.head? ≠ some '.'

/-- What is wrong where no lexeme is found. -/
theorem stands_of_error (h : lexeme ctx c cs = .error e) :
    ∃ marked behind, c :: cs = marked ++ behind ∧ e.span = ctx.span (Text.byteSize marked) ∧
      e.problem.Stands marked behind ∧ Halts (c :: cs) := by
  have hstring {quote : Char} {form : LiteralForm} (hquote : quote = '\x27' ∨ quote = '"')
      (h : stringLexeme ctx quote form cs = .error e) :
      ∃ marked behind, quote :: cs = marked ++ behind ∧ e.span = ctx.span (Text.byteSize marked) ∧
        e.problem.Stands marked behind ∧ Halts (quote :: cs) := by
    unfold stringLexeme at h
    split at h
    · cases h
    · rename_i hbody
      cases h
      refine ⟨quote :: cs, [], (List.append_nil _).symm, rfl, ⟨rfl, quote, cs, hquote, rfl, ?_⟩, ?_⟩
      · refine escaped_of_stringBody? ?_ hbody
        rcases hquote with rfl | rfl <;> decide
      · rcases hquote with rfl | rfl <;> exact ⟨rfl, by simp, by simp⟩
  rcases ordinary_cases c cs with rfl | rfl | rfl | ⟨body, rfl, rfl⟩ | ⟨body, rfl, rfl⟩ | hother
  · cases h
  · rw [lexeme_single] at h
    cases hname : lifetime? ctx cs with
    | some name =>
      rw [hname] at h
      cases h
    | none =>
      rw [hname] at h
      exact hstring (Or.inl rfl) h
  · exact hstring (Or.inr rfl) h
  · cases h
  · rw [lexeme_comment] at h
    split at h
    · cases h
    · rename_i hbody
      cases h
      exact ⟨['/', '*'], body, rfl, rfl, ⟨rfl, open_of_commentBody? hbody⟩, rfl, by simp, by simp⟩
  · rw [lexeme_ordinary hother] at h
    split at h
    · cases h
    · split at h
      · cases h
      · split at h
        · cases h
        · split at h
          · cases h
          · rename_i hblank hnumber hname _ hsymbol
            cases h
            have hdigit : c.isDigit = false := by simp_all
            have hpart : isNamePart c = false := by
              simp_all [isNameStart, isNamePart, Char.isAlphanum]
            have hnot := head?_of_symbol? hsymbol
            refine ⟨[c], cs, rfl, rfl, ⟨rfl, ?_⟩, hpart, ?_, ?_⟩
            · exact ⟨hother.line, Bool.eq_false_iff.2 hblank,
                ⟨hother.single, hother.double⟩, hdigit, Bool.eq_false_iff.2 hname, hnot⟩
            · exact fun hquest => hnot .quest hquest.symm
            · exact fun hpoint => hnot .dot hpoint.symm

/-- A symbol is not changed where the text behind it is cut off. -/
theorem symbol?_cut {mark : Symbol} (hz : z.head?.any isNamePart = false)
    (h : symbol? (cs ++ z) = some mark) (hwithin : mark.spelling.toList <+: cs) :
    symbol? cs = some mark := by
  have hbegins {other : Symbol} (hother : other.Begins cs) : other.Begins (cs ++ z) := by
    obtain ⟨behind, rfl, hword⟩ := hother
    refine ⟨behind ++ z, List.append_assoc _ _ _, fun hmark => ?_⟩
    cases behind with
    | nil => exact hz
    | cons d behind => exact hword hmark
  unfold symbol? at h ⊢
  rw [List.find?_eq_some_iff_append] at h ⊢
  obtain ⟨hmark, before, after, htable, hbefore⟩ := h
  refine ⟨fits_iff.2 ?_, before, after, htable, fun other hother => ?_⟩
  · obtain ⟨behind, hsplit, hword⟩ := fits_iff.1 hmark
    obtain ⟨behind', rfl⟩ := hwithin
    refine ⟨behind', rfl, fun hwords => ?_⟩
    rw [List.append_assoc] at hsplit
    obtain rfl := List.append_cancel_left hsplit
    cases behind' with
    | nil => rfl
    | cons d behind' => exact hword hwords
  · have hnot := hbefore other hother
    rw [Bool.not_eq_true'] at hnot ⊢
    refine Bool.eq_false_iff.2 fun hfits => ?_
    rw [fits_iff.2 (hbegins (fits_iff.1 hfits))] at hnot
    cases hnot

/-- The name of a lifetime is not changed where the text behind it is cut off. -/
theorem lifetime?_cut (hz : z.head?.any isNamePart = false) {name : List Char}
    (h : lifetime? ctx (cs ++ z) = some name) : lifetime? ctx cs = some name := by
  obtain ⟨htake, hdrop⟩ := takeWhile_append_stops hz cs
  unfold lifetime? at h ⊢
  dsimp only at h ⊢
  split at h
  · rename_i hlist
    obtain ⟨hangles, hstart, hfirst, hquote⟩ := hlist
    rw [htake] at h
    rw [hdrop] at hquote
    refine (if_pos ⟨hangles, hstart, ?_, ?_⟩).trans h
    · cases cs with
      | nil =>
        -- The name would begin behind the cut.
        exfalso
        cases z with
        | nil => cases hfirst
        | cons d z =>
          have hd : isNameStart d = true := by simpa using hfirst
          have hpart : isNamePart d = false := by simpa using hz
          rw [isNamePart_of_isNameStart hd] at hpart
          cases hpart
      | cons d cs => exact hfirst
    · intro hhead
      rw [List.head?_append, hhead] at hquote
      exact hquote rfl
  · cases h

/-- The body of a block comment is found again by itself. -/
theorem commentBody?_self {chars : List Char} (h : commentBody? cs = some chars) :
    commentBody? chars = some chars := by
  fun_induction commentBody? cs generalizing chars with
  | case1 => cases h
  | case2 =>
    cases h
    rfl
  | case3 c cs hmark ih =>
    obtain ⟨inner, hinner, rfl⟩ := Option.map_eq_some_iff.1 h
    obtain ⟨-, rest, -, rfl, -⟩ := commentBody?_append hinner
    rw [commentBody?, ih hinner]
    · rfl
    · rintro later rfl rfl
      exact hmark _ rfl rfl

/-- A run of characters of one class that ends in front of a cut. -/
theorem takeWhile_cut {p : Char → Bool} (h : (cs ++ z).takeWhile p <+: cs) :
    (cs ++ z).takeWhile p = cs.takeWhile p := by
  rw [List.takeWhile_append] at h ⊢
  split
  · rename_i hwhole
    rw [if_pos hwhole] at h
    have hlength := h.length_le
    rw [List.length_append] at hlength
    rw [List.length_eq_zero_iff.1 (Nat.le_zero.1 (by omega : (z.takeWhile p).length ≤ 0)),
      List.append_nil, (List.takeWhile_prefix p).eq_of_length hwhole]
  · rfl

/-- A string in front of a cut is closed there. -/
theorem closed_cut {body : List Char} (hchars : l.chars = quote :: (body ++ [quote]))
    (hwithin : l.chars <+: quote :: cs) : ∃ rest, cs = body ++ quote :: rest := by
  rw [hchars] at hwithin
  obtain ⟨rest, rfl⟩ := (List.cons_prefix_cons.1 hwithin).2
  exact ⟨rest, by simp⟩

/-- A lexeme is found again where the text is cut off behind it, in front of a character that no
token goes on with. -/
theorem lexeme_cut (hz : Halts z) (h : lexeme ctx c (cs ++ z) = .ok l)
    (hwithin : l.chars <+: c :: cs) : lexeme ctx c cs = .ok l := by
  have hhead {d : Char} (hd : cs.head? = some d) : (cs ++ z).head? = some d := by
    rw [List.head?_append, hd, Option.some_or]
  rcases ordinary_cases c (cs ++ z) with
    rfl | rfl | rfl | ⟨body, rfl, hcs⟩ | ⟨body, rfl, hcs⟩ | hother
  · exact h
  · -- A lifetime goes on up to the cut, a string is closed in front of it.
    rw [lexeme_single] at h ⊢
    cases hname : lifetime? ctx (cs ++ z) with
    | some name =>
      rw [hname] at h
      rwa [lifetime?_cut hz.part hname]
    | none =>
      rw [hname] at h
      obtain ⟨body, rest, hsplit, hchars, hstring⟩ := stringLexeme_of_append ctx (by decide) h
      obtain ⟨rest', rfl⟩ := closed_cut hchars hwithin
      have hnone := lifetime?_before_quote ctx body rest rest'
      rw [← hsplit, hname] at hnone
      rw [Option.isNone_iff_eq_none.1 (Option.isSome_eq_false_iff.1 hnone.symm)]
      exact hstring rest'
  · obtain ⟨body, rest, -, hchars, hstring⟩ := stringLexeme_of_append ctx (by decide) h
    obtain ⟨rest', rfl⟩ := closed_cut hchars hwithin
    exact hstring rest'
  · -- Both marks of a comment stand in front of the cut, as the lexeme does.
    rw [hcs] at h
    cases h
    obtain ⟨cs, rfl⟩ : ∃ cs', cs = '/' :: cs' := by
      obtain ⟨rest, hrest⟩ := (List.cons_prefix_cons.1 hwithin).2
      exact ⟨_, hrest.symm⟩
    obtain rfl : cs ++ z = body := (List.cons.inj hcs).2
    have hline := (List.cons_prefix_cons.1 (List.cons_prefix_cons.1 hwithin).2).2
    rw [takeWhile_cut hline]
    rfl
  · rw [hcs, lexeme_comment] at h
    split at h
    · rename_i chars hbody
      cases h
      obtain ⟨rest, rfl⟩ := (List.cons_prefix_cons.1 hwithin).2
      have hself := commentBody?_append_of_some (commentBody?_self hbody) rest
      rw [List.cons_append, lexeme_comment, hself]
    · cases h
  · rw [lexeme_ordinary hother] at h
    rw [lexeme_ordinary (hother.of_head? fun d _ => hhead)]
    have hnumber : number (c :: (cs ++ z)) = number (c :: cs) :=
      number_append_stops hz.part hz.point (List.cons_ne_nil c cs)
    have hword : word (c :: (cs ++ z)) = word (c :: cs) :=
      word_append_stops hz.part hz.quest (c :: cs)
    have hfraction : (cs ++ z).head?.any Char.isDigit = cs.head?.any Char.isDigit := by
      cases cs with
      | nil => exact stops_of_isNamePart hz.part fun hd => by simp [isNamePart, Char.isAlphanum, hd]
      | cons d cs => rfl
    rw [hnumber, hword, hfraction] at h
    split at h
    · rwa [if_pos ‹_›]
    · rw [if_neg ‹_›]
      split at h
      · rwa [if_pos ‹_›]
      · rw [if_neg ‹_›]
        split at h
        · rwa [if_pos ‹_›]
        · rw [if_neg ‹_›]
          split at h
          · rename_i mark hmark
            cases h
            have hsame : symbol? (c :: cs) = some mark := symbol?_cut hz.part hmark hwithin
            rw [hsame]
          · cases h

/-- A scan that fails reaches a place where no lexeme is found. What is in front of that place can
be scanned by itself, by induction from the failing place back: the text behind each lexeme goes on
with what comes up to that place. -/
theorem scan_error (h : scan 0 ctx cs = .error e) : ∃ front c zs ctx',
    cs = front ++ c :: zs ∧ ctx'.file = ctx.file ∧ ctx'.pos = ctx.pos + Text.byteSize front ∧
    lexeme ctx' c zs = .error e ∧ ∃ tokens starts, Scans ctx front tokens starts := by
  generalize hlen : cs.length = n
  induction n using Nat.strongRecOn generalizing ctx cs with
  | _ n ih =>
    cases cs with
    | nil => cases h
    | cons c cs =>
      cases hl : lexeme ctx c cs with
      | error e' =>
        unfold scan at h
        rw [hl] at h
        cases h
        exact ⟨[], c, cs, ctx, rfl, rfl, rfl, hl, _, _, .done ctx⟩
      | ok l =>
        obtain ⟨rest, hrest, hopens⟩ := lexeme_opens hl
        have hshort : rest.length < n := hlen ▸ hopens.shorter hrest
        rw [scan_lexeme hl hrest hopens.some_chars] at h
        cases hscan : scan 0 (ctx.after l) rest with
        | ok r =>
          rw [hscan] at h
          cases h
        | error e' =>
          rw [hscan] at h
          cases h
          obtain ⟨front, d, zs, ctx', rfl, hfile, hpos, herror, tokens, starts, hscans⟩ :=
            ih rest.length hshort hscan rfl
          obtain ⟨hafterFile, hafterPos⟩ := ctx.after_place l
          obtain ⟨-, -, -, -, -, hhalts⟩ := stands_of_error herror
          obtain ⟨c', tail, hchars⟩ := List.exists_cons_of_ne_nil hopens.some_chars
          rw [hchars] at hrest
          obtain ⟨rfl, rfl⟩ := List.cons.inj hrest
          have hfound : lexeme ctx c (tail ++ front) = .ok l := by
            refine lexeme_cut hhalts ?_ (hchars ▸ List.prefix_append (c :: tail) front)
            rwa [List.append_assoc]
          have hfront : c :: (tail ++ front) = l.chars ++ front := by rw [hchars, List.cons_append]
          refine ⟨c :: (tail ++ front), d, zs, ctx', by simp, hfile.trans hafterFile, ?_,
            herror, _, _, .step hfound hfront hscans⟩
          rw [hpos, hafterPos, hfront, Text.byteSize_append, Nat.add_assoc]

end Lexer

/-- **The first problem.** The error of a text that cannot be scanned lies in the text: some
characters are marked, at the place and with the number of bytes of its span. The text in front of
them can be scanned by itself, and what is marked is the problem that is reported. -/
theorem lex_first_problem {file : FileId} {text : String} {e : LexError}
    (h : lex file text = .error e) : ∃ before marked behind,
    text.toList = before ++ (marked ++ behind) ∧
    e.span = ⟨Text.byteSize before, Text.byteSize marked, file⟩ ∧
    (∃ lexed, lex file (String.ofList before) = .ok lexed) ∧ e.problem.Stands marked behind := by
  have hscan : Lexer.scan 0 (.start file) text.toList = .error e := by
    unfold lex at h
    cases hscan : Lexer.scan 0 (.start file) text.toList with
    | ok r =>
      rw [hscan] at h
      cases h
    | error e' =>
      rw [hscan] at h
      cases h
      rfl
  obtain ⟨front, c, zs, ctx', htext, hfile, hpos, herror, tokens, starts, hscans⟩ :=
    Lexer.scan_error hscan
  obtain ⟨marked, behind, hsplit, hspan, hstands, -⟩ := Lexer.stands_of_error herror
  refine ⟨front, marked, behind, htext.trans (congrArg (front ++ ·) hsplit), ?_,
    ⟨_, lex_of_scans (by rwa [String.toList_ofList])⟩, hstands⟩
  rw [hspan, Lexer.Context.span, hfile, hpos]
  exact congrArg (Span.mk · _ _) (Nat.zero_add _)

/-- A string that is not closed right behind a lifetime, with an escaped quote and an escaped
backslash. -/
theorem lex_first_problem_escaped :
    lex ⟨0⟩ "/*é*/f<'a\"\\\"\\\\" = .error ⟨.unterminatedString, ⟨10, 5, ⟨0⟩⟩⟩ ∧
    ∃ before marked behind,
      "/*é*/f<'a\"\\\"\\\\".toList = before ++ (marked ++ behind) ∧
      (⟨10, 5, ⟨0⟩⟩ : Span) = ⟨Text.byteSize before, Text.byteSize marked, ⟨0⟩⟩ ∧
      (∃ lexed, lex ⟨0⟩ (String.ofList before) = .ok lexed) ∧
      LexProblem.unterminatedString.Stands marked behind :=
  have hlex : lex ⟨0⟩ "/*é*/f<'a\"\\\"\\\\" =
      .error ⟨.unterminatedString, ⟨10, 5, ⟨0⟩⟩⟩ := rfl
  ⟨hlex, lex_first_problem hlex⟩

end FrontEnd
