import FrontEnd.Proofs.Rescanning
import Mathlib.Data.List.Chain

/-!
# Tokens that are written out

Tokens are written one after the other, with blanks behind some of them. Where each token ends in
front of the first character of the next one, the scanner finds them all again. Only closing angle
brackets that stand side by side are taken together, two at a time, for one token.
-/

namespace FrontEnd

/-- The characters by which a longer symbol goes on with a symbol. -/
def Symbol.nextChars (mark : Symbol) : List Char :=
  table.filterMap fun longer =>
    if mark.spelling.toList.isPrefixOf longer.spelling.toList then
      (longer.spelling.toList.drop mark.spelling.toList.length).head?
    else none

/-- Symbols that are neither taken for a comment or a number nor depend on the word behind them. -/
def Symbol.isPlain (mark : Symbol) : Bool :=
  mark ≠ .notIs ∧ mark ≠ .notIn ∧ mark.spelling.toList.head? ≠ some '/' ∧
    mark.spelling.toList.head? ≠ some '.'

/-- Whether the characters are a name. -/
def Lexer.isName (cs : List Char) : Bool := cs.head?.any isNameStart && cs.tail.all isNamePart

/-- Whether the characters are one number of some form. -/
def Lexer.IsNumber (form : LiteralForm) (cs : List Char) : Prop :=
  number cs = (form, cs) ∧ ∃ c tail, cs = c :: tail ∧ StartsNumber c tail

/-- Kinds whose text is one token. -/
def TokenKind.Legible : TokenKind → Prop
  | .eof => False
  | .newline => True
  | .ident name => Lexer.isName name.toList = true ∧ Keyword.ofWord? name = none
  | .lifetime name => Lexer.isName name.toList = true
  | .keyword word => word ≠ .asSafe
  | .literal .single body => Lexer.stringBody? '\x27' (body.toList ++ ['\x27']) = some body.toList
  | .literal .double body => Lexer.stringBody? '"' (body.toList ++ ['"']) = some body.toList
  | .literal form lexeme => Lexer.IsNumber form lexeme.toList
  | .symbol mark => mark.isPlain = true

/-- Whether a token ends where some character follows. -/
def TokenKind.endsBefore : TokenKind → Char → Bool
  | .literal .single _, _ | .literal .double _, _ | .newline, _ => true
  | .literal _ _, c => !Lexer.isNamePart c && c != '.'
  | .ident _, c | .keyword _, c => !Lexer.isNamePart c && c != '?'
  | .lifetime _, c => !Lexer.isNamePart c && c != '\x27'
  | .symbol mark, c => !mark.nextChars.contains c
  | .eof, _ => false

/-- A token that is written, and whether a blank stands behind it. -/
structure Piece where
  /-- What is written. -/
  kind : TokenKind
  /-- Whether a blank follows. -/
  blank : Bool

namespace Piece

/-- The characters of the token and of the blank. -/
def chars (p : Piece) : List Char := p.kind.source ++ if p.blank then [' '] else []

/-- Whether the token ends in front of a text. -/
def StopsAt (p : Piece) (z : List Char) : Prop :=
  p.blank = true ∨ z.head?.all p.kind.endsBefore = true

/-- A piece may stand behind another one if the token of that ends there, and a closing angle
bracket may stand behind another one. -/
def Before (p q : Piece) : Prop :=
  p.StopsAt q.kind.source ∨ p.kind = .symbol .rAngle ∧ q.kind = .symbol .rAngle

end Piece

/-- The text of some pieces. -/
def written (ps : List Piece) : List Char := ps.flatMap Piece.chars

/-- The kinds of the tokens found in that text. -/
def fused : List Piece → List TokenKind
  | ⟨.symbol .rAngle, false⟩ :: ⟨.symbol .rAngle, _⟩ :: ps => .symbol .shr :: fused ps
  | p :: ps => p.kind :: fused ps
  | [] => []

namespace Lexer

/-- Whether a lifetime may stand behind a token. -/
def startsList : TokenKind → Bool
  | .symbol .lAngle | .symbol .comma => true
  | _ => false

/-- What tells a lifetime from a string. -/
structure Place where
  /-- Angle brackets that are open on the line. -/
  angles : Nat
  /-- Whether the token in front is an opening angle bracket or a comma. -/
  listStart : Bool

namespace Place

/-- The place behind a token. -/
def after (p : Place) (k : TokenKind) : Place := ⟨Context.anglesAfter p.angles k, startsList k⟩

/-- The place behind some pieces. -/
def passing (p : Place) (ps : List Piece) : Place := ps.foldl (fun p q => p.after q.kind) p

/-- Lifetimes stand at the elements of a list in angle brackets, and strings in single quotes do
not. -/
def Admits (p : Place) : TokenKind → Prop
  | .lifetime _ => 0 < p.angles ∧ p.listStart = true
  | .literal .single _ => p.angles = 0 ∨ p.listStart = false
  | _ => True

/-- All pieces stand where they may. -/
def AdmitsAll : Place → List Piece → Prop
  | _, [] => True
  | p, q :: qs => p.Admits q.kind ∧ (p.after q.kind).AdmitsAll qs

variable {p : Place} {ps qs : List Piece}

theorem passing_append : p.passing (ps ++ qs) = (p.passing ps).passing qs := List.foldl_append

theorem admitsAll_append :
    p.AdmitsAll (ps ++ qs) ↔ p.AdmitsAll ps ∧ (p.passing ps).AdmitsAll qs := by
  induction ps generalizing p with
  | nil => simp [AdmitsAll, passing]
  | cons q ps ih =>
    have hpassing : p.passing (q :: ps) = (p.after q.kind).passing ps := rfl
    simp only [List.cons_append, AdmitsAll, hpassing, ih, and_assoc]

end Place

/-- The place at which the scanner is. -/
def Context.place (ctx : Context) : Place := ⟨ctx.openAngles, ctx.last?.any startsList⟩

variable {ctx ctx' : Context} {c : Char} {cs z : List Char}

theorem startsList_iff {k? : Option TokenKind} : k?.any startsList = true ↔
    k? = some (.symbol .lAngle) ∨ k? = some (.symbol .comma) := by
  constructor
  · intro h
    cases k? with
    | none => cases h
    | some k =>
      change startsList k = true at h
      unfold startsList at h
      split at h
      · exact Or.inl rfl
      · exact Or.inr rfl
      · cases h
  · rintro (rfl | rfl) <;> rfl

/-- Nothing else matters for what is found next. -/
theorem Context.alike_of_place (h : ctx.place = ctx'.place) : ctx.Alike ctx' where
  openAngles := congrArg Place.angles h
  listStart := by
    have hstart : ctx.last?.any startsList = ctx'.last?.any startsList := congrArg Place.listStart h
    rw [← startsList_iff, ← startsList_iff, hstart]

/-- The symbol at the start of a text is the one that is written there, if no longer one goes on. -/
theorem symbol?_append {mark : Symbol} (hplain : mark.isPlain = true)
    (hz : ∀ c ∈ z.head?, c ∉ mark.nextChars) : symbol? (mark.spelling.toList ++ z) = some mark := by
  simp only [Symbol.isPlain, decide_eq_true_eq] at hplain
  obtain ⟨before, after, htable⟩ := List.append_of_mem (Symbol.mem_table mark)
  have hfits : fits (mark.spelling.toList ++ z) mark = true := by
    unfold fits
    dsimp only
    rw [List.isPrefixOf_iff_prefix.2 (List.prefix_append _ _),
      if_neg (not_or.2 ⟨hplain.1, hplain.2.1⟩)]
    rfl
  have hlonger := Symbol.table_longest_first
  have hdistinct := table_distinct
  rw [htable, List.pairwise_append] at hlonger hdistinct
  unfold symbol?
  rw [List.find?_eq_some_iff_append]
  refine ⟨hfits, before, after, htable, fun other hother => ?_⟩
  have hlength := hlonger.2.2 other hother mark List.mem_cons_self
  have hspelling := hdistinct.2.2 other hother mark List.mem_cons_self
  rw [← String.length_toList, ← String.length_toList] at hlength
  rw [Bool.not_eq_true']
  refine Bool.eq_false_iff.2 fun hfits' => hspelling (String.toList_inj.1 ?_)
  simp only [fits, Bool.and_eq_true, List.isPrefixOf_iff_prefix] at hfits'
  rcases List.prefix_or_prefix_of_prefix hfits'.1 (List.prefix_append _ z) with hshort | hlong
  · exact hshort.eq_of_length_le hlength
  · -- A longer symbol would go on with the first character behind the mark.
    obtain ⟨tail, htail⟩ := hlong
    cases tail with
    | nil => rw [← htail, List.append_nil]
    | cons c tail =>
      exfalso
      have hbehind : c :: tail <+: z := by
        have hprefix := hfits'.1
        rw [← htail] at hprefix
        exact (List.prefix_append_right_inj _).1 hprefix
      obtain ⟨later, rfl⟩ := hbehind
      refine hz c rfl (List.mem_filterMap.2 ⟨other, Symbol.mem_table other, ?_⟩)
      rw [← htail, if_pos (List.isPrefixOf_iff_prefix.2 (List.prefix_append _ _)), List.drop_left]
      rfl

/-- Plain symbols begin with none of the characters that other lexemes begin with. -/
theorem plain_opens {mark : Symbol} (hplain : mark.isPlain = true) :
    ∃ c tail, mark.spelling.toList = c :: tail ∧ c ≠ '\n' ∧ c ≠ '\x27' ∧ c ≠ '"' ∧ c ≠ '/' ∧
      c ≠ '.' ∧ isBlank c = false ∧ c.isDigit = false ∧ isNameStart c = false := by
  cases mark
  all_goals first
    | exact ⟨_, _, rfl, by decide⟩
    | cases hplain

/-- Names begin with none of them either. -/
theorem isNameStart_opens (h : isNameStart c = true) :
    c ≠ '\n' ∧ c ≠ '\x27' ∧ c ≠ '"' ∧ c ≠ '/' ∧ c ≠ '.' ∧ isBlank c = false ∧
      c.isDigit = false := by
  refine ⟨?_, ?_, ?_, ?_, ?_, ?_, ?_⟩
  · rintro rfl; cases h
  · rintro rfl; cases h
  · rintro rfl; cases h
  · rintro rfl; cases h
  · rintro rfl; cases h
  · refine Bool.eq_false_iff.2 fun hblank => ?_
    simp only [isBlank, Bool.or_eq_true, beq_iff_eq] at hblank
    rcases hblank with (rfl | rfl) | rfl <;> cases h
  · refine Bool.eq_false_iff.2 fun hdigit => ?_
    delta isNameStart Char.isAlpha Char.isUpper Char.isLower at h
    simp only [Char.isDigit, Bool.or_eq_true, Bool.and_eq_true, beq_iff_eq, decide_eq_true_eq,
      UInt32.le_iff_toNat_le, ge_iff_le, Char.ext_iff, ← UInt32.toNat_inj] at h hdigit
    simp at h hdigit
    omega

/-- A name is as long as its parts go on. -/
theorem isName_takeWhile (h : isName cs = true) :
    cs.takeWhile isNamePart = cs ∧ cs.dropWhile isNamePart = [] := by
  have hall : ∀ c ∈ cs, isNamePart c = true := by
    cases cs with
    | nil => nofun
    | cons c cs =>
      simp only [isName, List.head?_cons, Option.any_some, List.tail_cons, Bool.and_eq_true,
        List.all_eq_true] at h
      intro d hd
      rcases List.mem_cons.1 hd with rfl | hd
      · exact isNamePart_of_isNameStart h.1
      · exact h.2 d hd
  have htake : (cs ++ []).takeWhile isNamePart = cs ++ [] := List.takeWhile_append_of_pos hall
  have hdrop : (cs ++ []).dropWhile isNamePart = [] := List.dropWhile_append_of_pos hall
  rw [List.append_nil] at htake hdrop
  exact ⟨htake, hdrop⟩

/-- The lexeme of a word. -/
theorem lexeme_word (h : isNameStart c = true) (ctx : Context) (cs : List Char) :
    lexeme ctx c cs = .ok (word (c :: cs)) := by
  obtain ⟨hline, hsingle, hdouble, hslash, hpoint, hblank, hdigit⟩ := isNameStart_opens h
  rw [lexeme_ordinary ⟨hline, hsingle, hdouble, fun hc => absurd hc hslash⟩, hblank, hdigit, h]
  simp [hpoint]

/-- The lexeme of a word in front of which no name goes on. -/
theorem lexeme_name {k : TokenKind} (h : isName k.source = true)
    (hk : word k.source = ⟨some k, k.source⟩) (hpart : z.head?.any isNamePart = false)
    (hquest : z.head? ≠ some '?') :
    ∃ c tail, k.source = c :: tail ∧ lexeme ctx c (tail ++ z) = .ok ⟨some k, k.source⟩ := by
  generalize hsource : k.source = cs at h hk
  cases cs with
  | nil => cases h
  | cons c tail =>
    have hstart : isNameStart c = true := by
      simp only [isName, Bool.and_eq_true] at h
      exact h.1
    refine ⟨c, tail, rfl, ?_⟩
    rw [lexeme_word hstart, ← List.cons_append, word_append_stops hpart hquest, hk]

/-- The lexeme of a number. -/
theorem lexeme_number (ctx : Context) {form : LiteralForm} (h : IsNumber form cs)
    (hpart : z.head?.any isNamePart = false) (hpoint : z.head? ≠ some '.') :
    ∃ c tail, cs = c :: tail ∧
      lexeme ctx c (tail ++ z) = .ok ⟨some (.literal form (String.ofList cs)), cs⟩ := by
  obtain ⟨hnumber, c, tail, rfl, hstarts⟩ := h
  have hstarts' : (c.isDigit || (c == '.' && (tail ++ z).head?.any Char.isDigit)) = true := by
    rcases hstarts with hdigit | ⟨rfl, hnext⟩
    · rw [hdigit, Bool.true_or]
    · cases tail with
      | nil => cases hnext
      | cons d tail => simpa using hnext
  have hopens : c ≠ '\n' ∧ c ≠ '\x27' ∧ c ≠ '"' ∧ c ≠ '/' ∧ isBlank c = false := by
    refine ⟨?_, ?_, ?_, ?_, Bool.eq_false_iff.2 fun hblank => ?_⟩
    · rintro rfl; simp at hstarts'
    · rintro rfl; simp at hstarts'
    · rintro rfl; simp at hstarts'
    · rintro rfl; simp at hstarts'
    · simp only [isBlank, Bool.or_eq_true, beq_iff_eq] at hblank
      rcases hblank with (rfl | rfl) | rfl <;> simp at hstarts'
  obtain ⟨hline, hsingle, hdouble, hslash, hblank⟩ := hopens
  refine ⟨c, tail, rfl, ?_⟩
  rw [lexeme_ordinary ⟨hline, hsingle, hdouble, fun hc => absurd hc hslash⟩, hblank,
    ← List.cons_append, number_append_stops hpart hpoint (List.cons_ne_nil _ _), hnumber]
  simp only [Bool.false_eq_true, if_false]
  rw [if_pos hstarts']

/-- A word that is a name. -/
theorem word_name (h : isName cs = true) :
    word cs = match Keyword.ofWord? (String.ofList cs) with
      | some k => ⟨some (.keyword k), cs⟩
      | none => ⟨some (.ident (String.ofList cs)), cs⟩ := by
  obtain ⟨htake, hdrop⟩ := isName_takeWhile h
  unfold word
  dsimp only
  rw [htake, hdrop]
  exact if_neg fun hsafe => nomatch hsafe.2

/-- Keywords but for the safe cast are words. -/
theorem keyword_word {k : Keyword} (h : k ≠ .asSafe) :
    isName k.spelling.toList = true ∧ Keyword.ofWord? k.spelling = some k := by
  cases k
  all_goals first
    | exact absurd rfl h
    | exact ⟨by decide, by decide⟩

/-- A string is written with its quotes. -/
theorem stringLexeme_body {quote : Char} (hquote : quote ≠ '\\') {body : String}
    (h : stringBody? quote (body.toList ++ [quote]) = some body.toList) (ctx : Context)
    (form : LiteralForm) (z : List Char) :
    stringLexeme ctx quote form (body.toList ++ quote :: z) =
      .ok ⟨some (.literal form body), quote :: (body.toList ++ [quote])⟩ := by
  unfold stringLexeme
  rw [stringBody?_of_append hquote h z]
  dsimp only
  rw [String.ofList_toList]
  rfl

/-- Outside of lists in angle brackets a quote begins a string. -/
theorem lifetime?_outside (h : ctx.place.angles = 0 ∨ ctx.place.listStart = false)
    (cs : List Char) : lifetime? ctx cs = none := by
  unfold lifetime?
  dsimp only
  refine if_neg fun hlist => ?_
  rcases h with hangles | hstart
  · exact absurd hlist.1 (Nat.not_lt.2 (Nat.le_of_eq hangles))
  · exact Bool.false_ne_true (hstart.symm.trans (startsList_iff.2 hlist.2.1))

/-- At the elements of such a list it begins a lifetime. -/
theorem lifetime?_name (h : isName cs = true) (hangles : 0 < ctx.place.angles)
    (hstart : ctx.place.listStart = true) (hpart : z.head?.any isNamePart = false)
    (hquote : z.head? ≠ some '\x27') : lifetime? ctx (cs ++ z) = some cs := by
  obtain ⟨htake, hdrop⟩ := takeWhile_append_stops hpart cs
  obtain ⟨hself, hnone⟩ := isName_takeWhile h
  rw [hself] at htake
  rw [hnone, List.nil_append] at hdrop
  have hhead : (cs ++ z).head?.any isNameStart = true := by
    cases cs with
    | nil => cases h
    | cons c cs =>
      simp only [isName, Bool.and_eq_true] at h
      exact h.1
  unfold lifetime?
  dsimp only
  rw [htake, hdrop, if_pos ⟨hangles, startsList_iff.1 hstart, hhead, hquote⟩]

/-- What stands behind a word or a number does not go on with it. -/
theorem stops_of_all {other : Char}
    (h : z.head?.all (fun c => !isNamePart c && c != other) = true) :
    z.head?.any isNamePart = false ∧ z.head? ≠ some other := by
  cases z with
  | nil => exact ⟨rfl, nofun⟩
  | cons c z => simpa using h

/-- A token whose text is written is found again. -/
theorem lexeme_legible {k : TokenKind} (hk : k.Legible) (hplace : ctx.place.Admits k)
    (hz : z.head?.all k.endsBefore = true) :
    ∃ c tail, k.source = c :: tail ∧ lexeme ctx c (tail ++ z) = .ok ⟨some k, k.source⟩ := by
  cases k with
  | eof => exact hk.elim
  | newline => exact ⟨'\n', [], rfl, rfl⟩
  | ident name =>
    obtain ⟨hpart, hquest⟩ := stops_of_all hz
    refine lexeme_name (k := .ident name) hk.1 ?_ hpart hquest
    change word name.toList = _
    rw [word_name hk.1, String.ofList_toList, hk.2]
    rfl
  | keyword k =>
    obtain ⟨hpart, hquest⟩ := stops_of_all hz
    obtain ⟨hname, hword⟩ := keyword_word hk
    refine lexeme_name (k := .keyword k) hname ?_ hpart hquest
    change word k.spelling.toList = _
    rw [word_name hname, String.ofList_toList, hword]
    rfl
  | lifetime name =>
    obtain ⟨hpart, hquote⟩ := stops_of_all hz
    have hsource : (TokenKind.lifetime name).source = '\x27' :: name.toList := by
      simp [TokenKind.source, TokenKind.text]
    refine ⟨'\x27', name.toList, hsource, ?_⟩
    rw [lexeme_single, lifetime?_name hk hplace.1 hplace.2 hpart hquote, hsource]
    dsimp only
    rw [String.ofList_toList]
  | symbol mark =>
    obtain ⟨c, tail, hmark, hline, hsingle, hdouble, hslash, hpoint, hblank, hdigit, hstart⟩ :=
      plain_opens hk
    refine ⟨c, tail, hmark, ?_⟩
    have hnext : ∀ d ∈ z.head?, d ∉ mark.nextChars := by
      intro d hd
      rw [hd] at hz
      simpa [TokenKind.endsBefore] using hz
    rw [lexeme_ordinary ⟨hline, hsingle, hdouble, fun hc => absurd hc hslash⟩, hblank, hdigit,
      hstart, ← List.cons_append, ← hmark, symbol?_append hk hnext]
    simp [hpoint, TokenKind.source, TokenKind.text]
  | literal form lexeme =>
    cases form with
    | single =>
      have hsource : (TokenKind.literal .single lexeme).source =
          '\x27' :: (lexeme.toList ++ ['\x27']) := by simp [TokenKind.source, TokenKind.text]
      refine ⟨'\x27', lexeme.toList ++ ['\x27'], hsource, ?_⟩
      rw [lexeme_single, lifetime?_outside hplace, List.append_assoc, hsource]
      exact stringLexeme_body (by decide) hk ctx .single z
    | double =>
      have hsource : (TokenKind.literal .double lexeme).source =
          '"' :: (lexeme.toList ++ ['"']) := by simp [TokenKind.source, TokenKind.text]
      refine ⟨'"', lexeme.toList ++ ['"'], hsource, ?_⟩
      rw [List.append_assoc, hsource]
      exact stringLexeme_body (by decide) hk ctx .double z
    | _ =>
      obtain ⟨hpart, hpoint⟩ := stops_of_all hz
      obtain ⟨c, tail, hcs, hlexeme⟩ := lexeme_number ctx hk hpart hpoint
      refine ⟨c, tail, hcs, hlexeme.trans ?_⟩
      rw [String.ofList_toList]
      rfl

/-- A blank ends every token. -/
theorem endsBefore_blank {k : TokenKind} (hk : k.Legible) : k.endsBefore ' ' = true := by
  cases k with
  | eof => exact hk.elim
  | literal form _ => cases form <;> rfl
  | symbol mark => cases mark <;> decide
  | _ => rfl

/-- It has at least one character. -/
theorem source_ne_nil {k : TokenKind} (hk : k.Legible) : k.source ≠ [] := by
  cases k with
  | eof => exact hk.elim
  | newline => exact List.cons_ne_nil _ _
  | ident name =>
    intro h
    have hname := hk.1
    rw [show name.toList = [] from h] at hname
    cases hname
  | lifetime name => simp [TokenKind.source, TokenKind.text]
  | keyword k => cases k <;> decide
  | symbol mark => exact spelling_ne_nil mark
  | literal form lexeme =>
    cases form with
    | single => simp [TokenKind.source, TokenKind.text]
    | double => simp [TokenKind.source, TokenKind.text]
    | _ =>
      obtain ⟨-, c, tail, hcs, -⟩ := hk
      change lexeme.toList ≠ []
      rw [hcs]
      exact List.cons_ne_nil _ _

/-- In front of a scanned text a token is scanned. -/
theorem Scans.token {k : TokenKind} {tokens : List Token} {starts : List Nat} (hk : k.Legible)
    (hplace : ctx.place.Admits k) (hz : z.head?.all k.endsBefore = true)
    (hs : Scans (ctx.after ⟨some k, k.source⟩) z tokens starts) : ∃ starts',
      Scans ctx (k.source ++ z) (⟨k, ctx.span (Text.byteSize k.source)⟩ :: tokens) starts' := by
  obtain ⟨c, tail, hsource, hlexeme⟩ := lexeme_legible hk hplace hz
  have hrest : c :: (tail ++ z) = k.source ++ z := by rw [hsource, List.cons_append]
  rw [← hrest]
  exact ⟨_, .step hlexeme hrest hs⟩

/-- The state behind a token and the blank that may follow it. -/
def Context.past (ctx : Context) (k : TokenKind) (blank : Bool) : Context :=
  let moved := ctx.after ⟨some k, k.source⟩
  if blank then moved.after ⟨none, [' ']⟩ else moved

theorem Context.past_place (ctx : Context) (k : TokenKind) (blank : Bool) :
    (ctx.past k blank).place = ctx.place.after k := by
  cases blank <;> rfl

theorem Context.past_file (ctx : Context) (k : TokenKind) (blank : Bool) :
    (ctx.past k blank).file = ctx.file := by
  cases blank <;> rfl

/-- A token is scanned with the blank behind it. -/
theorem Scans.spaced {k : TokenKind} {blank : Bool} {tokens : List Token} {starts : List Nat}
    (hk : k.Legible) (hplace : ctx.place.Admits k)
    (hz : blank = true ∨ z.head?.all k.endsBefore = true)
    (hs : Scans (ctx.past k blank) z tokens starts) : ∃ starts',
      Scans ctx (k.source ++ ((if blank then [' '] else []) ++ z))
        (⟨k, ctx.span (Text.byteSize k.source)⟩ :: tokens) starts' := by
  cases blank with
  | true => exact Scans.token hk hplace (endsBefore_blank hk) hs.blank
  | false => exact Scans.token hk hplace (hz.resolve_left Bool.false_ne_true) hs

end Lexer

/-- Pieces that can be written one behind the other. The first and the last one are of some sort. -/
structure Neat (First Last : Piece → Prop) (ps : List Piece) : Prop where
  legible : ∀ p ∈ ps, p.kind.Legible
  joined : ps.IsChain Piece.Before
  ne_nil : ps ≠ []
  first : ∀ p ∈ ps.head?, First p
  last : ∀ p ∈ ps.getLast?, Last p

namespace Neat

variable {First First' Last Last' : Piece → Prop} {p : Piece} {ps qs : List Piece}

theorem single (hp : p.kind.Legible) (hfirst : First p) (hlast : Last p) :
    Neat First Last [p] where
  legible := by simpa using hp
  joined := List.isChain_singleton p
  ne_nil := List.cons_ne_nil _ _
  first := by simpa using hfirst
  last := by simpa using hlast

/-- Pieces are put together where the first ones end and the others begin. -/
theorem append (h : Neat First Last ps) (h' : Neat First' Last' qs)
    (hjoin : ∀ {p q}, Last p → First' q → p.Before q) : Neat First Last' (ps ++ qs) where
  legible p hp := (List.mem_append.1 hp).elim (h.legible p) (h'.legible p)
  joined := List.isChain_append.2
    ⟨h.joined, h'.joined, fun p hp q hq => hjoin (h.last p hp) (h'.first q hq)⟩
  ne_nil := List.append_ne_nil_of_left_ne_nil h.ne_nil _
  first := by
    rw [List.head?_append_of_ne_nil _ h.ne_nil]
    exact h.first
  last := by
    rw [List.getLast?_append_of_ne_nil _ h'.ne_nil]
    exact h'.last

theorem cons (hp : p.kind.Legible) (hfirst : First p) (h : Neat First' Last ps)
    (hjoin : ∀ {q}, First' q → p.Before q) : Neat First Last (p :: ps) :=
  have hsingle : Neat First (· = p) [p] := single hp hfirst rfl
  hsingle.append h fun hq => hq ▸ hjoin

theorem imp (h : Neat First Last ps) (hfirst : ∀ {p}, First p → First' p)
    (hlast : ∀ {p}, Last p → Last' p) : Neat First' Last' ps :=
  { h with
    first := fun p hp => hfirst (h.first p hp)
    last := fun p hp => hlast (h.last p hp) }

end Neat

namespace Lexer

variable {ctx : Context}

/-- What ends a closing angle bracket ends two of them. -/
theorem endsBefore_shr {c : Char} (h : (TokenKind.symbol .rAngle).endsBefore c = true) :
    (TokenKind.symbol .shr).endsBefore c = true := by
  have hnext : (Symbol.nextChars .shr).all (· ∈ Symbol.nextChars .rAngle) = true := by decide
  simp only [TokenKind.endsBefore, Bool.not_eq_true', List.contains_eq_mem, decide_eq_false_iff_not]
    at h ⊢
  exact fun hc => h (of_decide_eq_true (List.all_eq_true.1 hnext c hc))

/-- The text behind a piece begins as the next piece does. -/
theorem head?_written {p : Piece} (hp : p.kind.Legible) (ps : List Piece) (z : List Char) :
    (written (p :: ps) ++ z).head? = p.kind.source.head? := by
  obtain ⟨c, tail, hsource⟩ := List.exists_cons_of_ne_nil (source_ne_nil hp)
  simp [written, Piece.chars, hsource]

/-- A piece in front of others stops where they begin, unless two closing angle brackets meet. -/
theorem stopsAt_written {p : Piece} {ps : List Piece} {z : List Char}
    (hlegible : ∀ q ∈ ps, q.kind.Legible) (hjoined : (p :: ps).IsChain Piece.Before)
    (hz : ∀ q ∈ (p :: ps).getLast?, q.StopsAt z) : p.StopsAt (written ps ++ z) ∨
      p.kind = .symbol .rAngle ∧ ∃ blank later, ps = ⟨.symbol .rAngle, blank⟩ :: later := by
  cases ps with
  | nil => exact Or.inl (hz p rfl)
  | cons q ps =>
    rcases (List.isChain_cons_cons.1 hjoined).1 with hstops | ⟨hp, hq⟩
    · refine Or.inl (hstops.imp_right fun h => ?_)
      rwa [head?_written (hlegible q List.mem_cons_self)]
    · obtain ⟨kind, blank⟩ := q
      obtain rfl : kind = .symbol .rAngle := hq
      exact Or.inr ⟨hp, blank, ps, rfl⟩

/-- Two closing brackets side by side, which are one token, end in front of what one of them
does. -/
theorem stopsAt_shr {blank : Bool} {ps : List Piece} {z : List Char}
    (hlegible : ∀ p ∈ ps, p.kind.Legible)
    (hjoined : (Piece.mk (.symbol .rAngle) blank :: ps).IsChain Piece.Before)
    (hz : ∀ p ∈ (Piece.mk (.symbol .rAngle) blank :: ps).getLast?, p.StopsAt z) :
    blank = true ∨ (written ps ++ z).head?.all (TokenKind.symbol .shr).endsBefore = true := by
  rcases stopsAt_written hlegible hjoined hz with hstops | ⟨-, blank', later, rfl⟩
  · refine hstops.imp_right fun h => ?_
    rw [Option.all_eq_true] at h ⊢
    exact fun c hc => endsBefore_shr (h c hc)
  · have hall : (TokenKind.symbol .rAngle).source.head?.all
        (TokenKind.symbol .shr).endsBefore = true := by decide
    refine Or.inr ?_
    rwa [head?_written (show (TokenKind.symbol .rAngle).Legible from rfl)]

/-- Pieces in front of a scanned text are scanned. -/
theorem scans_pieces (ctx : Context) {ps : List Piece} {z : List Char}
    (hlegible : ∀ p ∈ ps, p.kind.Legible)
    (hjoined : ps.IsChain Piece.Before) (hz : ∀ p ∈ ps.getLast?, p.StopsAt z)
    (hplace : ctx.place.AdmitsAll ps) :
    ∃ ctx' ts, ctx'.place = ctx.place.passing ps ∧ ctx'.file = ctx.file ∧
      ts.map (·.kind) = fused ps ∧ ∀ {tokens starts}, Scans ctx' z tokens starts →
        ∃ starts', Scans ctx (written ps ++ z) (ts ++ tokens) starts' := by
  induction ps using fused.induct generalizing ctx with
  | case1 blank ps ih =>
    have hlater := (List.isChain_cons_cons.1 hjoined).2
    have hlegible' : ∀ p ∈ ps, p.kind.Legible := fun p hp =>
      hlegible p (List.mem_cons_of_mem _ (List.mem_cons_of_mem _ hp))
    have hz' : ∀ p ∈ (Piece.mk (.symbol .rAngle) blank :: ps).getLast?, p.StopsAt z :=
      fun p hp => hz p (List.mem_getLast?_cons hp)
    have hstops := stopsAt_shr hlegible' hlater hz'
    have hplace' : (ctx.past (.symbol .shr) blank).place.AdmitsAll ps := by
      rw [Context.past_place]
      exact hplace.2.2
    obtain ⟨ctx', ts, hctx', hfile, hts, hscans⟩ :=
      ih _ hlegible' hlater.tail (fun p hp => hz' p (List.mem_getLast?_cons hp)) hplace'
    let shift : Token := ⟨.symbol .shr, ctx.span (Text.byteSize (TokenKind.symbol .shr).source)⟩
    refine ⟨ctx', shift :: ts, ?_, hfile.trans (Context.past_file ..),
      congrArg (TokenKind.symbol .shr :: ·) hts, fun hs => ?_⟩
    · rw [hctx', Context.past_place]
      rfl
    · obtain ⟨starts, hbehind⟩ := hscans hs
      obtain ⟨starts', hfront⟩ :=
        Scans.spaced (show (TokenKind.symbol .shr).Legible from rfl) trivial hstops hbehind
      refine ⟨starts', ?_⟩
      have htext : written (⟨.symbol .rAngle, false⟩ :: ⟨.symbol .rAngle, blank⟩ :: ps) ++ z =
          (TokenKind.symbol .shr).source ++ ((if blank then [' '] else []) ++
          (written ps ++ z)) := by
        simp [written, Piece.chars, TokenKind.source, TokenKind.text, Symbol.spelling]
      rw [htext]
      exact hfront
  | case2 p ps hother ih =>
    obtain ⟨kind, blank⟩ := p
    have hlegible' : ∀ p ∈ ps, p.kind.Legible := fun p hp => hlegible p (List.mem_cons_of_mem _ hp)
    have hstops : (Piece.mk kind blank).StopsAt (written ps ++ z) := by
      rcases stopsAt_written hlegible' hjoined hz with hstops | ⟨hkind, blank', later, rfl⟩
      · exact hstops
      · cases blank with
        | true => exact Or.inl rfl
        | false =>
          obtain rfl : kind = .symbol .rAngle := hkind
          exact (hother _ _ rfl rfl).elim
    have hplace' : (ctx.past kind blank).place.AdmitsAll ps := by
      rw [Context.past_place]
      exact hplace.2
    obtain ⟨ctx', ts, hctx', hfile, hts, hscans⟩ :=
      ih _ hlegible' hjoined.tail (fun p hp => hz p (List.mem_getLast?_cons hp)) hplace'
    have hfused : fused (⟨kind, blank⟩ :: ps) = kind :: fused ps := by
      rw [fused]
      exact hother
    refine ⟨ctx', ⟨kind, ctx.span (Text.byteSize kind.source)⟩ :: ts, ?_,
      hfile.trans (Context.past_file ..), ?_, fun hs => ?_⟩
    · rw [hctx', Context.past_place]
      rfl
    · rw [hfused, List.map_cons, hts]
    · obtain ⟨starts, hbehind⟩ := hscans hs
      obtain ⟨starts', hfront⟩ :=
        Scans.spaced (hlegible _ List.mem_cons_self) hplace.1 hstops hbehind
      refine ⟨starts', ?_⟩
      have htext : written (⟨kind, blank⟩ :: ps) ++ z =
          kind.source ++ ((if blank then [' '] else []) ++ (written ps ++ z)) := by
        simp [written, Piece.chars]
      rw [htext]
      exact hfront
  | case3 => exact ⟨ctx, [], rfl, rfl, rfl, fun h => ⟨_, h⟩⟩

end Lexer

/-- Pieces that are a whole text are scanned to their tokens. -/
theorem lex_written {ps : List Piece} (hlegible : ∀ p ∈ ps, p.kind.Legible)
    (hjoined : ps.IsChain Piece.Before) (hplace : Lexer.Place.AdmitsAll ⟨0, false⟩ ps)
    (file : FileId) : ∃ ts span lines,
      lex file (String.ofList (written ps)) = .ok ⟨ts ++ [⟨.eof, span⟩], lines⟩ ∧
        ts.map (·.kind) = fused ps := by
  obtain ⟨ctx, ts, -, -, hts, hscans⟩ := Lexer.scans_pieces (.start file) (z := []) hlegible hjoined
    (fun p _ => Or.inr rfl) hplace
  obtain ⟨starts, hscan⟩ := hscans (.done ctx)
  refine ⟨ts, ctx.span 0, ⟨starts⟩, lex_of_scans ?_, hts⟩
  rw [String.toList_ofList]
  rwa [List.append_nil] at hscan

end FrontEnd
