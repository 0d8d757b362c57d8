import FrontEnd.Proofs.Following.Seams
import Mathlib.Data.List.Forall2

/-!
# Line breaks inside parentheses and brackets

Directly inside parentheses and brackets line breaks have no meaning: a text without errors is read
to the same statements when line breaks are put in there. Only two pairs of tokens must not be torn
apart, because the parser looks at both of them at once: a name and the colon that makes it a label,
and the two tokens of a borrow that may change its operand.
-/

namespace FrontEnd

/-- The delimiters that are open behind a token, innermost first, given those before it. -/
def TokenKind.opens (k : TokenKind) (opened : List Symbol) : List Symbol :=
  match k with
  | .symbol mark =>
    if k.isOpening then mark :: opened else if k.isClosing then opened.tail else opened
  | _ => opened

/-- Whether the innermost open delimiter is a parenthesis or a bracket. -/
def InParens (opened : List Symbol) : Prop :=
  opened.head? = some .lParen ∨ opened.head? = some .lBracket

instance (opened : List Symbol) : Decidable (InParens opened) := inferInstanceAs (Decidable (_ ∨ _))

/-- The second list of tokens is the first one with line breaks put in directly inside parentheses
and brackets, but for some pairs of neighbours that are `kept` together; the tokens may stand at
other places. `before` is the token in front of the lists, `opened` are the delimiters that are open
there. -/
inductive Respaced (kept : TokenKind → TokenKind → Bool) :
    TokenKind → List Symbol → List Token → List Token → Prop
  /-- At the end of the tokens. -/
  | nil {before : TokenKind} {opened : List Symbol} (breaks : List Token)
    (newlines : ∀ t ∈ breaks, t.kind = .newline) (inside : breaks ≠ [] → InParens opened) :
    Respaced kept before opened [] breaks
  /-- In front of a token. -/
  | cons {before : TokenKind} {opened : List Symbol} {x y : Token} {xs ys : List Token}
    (breaks : List Token) (newlines : ∀ t ∈ breaks, t.kind = .newline)
    (inside : breaks ≠ [] → InParens opened ∧ kept before x.kind = false)
    (same : y.kind = x.kind) (tail : Respaced kept x.kind (x.kind.opens opened) xs ys) :
    Respaced kept before opened (x :: xs) (breaks ++ y :: ys)

/-- Pairs of neighbours at which the parser looks at once. -/
def TokenKind.joined : TokenKind → TokenKind → Bool
  | .ident _, .symbol .colon => true
  | .symbol .ampersand, .keyword .mut_ => true
  | _, _ => false

/-- Tokens that are no delimiters leave the open ones as they are. -/
theorem TokenKind.opens_inside {k : TokenKind} (opening : k.isOpening = false)
    (closing : k.isClosing = false) (opened : List Symbol) : k.opens opened = opened := by
  unfold opens
  split
  · rw [if_neg (by rw [opening]; exact Bool.false_ne_true),
      if_neg (by rw [closing]; exact Bool.false_ne_true)]
  · rfl

namespace Respaced

variable {kept : TokenKind → TokenKind → Bool} {before : TokenKind} {opened : List Symbol}
  {xs ys : List Token}

theorem length_le (h : Respaced kept before opened xs ys) : xs.length ≤ ys.length := by
  induction h with
  | nil => exact Nat.zero_le _
  | cons breaks _ _ _ _ ih =>
    simp only [List.length_append, List.length_cons]
    omega

/-- Nothing has to be put in. -/
theorem refl (before : TokenKind) (opened : List Symbol) (xs : List Token) :
    Respaced kept before opened xs xs := by
  induction xs generalizing before opened with
  | nil => exact .nil [] (by simp) (absurd rfl)
  | cons x xs ih => exact .cons [] (by simp) (absurd rfl) rfl (ih _ _)

/-- Line breaks are put in between two tokens `x` and `y`. -/
theorem insert {x y : Token} {breaks : List Token} (newlines : ∀ t ∈ breaks, t.kind = .newline)
    (inside : InParens ((xs ++ [x]).foldl (fun opened t => t.kind.opens opened) opened))
    (apart : kept x.kind y.kind = false) :
    Respaced kept before opened (xs ++ x :: y :: ys) (xs ++ x :: (breaks ++ y :: ys)) := by
  induction xs generalizing before opened with
  | nil =>
    refine .cons [] (by simp) (absurd rfl) rfl ?_
    exact .cons breaks newlines (fun _ => ⟨inside, apart⟩) rfl (refl _ _ ys)
  | cons z xs ih => exact .cons [] (by simp) (absurd rfl) rfl (ih inside)

/-- The tokens before the end marks. -/
theorem takeWhile (h : Respaced kept before opened xs ys) :
    Respaced kept before opened (xs.takeWhile (·.kind ≠ .eof)) (ys.takeWhile (·.kind ≠ .eof)) := by
  have hbreaks {breaks : List Token} (newlines : ∀ t ∈ breaks, t.kind = .newline) :
      ∀ t ∈ breaks, decide (t.kind ≠ .eof) = true := fun t ht => by simp [newlines t ht]
  induction h with
  | nil breaks newlines inside =>
    rw [List.takeWhile_nil, List.takeWhile_eq_self_iff.2 (hbreaks newlines)]
    exact .nil breaks newlines inside
  | @cons _ _ x y xs ys breaks newlines inside same _ ih =>
    rw [List.takeWhile_append_of_pos (hbreaks newlines)]
    by_cases heof : x.kind = .eof
    · rw [List.takeWhile_cons_of_neg (by simp [heof]),
        List.takeWhile_cons_of_neg (by simp [same, heof]), List.append_nil]
      exact .nil breaks newlines fun hbreaks => (inside hbreaks).1
    · rw [List.takeWhile_cons_of_pos (by simp [heof]),
        List.takeWhile_cons_of_pos (by simp [same, heof])]
      exact .cons breaks newlines inside same ih

end Respaced

/-- Groups and the delimiters they were entered through: line breaks may count only in braces. -/
abbrev Delimited : List Group → List Symbol → Prop :=
  List.Forall₂ fun g mark => mark ≠ .lBrace → g.ignoresNewlines = true

/-- Where line breaks may be put in, the parser skips them. -/
theorem Delimited.ignores {groups : List Group} {opened : List Symbol}
    (h : Delimited groups opened) (hin : InParens opened) : ignoresNewlines groups = true := by
  cases h with
  | nil => rcases hin with hin | hin <;> cases hin
  | cons hmark _ =>
    refine hmark ?_
    rcases hin with hin | hin <;> cases hin <;> simp

/-- Groups and delimiters are opened and closed together. -/
theorem Delimited.moves {k : TokenKind} {groups groups' : List Group} {opened : List Symbol}
    (h : Delimited groups opened) (hmoves : k.Moves groups groups') :
    Delimited groups' (k.opens opened) := by
  cases hmoves with
  | inside opening closing => rwa [TokenKind.opens_inside opening closing]
  | enter opening brace =>
    cases k with
    | symbol mark =>
      change Delimited _ (if _ then _ else _)
      rw [if_pos opening]
      exact .cons (fun hmark => brace (by simpa using hmark)) h
    | _ => cases opening
  | leave closing =>
    cases k with
    | symbol mark =>
      have opening : (TokenKind.symbol mark).isOpening = false := by
        cases mark <;> first | rfl | cases closing
      change Delimited _ (if _ then _ else if _ then _ else _)
      rw [if_neg (by rw [opening]; exact Bool.false_ne_true), if_pos closing]
      cases h with
      | cons _ h => exact h
    | _ => cases closing

/-- Two streams whose first tokens are at hand, with line breaks put in behind them. -/
def AtHand (groups : List Group) (xs ys : List Token) : Prop :=
  ∃ opened, Delimited groups opened ∧ (xs = [] ∧ ys = [] ∨ ∃ x xs' y ys', xs = x :: xs' ∧
    ys = y :: ys' ∧ y.kind = x.kind ∧
      Respaced TokenKind.joined x.kind (x.kind.opens opened) xs' ys')

/-- When separators are stepped over, the line breaks that were put in are too. -/
theorem atHand_dropWhile {p : TokenKind → Bool} {groups : List Group} {opened : List Symbol}
    {before : TokenKind} {xs ys : List Token} (h : Respaced TokenKind.joined before opened xs ys)
    (hgroups : Delimited groups opened)
    (hignored : ignoresNewlines groups = true → p .newline = true)
    (hp : ∀ k, p k = true → k.isOpening = false ∧ k.isClosing = false) :
    AtHand groups (xs.dropWhile (p ·.kind)) (ys.dropWhile (p ·.kind)) := by
  have hbreaks {opened : List Symbol} (hgroups : Delimited groups opened) {breaks : List Token}
      (newlines : ∀ t ∈ breaks, t.kind = .newline) (inside : breaks ≠ [] → InParens opened) :
      ∀ t ∈ breaks, p t.kind = true := by
    intro t ht
    rw [newlines t ht]
    exact hignored (hgroups.ignores (inside (List.ne_nil_of_mem ht)))
  induction h with
  | nil breaks newlines inside =>
    refine ⟨_, hgroups, Or.inl ⟨rfl, ?_⟩⟩
    exact List.dropWhile_eq_nil_iff.2 (hbreaks hgroups newlines inside)
  | @cons before opened x y xs ys breaks newlines inside same tail ih =>
    rw [List.dropWhile_append_of_pos
      (hbreaks hgroups newlines fun hbreaks => (inside hbreaks).1)]
    by_cases hx : p x.kind = true
    · obtain ⟨opening, closing⟩ := hp _ hx
      have hy : p y.kind = true := same ▸ hx
      rw [List.dropWhile_cons, if_pos hx, List.dropWhile_cons, if_pos hy]
      rw [TokenKind.opens_inside opening closing] at ih
      exact ih hgroups
    · have hy : ¬p y.kind = true := same ▸ hx
      rw [List.dropWhile_cons, if_neg hx, List.dropWhile_cons, if_neg hy]
      exact ⟨opened, hgroups, Or.inr ⟨x, xs, y, ys, rfl, rfl, same, tail⟩⟩

/-- The tokens behind the first ones. -/
theorem atHand_cons {groups : List Group} {x y : Token} {xs ys : List Token}
    (h : AtHand groups (x :: xs) (y :: ys)) : ∃ opened, Delimited groups opened ∧
      y.kind = x.kind ∧ Respaced TokenKind.joined x.kind (x.kind.opens opened) xs ys := by
  obtain ⟨opened, hgroups, ⟨hnil, -⟩ | ⟨_, _, _, _, hx, hy, same, tail⟩⟩ := h
  · cases hnil
  · cases hx
    cases hy
    exact ⟨opened, hgroups, same, tail⟩

/-- Behind a token that is kept together with the next one, the next one is seen. -/
theorem Respaced.next_iff {before k : TokenKind} {opened : List Symbol} {xs ys : List Token}
    (h : Respaced TokenKind.joined before opened xs ys) (hk : before.joined k = true) :
    xs.head?.map (·.kind) = some k ↔ ys.head?.map (·.kind) = some k := by
  have hnewline : k ≠ .newline := by
    rintro rfl
    unfold TokenKind.joined at hk
    split at hk <;> contradiction
  cases h with
  | nil _ newlines inside =>
    cases ys with
    | nil => rfl
    | cons t _ => simp [newlines t List.mem_cons_self, hnewline.symm]
  | @cons _ _ x y _ _ breaks newlines inside same tail =>
    cases breaks with
    | nil => simp [same]
    | cons t _ =>
      have hx : x.kind ≠ k := by
        rintro rfl
        have hapart := (inside (List.cons_ne_nil _ _)).2
        rw [hk] at hapart
        cases hapart
      simp [newlines t List.mem_cons_self, hnewline.symm, hx]

/-- A text and the same text with line breaks put in are read alike, up to the first error. -/
def respacing : Simulation where
  like := .unplaced
  base := []
  base_plain := ignoresNewlines_nil
  extra := 0
  limit := 1
  limit_le := first_le_maxErrors
  earlier := []
  extended := False
  stream := AtHand
  nil := by
    rintro groups ys ⟨-, -, ⟨-, rfl⟩ | ⟨_, _, _, _, hnil, -⟩⟩
    · exact Or.inr ⟨id, rfl⟩
    · cases hnil
  cons := by
    rintro groups x xs ys ⟨-, -, ⟨hnil, -⟩ | ⟨_, _, y, ys', hx, rfl, same, -⟩⟩
    · cases hnil
    · cases hx
      exact ⟨y, ys', rfl, same, rfl⟩
  move := by
    intro groups groups' x y xs ys p h hmoves hp hignored
    obtain ⟨opened, hgroups, -, tail⟩ := atHand_cons h
    refine Or.inr ⟨atHand_dropWhile tail (hgroups.moves hmoves) hignored fun k hk => ?_, ?_⟩
    · rw [hp k hk]
      exact ⟨rfl, rfl⟩
    · exact fun _ _ _ _ => rfl
  skip := by
    intro groups xs ys p h hnewline hp
    refine Or.inr ⟨?_, fun _ _ _ _ => rfl⟩
    obtain ⟨opened, hgroups, ⟨rfl, rfl⟩ | ⟨x, xs, y, ys, rfl, rfl, same, tail⟩⟩ := h
    · exact ⟨opened, hgroups, Or.inl ⟨rfl, rfl⟩⟩
    · have whole : Respaced TokenKind.joined .newline opened (x :: xs) ([] ++ y :: ys) :=
        .cons [] (by simp) (absurd rfl) same tail
      exact atHand_dropWhile whole hgroups (fun _ => hnewline) hp
  label := by
    intro groups x y xs ys h hident
    obtain ⟨opened, -, -, tail⟩ := atHand_cons h
    refine tail.next_iff ?_
    cases hk : x.kind with
    | ident name => rfl
    | _ => rw [hk] at hident; cases hident
  borrow := by
    intro groups x y xs ys h hborrow
    obtain ⟨opened, -, -, tail⟩ := atHand_cons h
    refine tail.next_iff ?_
    rw [hborrow]
    rfl
  fresh := fun h => h.elim
  exact := fun h => absurd h (Nat.lt_irrefl 1)

/-- Before the first token the two texts are read alike. -/
theorem respacing_start (file : FileId) {tokens tokens' : List Token} {before : TokenKind}
    (h : Respaced TokenKind.joined before [] tokens tokens') :
    respacing.Linked (ParserState.start file tokens) (ParserState.start file tokens') where
  sound := ParserState.start_sound file tokens
  final := ParserState.start_final file tokens'
  stream := by
    -- Outside of all delimiters no line break was put in.
    have hstart := atHand_dropWhile (p := fun _ => false) h.takeWhile List.Forall₂.nil
      (fun hp => nomatch hp) (fun _ hp => nomatch hp)
    have hkeep (l : List Token) : l.dropWhile (fun _ => false) = l := by cases l <;> rfl
    rwa [hkeep, hkeep] at hstart
  groups := rfl
  brace := rfl
  half := rfl
  ids := fun _ => rfl
  count := rfl
  warned := ⟨[], rfl, rfl⟩
  ends := fun _ _ _ => rfl
  finals := fun _ => rfl

/-- Line breaks directly inside parentheses and brackets do not matter, as long as no label is torn
from its colon and no borrow from the word behind it: the text is read without errors, to the same
statements at other places. -/
theorem parse_respaced {file : FileId} {tokens tokens' : List Token} {p : Parsed}
    (h : Respaced TokenKind.joined .newline [] tokens tokens') (hparse : parse file tokens = .ok p)
    (free : Diagnostic.anyError p.diagnostics = false) :
    ∃ p', parse file tokens' = .ok p' ∧ Diagnostic.anyError p'.diagnostics = false ∧
      Likeness.unplaced.Alike p.stmts p'.stmts := by
  have hbound : tokens.length + 1 ≤ tokens'.length + 1 := Nat.succ_le_succ h.length_le
  have hfollows : Follows respacing 0 .slack .slack (fun _ => True)
      (Parse.file (tokens.length + 1)) (Parse.file (tokens'.length + 1)) :=
    Parse.file_follows trivial hbound
  have hstart := respacing_start file h
  have run := hfollows.runs hstart.sound.final trivial
  have hfresh : ¬respacing.Lost (ParserState.start file tokens) := by
    rintro (⟨-, hopen | hcut⟩ | hlimit)
    · exact hopen rfl
    · exact hcut
    · cases hlimit
  have pair := hfollows.pairs hstart trivial hfresh (fun _ hended => hended.1) (Nat.zero_le _)
  unfold parse at hparse ⊢
  cases hrun : Parse.file (tokens.length + 1) (ParserState.start file tokens) with
  | error e s =>
    rw [hrun] at hparse
    cases hparse
  | ok stmts s =>
    rw [hrun] at hparse run pair
    cases hparse
    have hfree : s.errorCount = 0 := s.errorFree_iff.1 free
    rcases pair with (⟨-, hopen | hcut⟩ | hlimit) | hended | ⟨stmts', t, hrun', halike, hlinked⟩
    · exact absurd run.groups hopen
    · exact hcut.elim
    · change 1 ≤ s.errorCount at hlimit
      omega
    · exact hended.2.1.elim
    · rw [hrun']
      refine ⟨⟨stmts', t.diagnostics⟩, rfl, t.errorFree_iff.2 ?_, halike⟩
      rw [hlinked.count, hfree]
      rfl

/-- Tokens at no place in particular. -/
def tokensOf (kinds : List TokenKind) : List Token := kinds.map (⟨·, default⟩)

-- A line break behind a comma, and one in the middle of a borrow outside of all parentheses.
example : parsesClean ⟨0⟩ (tokensOf [.ident "f", .symbol .lParen, .ident "a", .symbol .comma,
      .newline, .ident "b", .symbol .rParen]) = true ∧
    parsesClean ⟨0⟩ (tokensOf [.symbol .ampersand, .newline, .keyword .mut_, .ident "x"]) =
      false := by
  decide +kernel

/-- Two line breaks between the arguments of `f(a: 1, &mut x)`. -/
theorem parse_respaced_call : ∃ p p',
    parse ⟨0⟩ (tokensOf [.ident "f", .symbol .lParen, .ident "a", .symbol .colon,
      .literal .decimal "1", .symbol .comma, .symbol .ampersand, .keyword .mut_, .ident "x",
      .symbol .rParen]) = .ok p ∧
    parse ⟨0⟩ (tokensOf [.ident "f", .symbol .lParen, .ident "a", .symbol .colon,
      .literal .decimal "1", .symbol .comma, .newline, .newline, .symbol .ampersand, .keyword .mut_,
      .ident "x", .symbol .rParen]) = .ok p' ∧
    Diagnostic.anyError p'.diagnostics = false ∧ Likeness.unplaced.Alike p.stmts p'.stmts := by
  let front := tokensOf [.ident "f", .symbol .lParen, .ident "a", .symbol .colon,
    .literal .decimal "1"]
  let back := tokensOf [.keyword .mut_, .ident "x", .symbol .rParen]
  have hrespaced : Respaced TokenKind.joined .newline []
      (front ++ ⟨.symbol .comma, default⟩ :: ⟨.symbol .ampersand, default⟩ :: back)
      (front ++ ⟨.symbol .comma, default⟩ :: (tokensOf [.newline, .newline] ++
        ⟨.symbol .ampersand, default⟩ :: back)) :=
    Respaced.insert (by decide) (by decide) (by decide)
  obtain ⟨p, hparse, free⟩ := parsesClean_iff.1 (show parsesClean ⟨0⟩ (front ++
    ⟨.symbol .comma, default⟩ :: ⟨.symbol .ampersand, default⟩ :: back) = true by decide +kernel)
  obtain ⟨p', hparse', free', halike⟩ := parse_respaced hrespaced hparse free
  exact ⟨p, p', hparse, hparse', free', halike⟩

/-- Where nothing is kept together, line breaks do matter: `f(&mut x)` and `f(a: 1)` are read
without errors, but not when a line break tears the borrow or the label apart. -/
theorem respaced_torn :
    (∃ tokens tokens', Respaced (fun _ _ => false) .newline [] tokens tokens' ∧
      tokens = tokensOf [.ident "f", .symbol .lParen, .symbol .ampersand, .keyword .mut_,
        .ident "x", .symbol .rParen] ∧
      parsesClean ⟨0⟩ tokens = true ∧ parsesClean ⟨0⟩ tokens' = false) ∧
    ∃ tokens tokens', Respaced (fun _ _ => false) .newline [] tokens tokens' ∧
      tokens = tokensOf [.ident "f", .symbol .lParen, .ident "a", .symbol .colon,
        .literal .decimal "1", .symbol .rParen] ∧
      parsesClean ⟨0⟩ tokens = true ∧ parsesClean ⟨0⟩ tokens' = false := by
  let front := tokensOf [.ident "f", .symbol .lParen]
  constructor
  · let back := tokensOf [.ident "x", .symbol .rParen]
    exact ⟨front ++ ⟨.symbol .ampersand, default⟩ :: ⟨.keyword .mut_, default⟩ :: back,
      front ++ ⟨.symbol .ampersand, default⟩ :: (tokensOf [.newline] ++
        ⟨.keyword .mut_, default⟩ :: back),
      Respaced.insert (by decide) (by decide) rfl, rfl, by decide +kernel, by decide +kernel⟩
  · let back := tokensOf [.literal .decimal "1", .symbol .rParen]
    exact ⟨front ++ ⟨.ident "a", default⟩ :: ⟨.symbol .colon, default⟩ :: back,
      front ++ ⟨.ident "a", default⟩ :: (tokensOf [.newline] ++ ⟨.symbol .colon, default⟩ :: back),
      Respaced.insert (by decide) (by decide) rfl, rfl, by decide +kernel, by decide +kernel⟩

end FrontEnd
