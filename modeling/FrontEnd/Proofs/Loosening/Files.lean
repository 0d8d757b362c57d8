import FrontEnd.Proofs.Following.Files
import FrontEnd.Proofs.Layout.Files
import FrontEnd.Proofs.LineBreaks
import FrontEnd.Proofs.Loosening.Declarations
import FrontEnd.Proofs.Progress.Files

/-!
# Line breaks behind operators and separators

A file that is read without errors is read to the same statements when line breaks are put in behind
commas, behind binary and assignment operators, and behind colons. The colons in front of the result
of a function, the bound of a generic parameter and the type of a constant one are an exception: a
line break behind them is an error. Where the operators and colons of a file are, its tree tells.
-/

namespace FrontEnd

/-- The tokens of a text, each in a file of its own. -/
def numbered (tokens : List Token) : List Token :=
  tokens.mapIdx fun i t => ⟨t.kind, 0, 0, ⟨i⟩⟩

/-- The tokens that stand behind the binary and assignment operators of a text, and behind the
colons of its variables, fields, parameters, labels and supertypes. -/
def joints (tokens : List Token) : List FileId :=
  (parse ⟨tokens.length⟩ (numbered tokens)).toOption.elim [] fun p =>
    (Node.ofList p.stmts).jointsAfter []

-- What stands behind the two operators of `a = b + c`.
example : joints [⟨.ident "a", default⟩, ⟨.symbol .assign, default⟩, ⟨.ident "b", default⟩,
    ⟨.symbol .add, default⟩, ⟨.ident "c", default⟩] = [⟨4⟩, ⟨2⟩] := by
  decide +kernel

/-- What is joined in a text. -/
def Loosening.ofTokens (tokens : List Token) : Loosening where
  joined i := i ∈ joints tokens
  final := (ParserState.start ⟨tokens.length⟩ (numbered tokens)).final
  eof := ParserState.start_final _ _

/-- The second text is the first one with line breaks put in directly behind commas, and behind
binary operators, assignment operators and colons which join the next token to them. -/
def Loosened (tokens tokens' : List Token) : Prop :=
  ∃ spread, (Loosening.ofTokens tokens).Spread (numbered tokens) spread ∧
    tokens'.map (·.kind) = spread.map (·.kind)

section Starting

variable {K : Loosening} {tokens : List Token} {file : FileId}

/-- Numbers do not change what was read. -/
theorem numbered_kinds (tokens : List Token) :
    (numbered tokens).map (·.kind) = tokens.map (·.kind) := by
  refine List.ext_getElem? fun i => ?_
  unfold numbered
  rw [List.getElem?_map, List.getElem?_map, List.getElem?_mapIdx, Option.map_map]
  rfl

theorem numbered_flat : ∀ t ∈ numbered tokens, t.span.Flat := by
  intro t ht
  obtain ⟨i, hi, rfl⟩ := List.mem_mapIdx.1 ht
  exact ⟨rfl, rfl⟩

/-- No two tokens have the same number. -/
theorem numbered_files (tokens : List Token) :
    (numbered tokens).map (·.span.file) = (List.range tokens.length).map FileId.mk := by
  refine List.ext_getElem? fun i => ?_
  unfold numbered
  rw [List.getElem?_map, List.getElem?_map, List.getElem?_mapIdx, Option.map_map]
  by_cases hi : i < tokens.length
  · rw [List.getElem?_range hi, List.getElem?_eq_getElem hi]
    rfl
  · rw [List.getElem?_eq_none (by simpa using hi), List.getElem?_eq_none (by simpa using hi)]
    rfl

/-- The end of the text stands behind the tokens in front of it. -/
theorem takeWhile_concat_sublist (p : Token → Bool) (tokens : List Token) (final : Token) :
    (tokens.takeWhile p ++ [(tokens.find? (!p ·)).getD final]).Sublist (tokens ++ [final]) := by
  induction tokens with
  | nil => exact .refl _
  | cons t tokens ih =>
    cases ht : p t with
    | true =>
      rw [List.takeWhile_cons_of_pos ht, List.find?_cons_of_neg (by simp [ht])]
      exact ih.cons_cons t
    | false =>
      rw [List.takeWhile_cons_of_neg (by simp [ht]), List.find?_cons_of_pos (by simp [ht])]
      exact (List.nil_sublist _).cons_cons t

/-- A text that covers nothing ends where it begins. -/
theorem ParserState.start_flat (h : ∀ t ∈ tokens, t.span.Flat) :
    (ParserState.start file tokens).final =
      (tokens.find? (·.kind = .eof)).getD ⟨.eof, 0, 0, file⟩ := by
  have hstop : (tokens.getLast?.map (·.span.stop)).getD 0 = 0 := by
    cases hlast : tokens.getLast? with
    | none => rfl
    | some t =>
      obtain ⟨hpos, hlen⟩ := h t (List.mem_of_getLast? hlast)
      change t.span.pos + t.span.len = 0
      omega
  unfold ParserState.start
  rw [hstop]

/-- What is read of a text, and its end, stand in a row. -/
theorem ParserState.start_files (h : ∀ t ∈ tokens, t.span.Flat) :
    (((ParserState.start file tokens).rest ++ [(ParserState.start file tokens).final]).map
      (·.span.file)).Sublist (tokens.map (·.span.file) ++ [file]) := by
  have hsub := (takeWhile_concat_sublist (·.kind ≠ .eof) tokens ⟨.eof, 0, 0, file⟩).map
    (·.span.file)
  rw [start_flat h]
  simpa [ParserState.start] using hsub

end Starting

namespace Loosening

variable {K : Loosening} {xs ys : List Token}

/-- What stands behind the end of the text does not matter. -/
theorem next_takeWhile (h : ∀ t, xs.find? (·.kind = .eof) = some t → t = K.final) :
    K.next (xs.takeWhile (·.kind ≠ .eof)) = K.next xs := by
  induction xs with
  | nil => rfl
  | cons x xs ih =>
    by_cases hx : x.kind = .eof
    · have hfinal : x = K.final := h x (List.find?_cons_of_pos (by simpa using hx))
      rw [List.takeWhile_cons_of_neg (by simpa using hx), next_cons (by rw [hx]; nofun), hfinal]
      rfl
    · rw [List.find?_cons_of_neg (by simpa using hx)] at h
      rw [List.takeWhile_cons_of_pos (by simpa using hx)]
      by_cases hnewline : x.kind = .newline
      · rw [next_cons_newline hnewline, next_cons_newline hnewline, ih h]
      · rw [next_cons hnewline, next_cons hnewline]

namespace Spread

/-- No end is put in. -/
theorem find? (h : K.Spread xs ys) :
    ys.find? (·.kind = .eof) = xs.find? (·.kind = .eof) := by
  induction h with
  | nil => rfl
  | @cons x xs ys breaks place tail ih =>
    have hbreaks : (List.replicate breaks lineBreak).find? (·.kind = .eof) = none :=
      List.find?_eq_none.2 fun t ht => List.eq_of_mem_replicate ht ▸ (by decide)
    rw [List.find?_cons, List.find?_cons, List.find?_append, hbreaks, Option.none_or, ih]

/-- Nothing is left out. -/
theorem length_le (h : K.Spread xs ys) : xs.length ≤ ys.length := by
  induction h with
  | nil => exact Nat.le_refl _
  | cons breaks place tail ih =>
    rw [List.length_cons, List.length_cons, List.length_append]
    omega

/-- The part of a text that is read is spread alike. -/
theorem takeWhile (h : K.Spread xs ys)
    (hfinal : ∀ t, xs.find? (·.kind = .eof) = some t → t = K.final) :
    K.Spread (xs.takeWhile (·.kind ≠ .eof)) (ys.takeWhile (·.kind ≠ .eof)) := by
  induction h with
  | nil => exact .nil
  | @cons x xs ys breaks place tail ih =>
    by_cases hx : x.kind = .eof
    · rw [List.takeWhile_cons_of_neg (by simpa using hx),
        List.takeWhile_cons_of_neg (by simpa using hx)]
      exact .nil
    · rw [List.find?_cons_of_neg (by simpa using hx)] at hfinal
      have hbreaks : ∀ t ∈ List.replicate breaks lineBreak, decide (t.kind ≠ .eof) = true :=
        fun t ht => List.eq_of_mem_replicate ht ▸ rfl
      rw [List.takeWhile_cons_of_pos (by simpa using hx),
        List.takeWhile_cons_of_pos (by simpa using hx), List.takeWhile_append_of_pos hbreaks]
      refine .cons breaks (fun hn => ?_) (ih hfinal)
      refine (place hn).imp_right (And.imp_right fun hdue => ?_)
      unfold due at hdue ⊢
      rwa [next_takeWhile hfinal]

end Spread

variable {tokens : List Token}

/-- There are at least as many joints in a text as tokens that may be joined. -/
theorem weight_start (tokens : List Token) :
    (ofTokens tokens).weight (ParserState.start ⟨tokens.length⟩ (numbered tokens)).rest ≤
      (ofTokens tokens).tally (joints tokens) := by
  let s := ParserState.start ⟨tokens.length⟩ (numbered tokens)
  let files := (s.rest ++ [s.final]).map (·.span.file)
  have hle := (ofTokens tokens).weight_le s.rest
  have hnodup : files.Nodup := by
    have hall : ((numbered tokens).map (fun t => t.span.file) ++
        [FileId.mk tokens.length]).Nodup := by
      have hrange : (List.range (tokens.length + 1)).Nodup := List.nodup_range
      have hmap := hrange.map (f := FileId.mk) fun i j h => FileId.mk.inj h
      rwa [List.range_succ, List.map_append, ← numbered_files] at hmap
    exact (ParserState.start_files numbered_flat).nodup hall
  have hjoined : (files.filter (ofTokens tokens).joined).length ≤ (joints tokens).length := by
    refine (List.subperm_of_subset (hnodup.filter _) fun i hi => ?_).length_le
    exact of_decide_eq_true (List.mem_filter.1 hi).2
  have htally : (ofTokens tokens).tally (joints tokens) = (joints tokens).length :=
    List.countP_eq_length.2 fun i hi => decide_eq_true hi
  rw [htally]
  rw [List.countP_eq_length_filter] at hle
  exact (Nat.le_add_right _ _).trans (hle.trans hjoined)

/-- A spread text is read from the same state, over more tokens. -/
theorem start_spread {spread : List Token} (h : (ofTokens tokens).Spread (numbered tokens) spread) :
    ParserState.start ⟨tokens.length⟩ spread =
      (ParserState.start ⟨tokens.length⟩ (numbered tokens)).over
        (spread.takeWhile (·.kind ≠ .eof)) ⟨0, 0, ⟨tokens.length⟩⟩ := by
  have hfinal : (ParserState.start ⟨tokens.length⟩ spread).final =
      (ParserState.start ⟨tokens.length⟩ (numbered tokens)).final := by
    rw [ParserState.start_flat (h.flat numbered_flat), ParserState.start_flat numbered_flat,
      h.find?]
  exact congrArg (fun final => { ParserState.start ⟨tokens.length⟩ spread with final }) hfinal

end Loosening

/-- A text whose tokens are numbered is read alike when it is spread. -/
theorem parse_spread {tokens spread : List Token} {p : Parsed}
    (h : parse ⟨tokens.length⟩ (numbered tokens) = .ok p)
    (free : Diagnostic.anyError p.diagnostics = false)
    (hspread : (Loosening.ofTokens tokens).Spread (numbered tokens) spread) :
    parse ⟨tokens.length⟩ spread = .ok p := by
  let s := ParserState.start ⟨tokens.length⟩ (numbered tokens)
  obtain ⟨hrun, hdiagnostics⟩ := parse_ok h
  have free' : (endState ⟨tokens.length⟩ (numbered tokens)).ErrorFree := by
    unfold ParserState.ErrorFree
    rwa [hdiagnostics]
  have hs : (Loosening.ofTokens tokens).Stands .firm [] s :=
    ⟨rfl, fun t ht => numbered_flat t ((List.takeWhile_sublist _).subset ht), ⟨rfl, rfl⟩, rfl,
      trivial⟩
  -- With more tokens the bounds are higher, which makes no difference.
  have hlength := Nat.lt_succ_of_le (Parse.start_length ⟨tokens.length⟩ (numbered tokens))
  have same : Progresses (s.rest.length + 1) .stays (fun _ => True)
      (Parse.file ((numbered tokens).length + 1)) (Parse.file (spread.length + 1)) :=
    Parse.file_progresses hlength (Nat.lt_of_lt_of_le hlength (Nat.succ_le_succ hspread.length_le))
  have hbounds := (same (ParserState.start_sound _ _) (Nat.lt_succ_self _) trivial).1
  rw [← hbounds] at hrun
  have loosens : Loosens (Loosening.ofTokens tokens) .firm [] [] [] (Parse.file (spread.length + 1))
      fun stmts => (Node.ofList stmts).jointsAfter [] := Parse.file_loosens _
  obtain ⟨-, -, follows⟩ := loosens.runs hs hrun free'
  have hjoints : joints tokens = (Node.ofList p.stmts).jointsAfter [] := by
    unfold joints
    rw [h]
    rfl
  have hall := Loosening.weight_start tokens
  rw [hjoints] at hall
  have hspread' : (Loosening.ofTokens tokens).Spread s.rest (spread.takeWhile (·.kind ≠ .eof)) :=
    hspread.takeWhile fun t ht => by
      change t = s.final
      rw [ParserState.start_flat numbered_flat, ht]
      rfl
  have hflat : Span.Flat ⟨0, 0, ⟨tokens.length⟩⟩ := ⟨rfl, rfl⟩
  obtain ⟨ys', last', hrun', -, -⟩ :=
    follows ((Nat.zero_add _).trans_le (hall.trans (Nat.le_add_right _ _))) hspread' hflat
  unfold parse
  rw [Loosening.start_spread hspread, hrun']
  exact congrArg (fun ds => Except.ok (Parsed.mk p.stmts ds)) hdiagnostics

/-- Without places the same is said about a text. -/
theorem Diagnostic.anyError_unplaced (ds : List Diagnostic) :
    anyError (ds.map Diagnostic.unplaced) = anyError ds := by
  unfold anyError
  rw [List.any_map]
  exact congrArg ds.any (funext isError_unplaced)

/-- What is read without errors from some tokens is read from others of the same kinds. -/
theorem parse_kinds {file file' : FileId} {tokens tokens' : List Token} {p : Parsed}
    (hkinds : tokens.map (·.kind) = tokens'.map (·.kind)) (h : parse file tokens = .ok p)
    (free : Diagnostic.anyError p.diagnostics = false) :
    ∃ p', parse file' tokens' = .ok p' ∧ Diagnostic.anyError p'.diagnostics = false ∧
      unplace p'.stmts = unplace p.stmts := by
  have hsame := parse_unplaced hkinds file file'
  rw [h] at hsame
  cases h' : parse file' tokens' with
  | error a =>
    rw [h'] at hsame
    cases hsame
  | ok p' =>
    rw [h'] at hsame
    obtain ⟨hstmts, hdiagnostics⟩ := Parsed.mk.inj (Except.ok.inj hsame)
    refine ⟨p', rfl, ?_, hstmts.symm⟩
    rw [← Diagnostic.anyError_unplaced, ← hdiagnostics, Diagnostic.anyError_unplaced, free]

/-- Line breaks directly behind commas, behind binary and assignment operators, and behind colons
other than those in front of the result of a function, the bound of a generic parameter and the type
of a constant one do not matter: the text is read without errors, to the same statements at other
places. -/
theorem parse_loosened {file : FileId} {tokens tokens' : List Token} {p : Parsed}
    (h : parse file tokens = .ok p) (free : Diagnostic.anyError p.diagnostics = false)
    (hloosened : Loosened tokens tokens') :
    ∃ p', parse file tokens' = .ok p' ∧ Diagnostic.anyError p'.diagnostics = false ∧
      unplace p'.stmts = unplace p.stmts := by
  obtain ⟨spread, hspread, hkinds⟩ := hloosened
  obtain ⟨q, hq, hclean, hstmts⟩ := parse_kinds (numbered_kinds tokens).symm h free
  obtain ⟨p', hp', hclean', hstmts'⟩ :=
    parse_kinds hkinds.symm (parse_spread hq hclean hspread) hclean
  exact ⟨p', hp', hclean', hstmts'.trans hstmts⟩

/-- Line breaks behind the colon, the operator and the comma of `val x: int = a + f(b, c)`. -/
theorem parse_loosened_variable : ∃ p p',
    parse ⟨0⟩ (tokensOf [.keyword .val, .ident "x", .symbol .colon, .ident "int", .symbol .assign,
      .ident "a", .symbol .add, .ident "f", .symbol .lParen, .ident "b", .symbol .comma, .ident "c",
      .symbol .rParen]) = .ok p ∧
    parse ⟨0⟩ (tokensOf [.keyword .val, .ident "x", .symbol .colon, .newline, .ident "int",
      .symbol .assign, .ident "a", .symbol .add, .newline, .newline, .ident "f", .symbol .lParen,
      .ident "b", .symbol .comma, .newline, .ident "c", .symbol .rParen]) = .ok p' ∧
    Diagnostic.anyError p'.diagnostics = false ∧ unplace p'.stmts = unplace p.stmts := by
  let tokens := tokensOf [.keyword .val, .ident "x", .symbol .colon, .ident "int", .symbol .assign,
    .ident "a", .symbol .add, .ident "f", .symbol .lParen, .ident "b", .symbol .comma, .ident "c",
    .symbol .rParen]
  let tokens' := tokensOf [.keyword .val, .ident "x", .symbol .colon, .newline, .ident "int",
    .symbol .assign, .ident "a", .symbol .add, .newline, .newline, .ident "f", .symbol .lParen,
    .ident "b", .symbol .comma, .newline, .ident "c", .symbol .rParen]
  obtain ⟨p, hparse, free⟩ :=
    parsesClean_iff.1 (show parsesClean ⟨0⟩ tokens = true by decide +kernel)
  have hspread : (Loosening.ofTokens tokens).Spread (numbered tokens) _ :=
    .keep _ (.keep _ (.cons 1 (fun _ => Or.inr (by decide +kernel)) (.keep _ (.keep _ (.keep _
      (.cons 2 (fun _ => Or.inr (by decide +kernel)) (.keep _ (.keep _ (.keep _
        (.cons 1 (fun _ => Or.inl rfl) (.keep _ (.keep _ .nil))))))))))))
  have hloosened : Loosened tokens tokens' := ⟨_, hspread, by decide +kernel⟩
  obtain ⟨p', hparse', free', hsame⟩ := parse_loosened hparse free hloosened
  exact ⟨p, p', hparse, hparse', free', hsame⟩

/-- A line break behind the colon of the result of a function, of the bound of a generic parameter
or of the type of a constant one is an error: `func f(): int {}`, `trait T<A: B> {}` and
`trait T<const n: int> {}` are read without errors as they stand, but not with one. -/
theorem colons_unloosened :
    (parsesClean ⟨0⟩ (tokensOf [.keyword .func, .ident "f", .symbol .lParen, .symbol .rParen,
        .symbol .colon, .ident "int", .symbol .lBrace, .symbol .rBrace]) = true ∧
      parsesClean ⟨0⟩ (tokensOf [.keyword .func, .ident "f", .symbol .lParen, .symbol .rParen,
        .symbol .colon, .newline, .ident "int", .symbol .lBrace, .symbol .rBrace]) = false) ∧
    (parsesClean ⟨0⟩ (tokensOf [.keyword .trait, .ident "T", .symbol .lAngle, .ident "A",
        .symbol .colon, .ident "B", .symbol .rAngle, .symbol .lBrace, .symbol .rBrace]) = true ∧
      parsesClean ⟨0⟩ (tokensOf [.keyword .trait, .ident "T", .symbol .lAngle, .ident "A",
        .symbol .colon, .newline, .ident "B", .symbol .rAngle, .symbol .lBrace,
        .symbol .rBrace]) = false) ∧
    parsesClean ⟨0⟩ (tokensOf [.keyword .trait, .ident "T", .symbol .lAngle, .keyword .const,
        .ident "n", .symbol .colon, .ident "int", .symbol .rAngle, .symbol .lBrace,
        .symbol .rBrace]) = true ∧
      parsesClean ⟨0⟩ (tokensOf [.keyword .trait, .ident "T", .symbol .lAngle, .keyword .const,
        .ident "n", .symbol .colon, .newline, .ident "int", .symbol .rAngle, .symbol .lBrace,
        .symbol .rBrace]) = false := by
  decide +kernel

end FrontEnd
