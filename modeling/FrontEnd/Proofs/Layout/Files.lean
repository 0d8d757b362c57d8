import FrontEnd.Proofs.Following.Files
import FrontEnd.Proofs.Layout.States
import FrontEnd.Proofs.Rescanning

/-!
# Layout does not change a program

The parser starts from the tokens of a file, and without places these are nothing but their kinds.
So the outcome for a file depends only on the kinds of its tokens. A text that is written anew, with
its tokens between single blanks and without comments, has the same kinds of tokens, and so it is
the same program.
-/

namespace FrontEnd

/-- The outcome for a file without its places: statements with the numbers of their nodes, and what
is said about the text. -/
def unplacedOutcome : Except ParseAbort Parsed → Except ParseAbort Parsed
  | .ok p => .ok ⟨unplace p.stmts, p.diagnostics.map Diagnostic.unplaced⟩
  | .error a => .error ⟨a.error.unplaced, a.diagnostics.map Diagnostic.unplaced⟩

/-- Without places, tokens are their kinds. -/
theorem unplace_tokens (tokens : List Token) :
    unplace tokens = (tokens.map (·.kind)).map fun kind => ⟨kind, default⟩ := by
  rw [List.map_map]
  rfl

/-- Without places, the state before the first token depends only on the kinds of the tokens. -/
theorem ParserState.start_unplaced {tokens tokens' : List Token}
    (h : tokens.map (·.kind) = tokens'.map (·.kind)) (file file' : FileId) :
    (start file tokens).unplaced = (start file' tokens').unplaced := by
  have hfinal (file : FileId) (tokens : List Token) :
      unplace (start file tokens).final = ⟨.eof, default⟩ := by
    have hkind : (start file tokens).final.kind = .eof := by
      unfold start
      dsimp only
      cases hfind : tokens.find? (·.kind = .eof) with
      | none => rfl
      | some t => simpa using List.find?_some hfind
    exact congrArg (Token.mk · default) hkind
  have hrest (file : FileId) (tokens : List Token) :
      unplace (start file tokens).rest = (unplace tokens).takeWhile (·.kind ≠ .eof) :=
    (takeWhile_unplace (fun kind => kind ≠ .eof) tokens).symm
  have htokens : unplace tokens = unplace tokens' := by
    rw [unplace_tokens, unplace_tokens, h]
  unfold unplaced
  rw [hfinal, hfinal, hrest, hrest, htokens]
  rfl

/-- The outcome for a file depends only on the kinds of its tokens. -/
theorem parse_unplaced {tokens tokens' : List Token}
    (h : tokens.map (·.kind) = tokens'.map (·.kind)) (file file' : FileId) :
    unplacedOutcome (parse file tokens) = unplacedOutcome (parse file' tokens') := by
  have hlength : tokens.length + 1 = tokens'.length + 1 := by
    simpa using congrArg List.length h
  have hfollows : Follows unplacedComparison 0 .slack .slack (fun _ => True)
      (Parse.file (tokens.length + 1)) (Parse.file (tokens'.length + 1)) :=
    Parse.file_follows trivial hlength
  have hstart : SamePlaced (.start file tokens) (.start file' tokens') :=
    ⟨ParserState.start_final file tokens, ParserState.start_unplaced h file file'⟩
  have pair := hfollows.pairs hstart trivial id (fun _ => id) (Nat.zero_le _)
  unfold parse
  cases hrun : Parse.file (tokens.length + 1) (ParserState.start file tokens) with
  | ok stmts s =>
    rw [hrun] at pair
    obtain ⟨stmts', s', hrun', hstmts, hsame⟩ := (pair.resolve_left id).resolve_left (·.2)
    rw [hrun']
    exact congrArg Except.ok (congr (congrArg Parsed.mk hstmts)
      (congrArg ParserState.diagnostics hsame.2))
  | error e s =>
    rw [hrun] at pair
    obtain ⟨e', s', hrun', he, hsame⟩ := pair.resolve_left id
    rw [hrun']
    have hdiagnostics : (s.diagnostics ++ [e.toDiagnostic]).map Diagnostic.unplaced =
        (s'.diagnostics ++ [e'.toDiagnostic]).map Diagnostic.unplaced := by
      have hbefore : s.diagnostics.map Diagnostic.unplaced =
          s'.diagnostics.map Diagnostic.unplaced := congrArg ParserState.diagnostics hsame.2
      rw [List.map_append, List.map_append, hbefore, List.map_singleton, List.map_singleton,
        ← e.toDiagnostic_unplaced, ← e'.toDiagnostic_unplaced, he]
    exact congrArg Except.error (congr (congrArg ParseAbort.mk he) hdiagnostics)

/-- The parser goes by the kinds of tokens and never by their places. In particular a text that can
be scanned and the text of its tokens between single blanks are read alike: to the same statements
with the same numbers and the same messages and advice in the same order, or they are given up with
the same message. -/
theorem parse_layout (file : FileId) :
    (∀ tokens tokens' : List Token, tokens.map (·.kind) = tokens'.map (·.kind) →
      unplacedOutcome (parse file tokens) = unplacedOutcome (parse file tokens')) ∧
    ∀ (text : String) (lexed : Lexed), lex file text = .ok lexed →
      ∃ parts again, cutOut? text lexed.tokens = some parts ∧
        lex file (" ".intercalate parts) = .ok again ∧
        unplacedOutcome (parse file again.tokens) = unplacedOutcome (parse file lexed.tokens) := by
  refine ⟨fun tokens tokens' h => parse_unplaced h file file, fun text lexed h => ?_⟩
  obtain ⟨again, hagain, hkinds⟩ := lex_spelled h
  exact ⟨_, again, cutOut?_lex h, hagain, parse_unplaced hkinds file file⟩

/-- A call over two lines with a comment, and a declaration without a name. -/
theorem parse_layout_commented : ∃ lexed again,
    lex ⟨0⟩ "f(1,  /* two */\n 2)\nval = 3" = .ok lexed ∧
      lex ⟨0⟩ "f ( 1 , \n 2 ) \n val = 3 " = .ok again ∧
      unplacedOutcome (parse ⟨0⟩ again.tokens) = unplacedOutcome (parse ⟨0⟩ lexed.tokens) := by
  obtain ⟨lexed, hlex⟩ : ∃ lexed, lex ⟨0⟩ "f(1,  /* two */\n 2)\nval = 3" = .ok lexed := ⟨_, rfl⟩
  obtain ⟨parts, again, hparts, hagain, hsame⟩ := (parse_layout ⟨0⟩).2 _ lexed hlex
  have hlexed := hlex
  cases hlexed
  obtain rfl : ["f", "(", "1", ",", "\n", "2", ")", "\n", "val", "=", "3", ""] = parts :=
    Option.some.inj (Eq.trans (by decide +kernel) hparts)
  exact ⟨_, again, hlex, hagain, hsame⟩

end FrontEnd
