import FrontEnd.Proofs.LineBreaks
import FrontEnd.Proofs.Lines

/-!
# Texts that do not depend on each other

Two texts that are read without errors are also read without errors one after the other, and the
statements are the same. The only state that could go from one statement to the next is the half of
a `>>` that closed a list of types.
-/

namespace FrontEnd

/-- Without errors there is nothing to count. -/
theorem endState_count {file : FileId} {tokens : List Token} {p : Parsed}
    (h : parse file tokens = .ok p) (free : Diagnostic.anyError p.diagnostics = false) :
    (endState file tokens).errorCount = 0 :=
  (ParserState.errorFree_iff _).1 (by unfold ParserState.ErrorFree; rwa [(parse_ok h).2])

/-- Places that are moved behind a line break are read alike from there on. -/
theorem ends_behind_line (file : FileId) (ids size : Nat) :
    (Likeness.shift ids (size + 1)).Ends ⟨0, 0, file⟩ ⟨size, 1, file⟩ := by
  rintro ⟨pos, len, origin⟩ _ rfl
  have hleft : (if 0 < pos then (⟨pos, len, origin⟩ : Span) else Span.cover ⟨pos, len, origin⟩
      ⟨0, 0, file⟩) = ⟨pos, len, origin⟩ := by
    split
    · rfl
    · obtain rfl : pos = 0 := by omega
      simp [Span.cover, Span.stop]
  have hright : size < pos + (size + 1) := by omega
  change (Relabeling.shift ids (size + 1)).span (if 0 < pos then _ else _) =
    if size < pos + (size + 1) then _ else _
  rw [hleft, if_pos hright]
  rfl

/-- Tokens and the same tokens moved on. -/
theorem alike_shift (ids bytes : Nat) (tokens : List Token) :
    (Likeness.shift ids bytes).Alike tokens (tokens.map (Relabeling.shift 0 bytes).token) :=
  (List.map_id' _).symm

/-- Values that are moved on, where changing nothing leaves them alone. -/
theorem eq_map_of_alike {α : Type} [Labeled α] (hsame : ∀ a : α, Labeled.relabel .same a = a)
    {ids bytes : Nat} {xs ys : List α} (h : (Likeness.shift ids bytes).Alike xs ys) :
    ys = xs.map (Labeled.relabel (.shift ids bytes)) := by
  have hright : ys.map (Labeled.relabel .same) = ys := by
    rw [List.map_congr_left fun a _ => hsame a, List.map_id']
  exact hright.symm.trans h.symm

/-- Values that are moved on by nothing. -/
theorem eq_of_alike {α : Type} [Labeled α] (hsame : ∀ a : α, Labeled.relabel .same a = a)
    {xs ys : List α} (h : (Likeness.shift 0 0).Alike xs ys) : ys = xs := by
  refine (eq_map_of_alike hsame h).trans ?_
  have hnothing (a : α) : Labeled.relabel (.shift 0 0) a = a := hsame a
  rw [List.map_congr_left fun a _ => hnothing a, List.map_id']

/-- Without its end mark a text goes on with a statement just as with it. -/
theorem Fresh.of_lex {file : FileId} {text : String} {lexed : Lexed} (h : lex file text = .ok lexed)
    (fresh : Fresh lexed.tokens) : Fresh (ParserState.start file lexed.tokens).rest := by
  obtain ⟨⟨_, hsame, htokens⟩, -⟩ := ScansTo.of_lex h
  obtain rfl := Except.ok.inj (h.symm.trans hsame)
  rw [htokens] at fresh
  exact fresh.front

namespace Simulation

/-- A text and the same text with other lines behind it. -/
def above {y : Token} {v : List Token} (newline : y.kind = .newline) (fresh : Fresh v) :
    Simulation :=
  .joining (.shift 0 0) [] ignoresNewlines_nil 0 1 first_le_maxErrors [] (.line newline fresh)

/-- A text and the same text behind another one, in which some warnings were given. -/
def below (ids bytes : Nat) (earlier : List Diagnostic) : Simulation :=
  .joining (.shift ids bytes) [] ignoresNewlines_nil 0 1 first_le_maxErrors earlier .none

end Simulation

section Lines

variable {file : FileId} {tokens tokens' joined : List Token} {p p' : Parsed} {m : Nat}

/-- The first of two texts, with the second one on the lines behind it. -/
theorem first_text {y : Token} {v : List Token} (hparse : parse file tokens = .ok p)
    (free : Diagnostic.anyError p.diagnostics = false) (newline : y.kind = .newline)
    (fresh : Fresh v)
    (hrest : (ParserState.start file joined).rest = (ParserState.start file tokens).rest ++ y :: v)
    (hm : tokens.length + 1 ≤ m) :
    p.stmts.length ≤ tokens.length ∧ ∃ u : ParserState,
      Parse.Statements (Parse.stmtOrStub m (Parse.grammar m))
        (ParserState.start file joined).atStatement p.stmts u.atStatement ∧
      (Simulation.above newline fresh).Crossed y v (endState file tokens) u := by
  have hcount := endState_count hparse free
  have hK : (Simulation.above newline fresh).Continues y v :=
    ⟨newline, id, rfl, fun h => h⟩
  have hlinked :
      (Simulation.above newline fresh).Linked (.start file tokens) (.start file joined) :=
    { sound := ParserState.start_sound file tokens
      final := (ParserState.start_sound file joined).final
      stream := ⟨_, rfl, hrest⟩
      groups := rfl
      brace := rfl
      half := rfl
      ids := fun _ => rfl
      count := rfl
      warned := ⟨[], rfl, rfl⟩
      ends := Likeness.ends_of_alike rfl
      finals := fun hend => absurd (List.cons_ne_nil _ _) hend }
  have hlimit : (endState file tokens).errorCount < 1 := by omega
  obtain ⟨zs, u, hzs, halike, hcrossed, hlength⟩ := Parse.file_follow hK (Parse.grammar_follows hm)
    hm hlinked (parse_ok hparse).1 (Parse.no_stray_of_errorFree hcount) hlimit (Or.inl hcount)
  obtain rfl : zs = p.stmts := eq_of_alike Node.relabel_same halike
  exact ⟨Nat.lt_succ_iff.1 hlength, u, hzs, hcrossed⟩

/-- The second of two texts, read where the first one has ended. -/
theorem second_text {ids bytes : Nat} {earlier : List Diagnostic} {u : ParserState}
    (hparse' : parse file tokens' = .ok p') (free' : Diagnostic.anyError p'.diagnostics = false)
    (hlinked : (Simulation.below ids bytes earlier).Linked (.start file tokens') u) {bound : Nat}
    (hbound : tokens'.length + 1 ≤ bound) (hm : tokens'.length + 1 ≤ m) :
    ∃ u', Parse.fileStmts bound m u.atStatement =
        .ok (p'.stmts.map (Node.relabel (.shift ids bytes))) u' ∧ u'.errorCount = 0 := by
  have hcount := endState_count hparse' free'
  have hgroups := (endState_frame hparse').1
  have hfollows : Follows (Simulation.below ids bytes earlier) 0 .slack .slack (fun _ => True)
      (Parse.file (tokens'.length + 1))
      (do
        Parse.skipTerminators
        Parse.fileStmts bound m) :=
    FollowsTo.bind Parse.skipTerminators_follows fun _ _ _ =>
      Parse.fileStmts_follows trivial hbound hm
  have hfree : ¬(Simulation.below ids bytes earlier).Lost (.start file tokens') := by
    rintro (⟨-, hopen | hcut⟩ | hlimit)
    · exact hopen rfl
    · exact hcut
    · change 1 ≤ 0 at hlimit
      omega
  have pair := hfollows.pairs hlinked trivial hfree (fun _ hended => hended.1 rfl) (Nat.zero_le _)
  rw [(parse_ok hparse').1] at pair
  rcases pair with (⟨-, hopen | hcut⟩ | hlimit) | ⟨-, hended⟩ | ⟨ys, u', hrun, halike, hlinked'⟩
  · exact absurd hgroups hopen
  · exact hcut.elim
  · change 1 ≤ (endState file tokens').errorCount at hlimit
    omega
  · exact absurd rfl hended.1
  · obtain rfl := eq_map_of_alike Node.relabel_same halike
    exact ⟨u', hrun, hlinked'.count.trans hcount⟩

/-- Two texts one after the other. -/
theorem both_texts {size : Nat} (hparse : parse file tokens = .ok p)
    (free : Diagnostic.anyError p.diagnostics = false) (hparse' : parse file tokens' = .ok p')
    (free' : Diagnostic.anyError p'.diagnostics = false)
    (whole : (endState file tokens).halfShift = false)
    (hrest : (ParserState.start file joined).rest = (ParserState.start file tokens).rest ++
      ⟨.newline, size, 1, file⟩ ::
        (ParserState.start file tokens').rest.map (Relabeling.shift 0 (size + 1)).token)
    (hfinal : (ParserState.start file joined).final =
      (Relabeling.shift 0 (size + 1)).token (ParserState.start file tokens').final)
    (hlength : joined.length = tokens.length + tokens'.length) :
    ∃ q, parse file joined = .ok q ∧ Diagnostic.anyError q.diagnostics = false ∧
      q.stmts = p.stmts ++ p'.stmts.map (Node.relabel (.shift (endState file tokens).nextId
        (size + 1))) := by
  have hmoved := alike_shift (endState file tokens).nextId (size + 1)
    (ParserState.start file tokens').rest
  have fresh := (Parse.fresh_of_errorFree (parse_ok hparse').1
    (endState_count hparse' free')).alike hmoved
  obtain ⟨hshort, u, hstatements, hcrossed⟩ := first_text (m := joined.length + 1) hparse free rfl
    fresh hrest (by omega)
  have hid : u.nextId = (endState file tokens).nextId :=
    (congrArg NodeId.index (hcrossed.ids 0)).symm
  have sound : (ParserState.start file joined).atStatement.Sound :=
    (ParserState.skipWhile_onward _ _).sound (ParserState.start_sound file joined)
  have hsame : u.final = (ParserState.start file joined).final := (hstatements.onward sound).1.final
  obtain ⟨hgroups, hbrace⟩ := endState_frame hparse
  have hlinked : (Simulation.below (endState file tokens).nextId (size + 1) u.warnings).Linked
      (.start file tokens') u := by
    refine hcrossed.linked hgroups hbrace whole ?_ rfl ?_ rfl
      ⟨_, hmoved, (List.append_nil _).symm⟩ ?_ (ends_behind_line file _ size) ?_
    · rw [hsame]
      exact (ParserState.start_sound file joined).final
    · exact (endState_count hparse free).symm
    · intro i
      have hmoved : 0 + i + (endState file tokens).nextId = u.nextId + i := by omega
      exact congrArg NodeId.mk hmoved
    · intro _
      rw [hsame, hfinal]
      rfl
  have hroom : p.stmts.length + (joined.length + 1 - p.stmts.length) = joined.length + 1 := by omega
  have hbound : tokens'.length + 1 ≤ joined.length + 1 := by omega
  have hm : tokens'.length + 1 ≤ joined.length + 1 - p.stmts.length := by omega
  obtain ⟨u', hrun, hcount⟩ := second_text hparse' free' hlinked hbound hm
  have hfile := Parse.fileStmts_append hstatements hrun
  rw [hroom] at hfile
  refine ⟨_, parse_of_file hfile, ?_, rfl⟩
  exact (ParserState.errorFree_iff u').2 hcount

end Lines

/-- Two texts that are read without errors are read one after the other, unless the first one ends
with a half of `>>`. -/
theorem parse_lines {file : FileId} {text text' : String} {lexed lexed' : Lexed} {p p' : Parsed}
    (hlex : lex file text = .ok lexed) (hparse : parse file lexed.tokens = .ok p)
    (free : Diagnostic.anyError p.diagnostics = false)
    (hlex' : lex file text' = .ok lexed') (hparse' : parse file lexed'.tokens = .ok p')
    (free' : Diagnostic.anyError p'.diagnostics = false)
    (whole : (endState file lexed.tokens).halfShift = false) :
    ∃ joined q, lex file (text ++ "\n" ++ text') = .ok joined ∧
      parse file joined.tokens = .ok q ∧ Diagnostic.anyError q.diagnostics = false ∧
      q.stmts = p.stmts ++ p'.stmts.map (Node.relabel (.shift
        (endState file lexed.tokens).nextId (Text.byteSize text.toList + 1))) := by
  obtain ⟨hscans, hlength, -⟩ := ScansTo.of_lex hlex
  obtain ⟨hscans', hlength', hfinal'⟩ := ScansTo.of_lex hlex'
  obtain ⟨joined, hjoined, hlengthJoined, hrest, hfinal⟩ := (hscans.line hscans' rfl).start
  have hsum : joined.tokens.length = lexed.tokens.length + lexed'.tokens.length := by
    rw [hlengthJoined, hlength, hlength', List.length_append, List.length_cons, List.length_map]
    omega
  rw [Text.byteSize_line] at hfinal
  obtain ⟨q, hq, hfree, hstmts⟩ := both_texts hparse free hparse' free' whole hrest
    (by rw [hfinal, hfinal']; rfl) hsum
  exact ⟨joined, q, hjoined, hq, hfree, hstmts⟩

/-- Whether a text ends with no half of `>>` left over. -/
def endsWhole (file : FileId) (text : String) : Bool :=
  match lex file text with
  | .error _ => false
  | .ok lexed => !(endState file lexed.tokens).halfShift

theorem halfShift_of_endsWhole {file : FileId} {text : String} {lexed : Lexed}
    (h : endsWhole file text = true) (hlex : lex file text = .ok lexed) :
    (endState file lexed.tokens).halfShift = false := by
  unfold endsWhole at h
  rw [hlex] at h
  simpa using h

example : endsWhole ⟨0⟩ "x as A<B<int>>" = true ∧ endsWhole ⟨0⟩ "x as Foo<int>> 5" = false := by
  decide +kernel

/-- A cast whose type ends with both halves of a `>>`, and a variable of such a type behind it. -/
theorem parse_lines_nested : ∃ lexed lexed' joined p p' q,
    lex ⟨0⟩ "x as A<B<int>>" = .ok lexed ∧ parse ⟨0⟩ lexed.tokens = .ok p ∧
      lex ⟨0⟩ "val y: A<B<int>> = 1" = .ok lexed' ∧ parse ⟨0⟩ lexed'.tokens = .ok p' ∧
      lex ⟨0⟩ ("x as A<B<int>>" ++ "\n" ++ "val y: A<B<int>> = 1") = .ok joined ∧
      parse ⟨0⟩ joined.tokens = .ok q ∧ Diagnostic.anyError q.diagnostics = false ∧
      q.stmts = p.stmts ++ p'.stmts.map (Node.relabel (.shift
        (endState ⟨0⟩ lexed.tokens).nextId (Text.byteSize "x as A<B<int>>".toList + 1))) := by
  obtain ⟨lexed, p, hlex, hparse, free⟩ :=
    exists_of_readsClean ⟨0⟩ "x as A<B<int>>" (by decide +kernel)
  obtain ⟨lexed', p', hlex', hparse', free'⟩ :=
    exists_of_readsClean ⟨0⟩ "val y: A<B<int>> = 1" (by decide +kernel)
  have whole : endsWhole ⟨0⟩ "x as A<B<int>>" = true := by decide +kernel
  obtain ⟨joined, q, hjoined, hq, hfree, hstmts⟩ := parse_lines hlex hparse free hlex' hparse' free'
    (halfShift_of_endsWhole whole hlex)
  exact ⟨lexed, lexed', joined, p, p', q, hlex, hparse, hlex', hparse', hjoined, hq, hfree, hstmts⟩

/-- A half of `>>` goes from one statement to the next: behind a cast that used up only one half,
the `>>` of the next line is taken for the other one. -/
theorem parse_lines_torn : readsClean ⟨0⟩ "x as Foo<int>> 5" = true ∧
    readsClean ⟨0⟩ "val y: A<B<int>> = 1" = true ∧
    readsClean ⟨0⟩ ("x as Foo<int>> 5" ++ "\n" ++ "val y: A<B<int>> = 1") = false := by
  refine ⟨?_, ?_, ?_⟩ <;> decide +kernel

end FrontEnd
