import FrontEnd.Proofs.Following.Calculus

/-!
# Single steps side by side

The steps every parser is made of are followed step by step. Looking at the token at hand and
stepping over it keeps the states linked; separators slacken the grip, since the right text may
have more of them; tokens that have to be there make it firm again.
-/

namespace FrontEnd

/-- Tokens inside a group, which leave it neither open nor closed. -/
def TokenKind.Inner (k : TokenKind) : Prop :=
  k.isOpening = false ∧ k.isClosing = false ∧ k ≠ .eof

instance (k : TokenKind) : Decidable k.Inner := inferInstanceAs (Decidable (_ ∧ _ ∧ _))

namespace Parse

open FollowsTo

variable {α : Type} [Labeled α] {K : Comparison} {δ : Nat} {a d : Grip}
  {b : α → Grip} {pre : ParserState → Prop}

/-- The token at hand is looked at; at the end of the left text it may be a line break on the
right. -/
theorem current_bind {f f' : Token → Parser α}
    (hf : ∀ x y, K.like.Alike x y →
      FollowsTo K δ a b (fun s => pre s ∧ s.current = x) (f x) (f' y))
    (hend : a = .firm → ∀ x y, x.kind = .eof → y.kind = .newline →
      FollowsTo K δ a b (fun s => pre s ∧ s.current = x) (f x) (f' y)) :
    FollowsTo K δ a b pre (current >>= f) (current >>= f') where
  runs := fun s eof hpre => by
    obtain ⟨y, hy⟩ := K.like.exists_alike s.current
    exact (hf s.current y hy).runs eof ⟨hpre, rfl⟩
  pairs := fun s t hlinked hpre hlost hgrip hδ => by
    by_cases hended : K.Ended s
    · have ha : a = .firm := by
        cases a with
        | firm => rfl
        | slack => exact absurd hended (hgrip rfl)
      have hkind : s.current.kind = .eof := hlinked.kind_eof hended
      exact (hend ha s.current t.current hkind (K.kind_ended hlinked hended)).pairs hlinked
        ⟨hpre, rfl⟩ hlost hgrip hδ
    · exact (hf s.current t.current (K.current hlinked hended)).pairs hlinked ⟨hpre, rfl⟩
        hlost hgrip hδ

/-- The kind of the token at hand is looked at. -/
theorem kind_bind {f f' : TokenKind → Parser α}
    (hf : ∀ k, FollowsTo K δ a b (fun s => pre s ∧ s.kind = k) (f k) (f' k))
    (hend : a = .firm →
      FollowsTo K δ a b (fun s => pre s ∧ s.kind = .eof) (f .eof) (f' .newline)) :
    FollowsTo K δ a b pre (kind >>= f) (kind >>= f') := by
  change FollowsTo K δ a b pre (current >>= fun x => f x.kind) (current >>= fun y => f' y.kind)
  refine current_bind (fun x y hxy => ?_) fun ha x y hx hy => ?_
  · rw [← Likeness.Alike.kind hxy]
    exact (hf x.kind).mono fun s hs => ⟨hs.1, congrArg Token.kind hs.2⟩
  · rw [hx, hy]
    exact (hend ha).mono fun s hs => ⟨hs.1, (congrArg Token.kind hs.2).trans hx⟩

/-- The place of the token at hand is looked at. -/
theorem here_bind {f f' : Span → Parser α}
    (hf : ∀ x y, K.like.Alike x y → FollowsTo K δ .slack b pre (f x) (f' y)) :
    FollowsTo K δ .slack b pre (here >>= f) (here >>= f') :=
  peek (·.current.span) (fun _ _ hlinked _ hgrip => hlinked.span (hgrip rfl))
    fun x y hxy => (hf x y hxy).mono fun _ hs => hs.1

/-- So it is with any grip, where a token is at hand. -/
theorem place_bind (hpre : ∀ s, pre s → s.kind ≠ .eof) {f f' : Span → Parser α}
    (hf : ∀ x y, K.like.Alike x y → FollowsTo K δ a b pre (f x) (f' y)) :
    FollowsTo K δ a b pre (here >>= f) (here >>= f') := by
  refine peek (·.current.span) (fun s t hlinked hs _ => hlinked.span fun hended => ?_)
    fun x y hxy => (hf x y hxy).mono fun _ hs => hs.1
  exact hpre s hs (hlinked.kind_eof hended)

/-- It is asked whether the token at hand is of some kind. -/
theorem at_bind {k : TokenKind} (hk : k = .eof ∨ k = .newline → a = .slack)
    {f f' : Bool → Parser α}
    (hf : ∀ found,
      FollowsTo K δ a b (fun s => pre s ∧ (s.kind == k) = found) (f found) (f' found)) :
    FollowsTo K δ a b pre (at? k >>= f) (at? k >>= f') := by
  refine peek (·.kind == k) (fun s t hlinked _ hgrip => ?_) fun x y hxy => ?_
  · change (s.kind == k) = (t.kind == k)
    by_cases hended : K.Ended s
    · have ha : a ≠ .slack := fun ha => hgrip ha hended
      rw [K.kind_ended hlinked hended, hlinked.kind_eof hended,
        beq_eq_false_iff_ne.2 fun h => ha (hk (Or.inl h.symm)),
        beq_eq_false_iff_ne.2 fun h => ha (hk (Or.inr h.symm))]
    · rw [hlinked.kind hended]
  · obtain rfl : x = y := hxy
    exact hf x

/-- The same for a symbol. -/
theorem atSymbol_bind {mark : Symbol} {f f' : Bool → Parser α}
    (hf : ∀ found, FollowsTo K δ a b (fun s => pre s ∧ (s.kind == .symbol mark) = found) (f found)
      (f' found)) :
    FollowsTo K δ a b pre (atSymbol mark >>= f) (atSymbol mark >>= f') :=
  at_bind (by rintro (h | h) <;> cases h) hf

/-- A token inside a group is stepped over. -/
theorem advance_follows (hkind : ∀ s, pre s → s.kind.Inner) :
    Follows K 0 a .firm pre advance advance := by
  refine update (fun s eof hpre => ?_) fun s t hlinked hpre _ _ _ => ?_
  · exact ⟨s.advance_onward, s.advance_groups, s.advance_brace, fun hnil =>
      absurd hnil (ParserState.rest_ne_nil eof (hkind s hpre).2.2)⟩
  · obtain ⟨hopening, hclosing, heof⟩ := hkind s hpre
    exact (K.advance hlinked (ParserState.rest_ne_nil (K.eof hlinked) heof)
      ⟨hopening, hclosing⟩).imp_right Or.inr

/-- Separators are stepped over. -/
theorem skipWhile_follows {p : TokenKind → Bool} (hnewline : p .newline = true)
    (hp : ∀ k, p k = true → k.isOpening = false ∧ k.isClosing = false) :
    Follows K 0 a .slack pre (modify (ParserState.skipWhile p))
      (modify (ParserState.skipWhile p)) := by
  refine update (fun s _ _ => ?_) fun s t hlinked _ _ _ _ => ?_
  · exact ⟨ParserState.skipWhile_onward p s, rfl, rfl, fun _ => ⟨rfl, fun _ => rfl⟩⟩
  · exact Or.inr ((K.skip hlinked hnewline hp).imp_left fun hend => ⟨rfl, hend⟩)

/-- Line breaks are skipped alike. -/
theorem skipNewlines_follows : Follows K 0 a .slack pre skipNewlines skipNewlines := by
  refine skipWhile_follows rfl fun k hk => ?_
  obtain rfl : k = .newline := of_decide_eq_true hk
  exact ⟨rfl, rfl⟩

/-- So are the ends of statements. -/
theorem skipTerminators_follows : Follows K 0 a .slack pre skipTerminators skipTerminators := by
  refine skipWhile_follows rfl fun k hk => ?_
  rcases of_decide_eq_true hk with rfl | rfl <;> exact ⟨rfl, rfl⟩

/-- So are the separators of entries. -/
theorem skipSeparators_follows : Follows K 0 a .slack pre skipSeparators skipSeparators := by
  refine skipWhile_follows rfl fun k hk => ?_
  rcases of_decide_eq_true hk with rfl | rfl | rfl <;> exact ⟨rfl, rfl⟩

/-- What looking for a token does. -/
theorem accept_run (k : TokenKind) (s : ParserState) :
    accept k s = if s.kind = k then .ok true s.advance else .ok false s := by
  change (if (s.kind == k) = true then _ else _ : Parser Bool) s = _
  by_cases hk : s.kind = k
  · rw [if_pos hk, if_pos (beq_iff_eq.2 hk)]
    rfl
  · rw [if_neg hk, if_neg (mt beq_iff_eq.1 hk)]
    rfl

/-- What asking for a token does. -/
theorem expect_run (k : TokenKind) (s : ParserState) : expect k s =
    if s.kind = k then .ok s.current.span s.advance
    else .error (s.expectedError (quoted k)) s := by
  change (if (s.kind == k) = true then _ else _ : Parser Span) s = _
  by_cases hk : s.kind = k
  · rw [if_pos hk, if_pos (beq_iff_eq.2 hk)]
    rfl
  · rw [if_neg hk, if_neg (mt beq_iff_eq.1 hk)]
    rfl

/-- A token is stepped over if it is there. -/
theorem accept_follows {k : TokenKind} (hk : k.Inner ∧ k ≠ .newline) :
    Follows K 0 a a pre (accept k) (accept k) := by
  have hkind : k = .eof ∨ k = .newline → Grip.firm = .slack := by
    rintro (h | h)
    · exact absurd h hk.1.2.2
    · exact absurd h hk.2
  refine of_firm (at_bind hkind fun found => ite (fun h => ?_) fun _ => result rfl)
  refine bind (advance_follows fun s hs => ?_) fun _ _ _ => result rfl
  rw [eq_of_beq (hs.2.trans h)]
  exact hk.1

/-- A symbol is accepted alike. -/
theorem acceptSymbol_follows {mark : Symbol} (hk : (TokenKind.symbol mark).Inner) :
    Follows K 0 a a pre (acceptSymbol mark) (acceptSymbol mark) :=
  accept_follows ⟨hk, (by simp)⟩

/-- The error that something else was expected is fatal at the end of the text. -/
theorem expectedError_isFatal (s : ParserState) (what : String) :
    (s.expectedError what).isFatal = (s.kind == .eof) := rfl

/-- That something else was expected is found out on both sides. -/
theorem expected_linked {s t : ParserState} (hlinked : K.Linked s t) (what : String) :
    K.Given (s.expectedError what) s ∨ K.Errors (s.expectedError what) (t.expectedError what) := by
  by_cases hended : K.Ended s
  · refine Or.inl (K.ended_given hended ?_)
    rw [expectedError_isFatal, hlinked.kind_eof hended]
    rfl
  · have hthrows := K.throws (.expected what s.kind) hlinked hended
    unfold ParserState.expectedError
    rwa [hlinked.kind hended]

/-- Something else was expected: both sides fail, at the end of the text for good. -/
theorem failExpected_follows {what : String} :
    FollowsTo K δ a b pre (failExpected what : Parser α) (failExpected what) where
  runs := fun s eof _ => by
    refine ⟨.refl s, List.drop_suffix _ _, fun hnil => ?_⟩
    rw [expectedError_isFatal, ParserState.kind_of_rest_nil eof hnil]
    rfl
  pairs := fun _ t hlinked _ _ _ _ =>
    (expected_linked hlinked what).imp_right fun he => ⟨_, t, rfl, he, hlinked⟩

/-- A parser that did not advance fails for good, on both sides if the bounds are the same. -/
theorem stalled_follows {q : Nat → Parser α} (hq : q 0 = stalled) {m : Nat} (hm : K.Bounds 0 m) :
    FollowsTo K δ a b pre stalled (q m) where
  runs := fun s _ _ => ⟨.refl s, List.drop_suffix _ _, fun _ => rfl⟩
  pairs := fun s t hlinked _ _ _ _ => by
    rcases K.bounds_zero hm with rfl | hgiven
    · rw [hq]
      by_cases hended : K.Ended s
      · exact Or.inl (K.ended_given hended rfl)
      · exact (K.throws .stalled hlinked hended).imp_right fun he => ⟨_, t, rfl, he, hlinked⟩
    · exact Or.inl (hgiven s _ rfl)

/-- A token that has to be at hand. -/
theorem expect_follows {k : TokenKind} (hk : k.Inner ∧ k ≠ .newline) :
    Follows K 0 a .firm pre (expect k) (expect k) := by
  refine of_slack (at_bind (fun _ => rfl) fun found => ite (fun h => ?_)
    fun _ => failExpected_follows)
  refine here_bind fun x y hxy => ?_
  refine bind (advance_follows fun s hs => ?_) fun _ _ _ => result hxy
  rw [eq_of_beq (hs.2.trans h)]
  exact hk.1

/-- A symbol is expected alike. -/
theorem expectSymbol_follows {mark : Symbol} (hk : (TokenKind.symbol mark).Inner) :
    Follows K 0 a .firm pre (expectSymbol mark) (expectSymbol mark) :=
  expect_follows ⟨hk, (by simp)⟩

/-- So is a keyword. -/
theorem expectKeyword_follows {word : Keyword} :
    Follows K 0 a .firm pre (expectKeyword word) (expectKeyword word) :=
  expect_follows ⟨⟨rfl, rfl, (by simp)⟩, (by simp)⟩

/-- A name that has to be at hand. -/
theorem expectIdent_follows : Follows K 0 a .firm pre expectIdent expectIdent := by
  refine of_slack (current_bind (fun x y hxy => ?_) (by simp))
  obtain ⟨kind, span⟩ := x
  obtain ⟨kind', span'⟩ := y
  obtain rfl : kind = kind' := Likeness.Alike.kind hxy
  have hspan : K.like.Alike span span' := Likeness.Alike.span hxy
  cases kind with
  | ident name =>
    refine bind (advance_follows fun s hs => ?_) fun _ _ _ => result ?_
    · unfold ParserState.kind
      rw [hs.2]
      exact ⟨rfl, rfl, (by simp)⟩
    · exact (congrArg (Ident.mk name) hspan :)
  | _ => exact failExpected_follows

/-- Problems are recorded on both sides. -/
theorem record_follows {problem : SyntaxProblem} {span span' : Span} (hrecords : K.Records problem)
    (hspan : K.like.Alike span span') :
    Follows K 0 a a pre (record ⟨problem, span⟩) (record ⟨problem, span'⟩) :=
  update (fun s _ _ => ⟨s.report_onward _, rfl, rfl, fun _ => ⟨rfl, id⟩⟩)
    fun _ _ hlinked _ _ _ _ => (K.record hrecords hlinked hspan).imp_right Or.inr

/-- Something else was expected, which is recorded unless the text ends here. -/
theorem reportExpected_run (what : String) (s : ParserState) : reportExpected what s =
    if s.kind = .eof then .error (s.expectedError what) s
    else .ok () (s.record (s.expectedError what)) := by
  have hfatal : (s.expectedError what).isFatal = (s.kind == .eof) := rfl
  change (if (s.expectedError what).isFatal = true then _ else _ : Parser Unit) s = _
  rw [hfatal]
  by_cases heof : s.kind = .eof
  · rw [if_pos (beq_iff_eq.2 heof), if_pos heof]
    rfl
  · rw [if_neg (mt beq_iff_eq.1 heof), if_neg heof]
    rfl

/-- That something else was expected is recorded alike. -/
theorem reportExpected_follows {what : String}
    (hrecords : ∀ found, K.Records (.expected what found)) :
    Follows K 0 a .firm pre (reportExpected what) (reportExpected what) where
  runs := fun s eof _ => by
    rw [reportExpected_run]
    split
    · exact ⟨.refl s, List.suffix_refl _, fun _ => beq_iff_eq.2 ‹_›⟩
    · exact ⟨s.report_onward _, rfl, rfl,
        fun hnil => absurd (ParserState.kind_of_rest_nil eof hnil) ‹_›⟩
  pairs := fun s t hlinked _ _ _ _ => by
    rw [reportExpected_run, reportExpected_run]
    by_cases hended : K.Ended s
    · rw [if_pos (hlinked.kind_eof hended)]
      exact Or.inl (K.ended_given hended (beq_iff_eq.2 (hlinked.kind_eof hended)))
    · rw [hlinked.kind hended]
      split
      · exact (expected_linked hlinked what).imp_right fun he => ⟨_, t, rfl, he, hlinked⟩
      · have hrecord := K.record (hrecords s.kind) hlinked (hlinked.span hended)
        unfold ParserState.expectedError
        rw [hlinked.kind hended]
        exact hrecord.imp_right fun hlinked' => Or.inr ⟨(), _, rfl, rfl, hlinked'⟩

/-- An error is recorded at a token, whose place is looked at afterwards. -/
theorem reportExpected_here_bind {what : String} {f f' : Span → Parser α}
    (hrecords : ∀ found, K.Records (.expected what found))
    (hf : ∀ x y, K.like.Alike x y → FollowsTo K 0 .firm b (fun _ => True) (f x) (f' y)) :
    FollowsTo K 0 a b pre (reportExpected what >>= fun _ => here >>= f)
      (reportExpected what >>= fun _ => here >>= f') := by
  refine bind_known (fun _ s => s.kind ≠ .eof) (reportExpected_follows hrecords) ?_ fun _ _ _ => ?_
  · intro s _ s' _ _ hrun
    rw [reportExpected_run] at hrun
    split at hrun
    · cases hrun
    · cases hrun
      assumption
  · exact place_bind (fun _ hs => hs) fun x y hxy => (hf x y hxy).anywhere

/-- A group is left through its closing symbol, or forgotten with an error. -/
theorem close_run (mark : Symbol) (s : ParserState) : close mark s =
    if s.kind = .symbol mark then .ok true s.closeGroup.advance
    else if s.kind = .eof then
      .error (s.closeGroup.expectedError (quoted (.symbol mark))) s.closeGroup
    else .ok false (s.closeGroup.record (s.closeGroup.expectedError (quoted (.symbol mark)))) := by
  change EStateM.bind (accept (.symbol mark)) _ s.closeGroup = _
  unfold EStateM.bind
  rw [accept_run, s.closeGroup_kind]
  by_cases hmark : s.kind = .symbol mark
  · rw [if_pos hmark, if_pos hmark]
    rfl
  · rw [if_neg hmark, if_neg hmark]
    change EStateM.bind (reportExpected _) _ s.closeGroup = _
    unfold EStateM.bind
    rw [reportExpected_run, s.closeGroup_kind]
    by_cases heof : s.kind = .eof
    · rw [if_pos heof, if_pos heof]
    · rw [if_neg heof, if_neg heof]
      rfl

/-- A closing delimiter is stepped over behind its group, or reported there. -/
theorem closeStrict_run (mark : Symbol) (s : ParserState) : closeStrict mark s =
    if s.kind = .symbol mark then .ok () s.closeGroup.advance
    else .error (s.closeGroup.expectedError (quoted (.symbol mark))) s.closeGroup := by
  change EStateM.map _ (expect (.symbol mark)) s.closeGroup = _
  unfold EStateM.map
  rw [expect_run, s.closeGroup_kind]
  by_cases hmark : s.kind = .symbol mark
  · rw [if_pos hmark, if_pos hmark]
  · rw [if_neg hmark, if_neg hmark]

/-- The state behind a closing symbol. -/
theorem leave_okRun {s : ParserState} {mark : Symbol} (eof : s.final.kind = .eof)
    (hkind : s.kind = .symbol mark) : OkRun 1 a d s s.closeGroup.advance := by
  refine ⟨s.closeGroup_onward.trans s.closeGroup.advance_onward, ?_, ?_, fun hnil => ?_⟩
  · rw [ParserState.advance_groups, ParserState.closeGroup_groups]
  · rw [ParserState.advance_brace, ParserState.closeGroup_brace]
  · rw [ParserState.kind_of_rest_nil eof hnil] at hkind
    cases hkind

/-- No run is at its end inside a group, unless it is lost. -/
theorem not_ended {s : ParserState} (hlost : ¬K.Lost s) (hgroups : 1 ≤ s.groups.length) :
    ¬K.Ended s :=
  fun hended => hlost (K.ended_lost hended (List.length_pos_iff.1 hgroups))

/-- A closing symbol on both sides. -/
theorem leave_linked {s t : ParserState} {mark : Symbol} (hlinked : K.Linked s t)
    (hkind : s.kind = .symbol mark) (hclosing : (TokenKind.symbol mark).isClosing = true)
    (hgroups : 1 ≤ s.groups.length) :
    K.Lost s.closeGroup.advance ∨ K.Linked s.closeGroup.advance t.closeGroup.advance := by
  have hrest : s.rest ≠ [] := ParserState.rest_ne_nil (K.eof hlinked) (by rw [hkind]; simp)
  exact K.leave hlinked hrest (hkind ▸ hclosing) (List.length_pos_iff.1 hgroups)

omit [Labeled α] in
/-- A group that ends without its closing symbol, where that is an error which ends the run. -/
theorem miss_linked {s t : ParserState} (hlinked : K.Linked s t) (hgroups : 1 ≤ s.groups.length)
    (what : String) :
    K.Given (s.closeGroup.expectedError what) s.closeGroup ∨
      ∃ e' t', EStateM.Result.error (α := α) (t.closeGroup.expectedError what) t.closeGroup =
        .error e' t' ∧ K.Errors (s.closeGroup.expectedError what) e' ∧
          K.Linked s.closeGroup t' := by
  rcases K.drop hlinked (List.length_pos_iff.1 hgroups) with hdrop | hlinked'
  · exact Or.inl (hdrop _).2
  · exact (expected_linked hlinked' what).imp_right fun he => ⟨_, _, rfl, he, hlinked'⟩

/-- A group is left through its closing symbol; a missing one is recorded. -/
theorem close_follows {mark : Symbol} (hclosing : (TokenKind.symbol mark).isClosing = true)
    (hrecords : ∀ found, K.Records (.expected (quoted (.symbol mark)) found)) :
    Follows K 1 a .firm pre (close mark) (close mark) where
  runs := fun s eof _ => by
    rw [close_run]
    split
    · exact leave_okRun eof ‹_›
    · split
      · refine ⟨s.closeGroup_onward, s.closeGroup_groups ▸ List.suffix_refl _, fun _ => ?_⟩
        rw [expectedError_isFatal, s.closeGroup_kind, beq_iff_eq]
        assumption
      · refine ⟨s.closeGroup_onward.trans (ParserState.report_onward _ _), s.closeGroup_groups,
          s.closeGroup_brace, fun hnil => ?_⟩
        exact absurd (ParserState.kind_of_rest_nil eof (s.closeGroup_kept.2.1 ▸ hnil)) ‹_›
  pairs := fun s t hlinked _ hlost _ hgroups => by
    rw [close_run, close_run, hlinked.kind (not_ended hlost hgroups)]
    split
    · exact (leave_linked hlinked ‹_› hclosing hgroups).imp_right fun hlinked' =>
        Or.inr ⟨true, _, rfl, rfl, hlinked'⟩
    · split
      · exact miss_linked hlinked hgroups _
      · rename_i heof
        rcases K.drop hlinked (List.length_pos_iff.1 hgroups) with hdrop | hlinked'
        · exact Or.inl (hdrop _).1
        · have hended : ¬K.Ended s.closeGroup :=
            fun hended => heof (s.closeGroup_kind ▸ hlinked'.kind_eof hended)
          have hrecord := K.record (hrecords s.closeGroup.kind) hlinked' (hlinked'.span hended)
          unfold ParserState.expectedError
          rw [hlinked'.kind hended]
          exact hrecord.imp_right fun hlinked'' => Or.inr ⟨false, _, rfl, rfl, hlinked''⟩

/-- A group is left through its closing symbol, which has to be there. -/
theorem closeStrict_follows {mark : Symbol} (hclosing : (TokenKind.symbol mark).isClosing = true) :
    Follows K 1 a .firm pre (closeStrict mark) (closeStrict mark) where
  runs := fun s eof _ => by
    rw [closeStrict_run]
    split
    · exact leave_okRun eof ‹_›
    · refine ⟨s.closeGroup_onward, s.closeGroup_groups ▸ List.suffix_refl _, fun hnil => ?_⟩
      rw [expectedError_isFatal, s.closeGroup_kind, beq_iff_eq]
      exact ParserState.kind_of_rest_nil eof (s.closeGroup_kept.2.1 ▸ hnil)
  pairs := fun s t hlinked _ hlost _ hgroups => by
    rw [closeStrict_run, closeStrict_run, hlinked.kind (not_ended hlost hgroups)]
    split
    · exact (leave_linked hlinked ‹_› hclosing hgroups).imp_right fun hlinked' =>
        Or.inr ⟨(), _, rfl, rfl, hlinked'⟩
    · exact miss_linked hlinked hgroups _

/-- A group is left through a closing symbol that was seen. -/
theorem leave_bind {mark : Symbol} {f f' : Unit → Parser α}
    (hclosing : (TokenKind.symbol mark).isClosing = true)
    (hkind : ∀ s, pre s → s.kind = .symbol mark)
    (hf : FollowsTo K 0 .firm b (fun _ => True) (f ()) (f' ())) :
    FollowsTo K 1 a b pre (closeGroup >>= fun _ => advance >>= f)
      (closeGroup >>= fun _ => advance >>= f') := by
  have hleave : Follows K 1 a .firm pre (modify fun s => s.closeGroup.advance)
      (modify fun s => s.closeGroup.advance) := by
    refine update (fun s eof hpre => leave_okRun eof (hkind s hpre))
      fun s t hlinked hpre _ _ hgroups => ?_
    exact (leave_linked hlinked (hkind s hpre) hclosing hgroups).imp_right Or.inr
  have hboth : FollowsTo K 1 a b pre (modify (fun s => s.closeGroup.advance) >>= f)
      (modify (fun s => s.closeGroup.advance) >>= f') := bind_leave hleave fun _ _ _ => hf
  exact hboth

/-- A token that has to be at hand, and what comes after it. -/
theorem expect_bind_eq {β : Type} (k : TokenKind) (f : Span → Parser β) :
    (expect k >>= f) = at? k >>= fun found =>
      if found then here >>= fun span => advance >>= fun _ => f span
      else failExpected (quoted k) := by
  funext s
  change EStateM.bind (expect k) f s = (if (s.kind == k) = true then _ else _ : Parser β) s
  unfold EStateM.bind
  rw [expect_run]
  by_cases hk : s.kind = k
  · rw [if_pos hk, if_pos (beq_iff_eq.2 hk)]
    rfl
  · rw [if_neg hk, if_neg (mt beq_iff_eq.1 hk)]
    rfl

/-- A symbol has to be at hand, and is stepped over first in what comes after it. -/
theorem expect_bind {mark : Symbol} {f f' : Span → Parser α}
    (hf : ∀ x y, K.like.Alike x y → FollowsTo K δ .slack b (fun s => s.kind = .symbol mark)
      (advance >>= fun _ => f x) (advance >>= fun _ => f' y)) :
    FollowsTo K δ a b pre (expectSymbol mark >>= f) (expectSymbol mark >>= f') := by
  unfold expectSymbol
  rw [expect_bind_eq, expect_bind_eq]
  refine of_slack (at_bind (fun _ => rfl) fun found => ite (fun h => ?_)
    fun _ => failExpected_follows)
  exact here_bind fun x y hxy => (hf x y hxy).mono fun s hs => eq_of_beq (hs.2.trans h)

/-- A group is entered through an opening symbol that has to be at hand. -/
theorem expect_enter {mark : Symbol} {i : Bool} {f f' : Span → Parser α}
    (hopen : (TokenKind.symbol mark).isOpening = true) (hi : mark ≠ .lBrace → i = true)
    (hf : ∀ x y, K.like.Alike x y → FollowsTo K 1 .slack b (fun _ => True) (f x) (f' y)) :
    FollowsTo K 0 a b pre (expectSymbol mark >>= fun span => openGroup i >>= fun _ => f span)
      (expectSymbol mark >>= fun span => openGroup i >>= fun _ => f' span) := by
  refine expect_bind fun x y hxy => enter_bind (fun s hs => ?_) (hf x y hxy)
  rw [hs]
  exact ⟨hopen, fun hne => hi fun hmark => hne (congrArg _ hmark)⟩

/-- So it is with an opening brace; what stands behind it may be left out. -/
theorem expect_brace {i : Bool} {f f' : Span → Parser α}
    (hf : ∀ x y, K.inside.like.Alike x y →
      FollowsTo K.inside 1 .slack b (fun _ => True) (f x) (f' y)) :
    FollowsTo K 0 a b pre (expectSymbol .lBrace >>= fun span => openGroup i >>= fun _ => f span)
      (expectSymbol .lBrace >>= fun span => openGroup i >>= fun _ => f' span) :=
  expect_bind fun x y hxy => enter_brace (fun _ hs => hs) (hf x y hxy)

/-- The place of a symbol that has to be at hand need not be used. -/
theorem discard_expect_bind {β : Type} (mark : Symbol) (f : Parser β) :
    (discard (expectSymbol mark) >>= fun _ => f) = (expectSymbol mark >>= fun _ => f) := by
  funext s
  change EStateM.bind (EStateM.map _ (expectSymbol mark)) _ s =
    EStateM.bind (expectSymbol mark) _ s
  unfold EStateM.bind EStateM.map
  cases expectSymbol mark s <;> rfl

/-- A number for a new node. -/
theorem freshId_follows : Follows K 0 a a pre freshId freshId where
  runs := fun _ _ _ => ⟨⟨rfl, List.suffix_refl _, List.prefix_refl _⟩, rfl, rfl, fun _ => ⟨rfl, id⟩⟩
  pairs := fun _ _ hlinked _ _ _ _ =>
    Or.inr (Or.inr ⟨_, _, rfl, (K.number hlinked).1, (K.number hlinked).2⟩)

/-- Number and place of a new node. -/
theorem origin_follows {span span' : Span} (hspan : K.like.Alike span span') :
    Follows K 0 a a pre (origin span) (origin span') :=
  bind freshId_follows fun _ _ hid => result (congr (congrArg Origin.mk hid) hspan :)

/-- The place of what was read since some start. -/
theorem spanFrom_bind {start start' : Span} (hstart : K.like.Alike start start')
    {f f' : Span → Parser α}
    (hf : ∀ x y, K.like.Alike x y → FollowsTo K δ a b pre (f x) (f' y)) :
    FollowsTo K δ a b pre (spanFrom start >>= f) (spanFrom start' >>= f') where
  runs := fun s eof hpre => by
    obtain ⟨y, hy⟩ := K.like.exists_alike (s.spanFrom start)
    exact (hf _ y hy).runs eof hpre
  pairs := fun _ _ hlinked hpre hlost hgrip hδ =>
    (hf _ _ (K.spanFrom hlinked hstart)).pairs hlinked hpre hlost hgrip hδ

/-- A new expression. The grip is slack where it ends with a condition. -/
theorem newExpr_follows {form form' : ExprForm} {span span' : Span}
    (hform : K.like.Alike form form') (hspan : K.like.Alike span span')
    (hgrip : a = .slack → K.gripOf form.dangles = .slack) :
    FollowsTo K 0 a K.behind pre (newExpr form span) (newExpr form' span') :=
  bind (origin_follows hspan) fun _ _ ho =>
    result_to (congr (congrArg Node.expr ho) hform :) hgrip

/-- A new type. -/
theorem newType_follows {form form' : TypeForm} {span span' : Span}
    (hform : K.like.Alike form form') (hspan : K.like.Alike span span') :
    Follows K 0 a a pre (newType form span) (newType form' span') :=
  bind (origin_follows hspan) fun _ _ ho => result (congr (congrArg Node.type ho) hform :)

/-- A list between commas is followed element by element. -/
theorem commaList_follows {closes : TokenKind → Bool} {gap : Parser Unit}
    {element element' : Parser α} (hgap : Follows K 0 .slack .slack (fun _ => True) gap gap)
    (helement : FollowsTo K 0 .slack b (fun _ => True) element element') {n m : Nat}
    (hnm : K.Bounds n m) (afterComma : Bool) :
    Follows K 0 a .slack pre (commaList closes gap element n afterComma)
      (commaList closes gap element' m afterComma) := by
  induction n generalizing m pre a afterComma with
  | zero => exact stalled_follows (q := (commaList closes gap element' · afterComma)) rfl hnm
  | succ n ih =>
    obtain ⟨m, rfl, hbounds⟩ := K.bounds_succ hnm
    unfold commaList
    refine of_slack (kind_bind (fun k => ite (fun _ => result rfl) fun _ => ?_) (by simp))
    refine bind helement.anywhere fun x y hxy => ?_
    refine bind (acceptSymbol_follows (by decide)) fun found _ hfound => ?_
    obtain rfl := hfound
    refine ite (fun _ => ?_) fun _ => ?_
    · refine bind (of_slack hgap) fun _ _ _ => ?_
      refine bind (ih hbounds true) fun r r' hr => result ?_
      exact (hxy.cons hr.fst).pair hr.snd
    · exact result_to ((hxy.cons Likeness.alike_nil).pair rfl) fun _ => rfl

/-- A list between commas up to a symbol. -/
theorem commaListTo_follows {mark : Symbol} {element element' : Parser α}
    (helement : FollowsTo K 0 .slack b (fun _ => True) element element') {n m : Nat}
    (hnm : K.Bounds n m) :
    Follows K 0 a .slack pre (commaListTo n mark element) (commaListTo m mark element') :=
  map (commaList_follows (result rfl) helement hnm false) fun _ _ h => h.fst

/-- After a first part with a result the next one runs. -/
theorem bind_run {α β : Type} {p : Parser α} {f : α → Parser β} {s s₁ : ParserState} {a : α}
    (h : p s = .ok a s₁) : (p >>= f) s = f a s₁ := by
  change EStateM.bind p f s = _
  unfold EStateM.bind
  rw [h]

/-- A name at hand is stepped over. -/
theorem expectIdent_run {s : ParserState} {name : String} {span : Span}
    (h : s.current = ⟨.ident name, span⟩) : expectIdent s = .ok ⟨name, span⟩ s.advance := by
  have hrun : current s = .ok ⟨.ident name, span⟩ s := by
    rw [← h]
    rfl
  exact bind_run hrun

/-- A symbol that may be at hand, and what comes after it. -/
theorem accept_bind_eq {β : Type} (k : TokenKind) (f : Bool → Parser β) :
    (accept k >>= f) = at? k >>= fun found =>
      if found then advance >>= fun _ => f true else f false := by
  funext s
  change EStateM.bind (accept k) f s = (if (s.kind == k) = true then _ else _ : Parser β) s
  unfold EStateM.bind
  rw [accept_run]
  by_cases hk : s.kind = k
  · rw [if_pos hk, if_pos (beq_iff_eq.2 hk)]
    rfl
  · rw [if_neg hk, if_neg (mt beq_iff_eq.1 hk)]

/-- How a statement ends, given the state in which its parser stopped. -/
def finished {β : Type} (before : ParserState) (r : β) (s : ParserState) :
    EStateM.Result SyntaxError ParserState β :=
  if maxErrors ≤ (s.settle before).errorCount then
    .error ⟨.tooManyErrors, (s.settle before).current.span⟩ (s.settle before)
  else .ok r (s.settle before)

/-- What reading one statement does. -/
theorem recovering_run {β : Type} (p : Parser β) (before : ParserState) :
    recovering p before = match p before with
      | .ok x s => finished before (some x) s
      | .error e s => if e.isFatal then .error e s else finished before none (s.record e) := rfl

/-- The end of a statement on the left. -/
theorem finished_runs {β : Type} {s before : ParserState} (x : β) (onward : before.Onward s)
    (hgroups : before.groups <:+ s.groups)
    (hsame : s.errorCount ≤ before.errorCount → before.SameFrame s) :
    RunOutcome 0 a (fun _ => .slack) before (finished before x s) := by
  have onward' := s.settle_onward before
  have hframe := ParserState.settle_frame hgroups hsame
  unfold finished
  split
  · exact ⟨onward.trans onward', hframe.1 ▸ List.suffix_refl _, fun _ => rfl⟩
  · exact ⟨onward.trans onward', hframe.1, hframe.2, fun _ => ⟨rfl, fun _ => rfl⟩⟩

/-- A statement that is lost ends so. -/
theorem finished_lost {s before : ParserState} (x : α)
    (r : EStateM.Result SyntaxError ParserState α) (hlost : K.Lost (s.settle before)) :
    K.PairOutcome (fun _ => .slack) (finished before x s) r := by
  unfold finished
  split
  · exact Or.inl (K.lost_given hlost (.refl _) fun _ => rfl)
  · exact Or.inl hlost

/-- A statement with which the left text ends. -/
theorem finished_ended {s before : ParserState} (x : α)
    (r : EStateM.Result SyntaxError ParserState α) (hended : K.Ended (s.settle before)) :
    K.PairOutcome (fun _ => .slack) (finished before x s) r := by
  unfold finished
  split
  · exact Or.inl (K.ended_given hended rfl)
  · exact Or.inr (Or.inl ⟨rfl, hended⟩)

/-- The end of a statement on both sides. -/
theorem finished_pairs (hbraces : K.braces) {s t before before' : ParserState} {x y : α}
    (hxy : K.like.Alike x y) (hbefore : K.Linked before before') (hlinked : K.Linked s t) :
    K.PairOutcome (fun _ => .slack) (finished before x s) (finished before' y t) := by
  by_cases hlost : K.Lost (s.settle before)
  · exact finished_lost x _ hlost
  by_cases hended : K.Ended (s.settle before)
  · exact finished_ended x _ hended
  have hlinked' : K.Linked (s.settle before) (t.settle before') :=
    ((K.settle hbraces hbefore hlinked).resolve_left hlost).resolve_left hended
  unfold finished
  by_cases hfull : maxErrors ≤ (s.settle before).errorCount
  · rw [if_pos hfull, if_pos ((K.full hbraces hlinked' hlost).2 hfull)]
    exact (K.throws .tooManyErrors hlinked' hended).imp_right fun he => ⟨_, _, rfl, he, hlinked'⟩
  · rw [if_neg hfull, if_neg (mt (K.full hbraces hlinked' hlost).1 hfull)]
    exact Or.inr (Or.inr ⟨y, _, rfl, hxy, hlinked'⟩)

/-- One statement or member is read on both sides, with its terminator. -/
theorem recovering_follows (hbraces : K.braces) {p q : Parser α} (hp : FollowsTo K 0 a b pre p q) :
    Follows K 0 a .slack pre (recovering p) (recovering q) where
  runs := fun s eof hpre => by
    rw [recovering_run]
    have run := hp.runs eof hpre
    cases hrun : p s with
    | ok x s₁ =>
      rw [hrun] at run
      have hframe : s.SameFrame s₁ := ⟨run.groups, run.brace⟩
      exact finished_runs (some x) run.onward (hframe.1 ▸ List.suffix_refl _) fun _ => hframe
    | error e s₁ =>
      rw [hrun] at run
      by_cases hfatal : e.isFatal = true
      · dsimp only
        rw [if_pos hfatal]
        exact run
      · dsimp only
        rw [if_neg hfatal]
        have hcount := run.onward.count
        refine finished_runs none (run.onward.trans (s₁.report_onward _)) run.groups fun hle => ?_
        rw [ParserState.record_count] at hle
        omega
  pairs := fun s t hlinked hpre hlost hgrip hδ => by
    rw [recovering_run, recovering_run]
    have run := hp.runs (K.eof hlinked) hpre
    have pair := hp.pairs hlinked hpre hlost hgrip hδ
    cases hrun : p s with
    | ok x s₁ =>
      rw [hrun] at run pair
      have hframe : s.SameFrame s₁ := ⟨run.groups, run.brace⟩
      have onward := s₁.settle_onward s
      have hsettled := ParserState.settle_frame (hframe.1 ▸ List.suffix_refl _) fun _ => hframe
      rcases pair with hlost' | ⟨-, hended⟩ | ⟨y, t₁, hrun', hxy, hlinked₁⟩
      · exact finished_lost _ _
          (K.lost_onward hlost' onward fun _ => hsettled.1.trans hframe.1.symm)
      · exact finished_ended _ _ (K.ended_onward hended onward)
      · rw [hrun']
        have hsome : K.like.Alike (some x) (some y) := congrArg some hxy
        exact finished_pairs hbraces hsome hlinked hlinked₁
    | error e s₁ =>
      rw [hrun] at run pair
      dsimp only
      by_cases hfatal : e.isFatal = true
      · rw [if_pos hfatal]
        rcases pair with hgiven | ⟨e', t₁, hrun', he, hlinked₁⟩
        · exact Or.inl hgiven
        · rw [hrun']
          dsimp only
          rw [if_pos (K.errors_fatal he ▸ hfatal)]
          exact Or.inr ⟨e', t₁, rfl, he, hlinked₁⟩
      · rw [if_neg hfatal]
        have hkept : K.Lost (s₁.record e) → K.PairOutcome (fun _ => .slack)
            (finished s (none : Option α) (s₁.record e)) (recovering q t) := by
          intro hlost'
          have hcount := run.onward.count
          have hrecorded := s₁.record_count e
          have hgroups : s.groups <:+ (s₁.record e).groups := run.groups
          have onward := (s₁.record e).settle_onward s
          have hsettled := ParserState.settle_frame hgroups fun hle => by omega
          refine finished_lost _ _ (K.lost_onward hlost' onward fun hnil => ?_)
          exact absurd (run.fatal hnil) hfatal
        rw [recovering_run] at hkept
        rcases pair with hgiven | ⟨e', t₁, hrun', he, hlinked₁⟩
        · exact hkept (K.given_record hbraces hgiven (Bool.not_eq_true _ ▸ hfatal))
        · rw [hrun'] at hkept ⊢
          dsimp only at hkept ⊢
          rcases K.recordError hbraces hlinked₁ he with hlost' | hlinked₂
          · exact hkept hlost'
          · rw [if_neg (K.errors_fatal he ▸ hfatal)]
            have hnone : K.like.Alike (none : Option α) none := rfl
            exact finished_pairs hbraces hnone hlinked hlinked₂

end Parse

end FrontEnd
