import FrontEnd.Proofs.Progress.Declarations

/-!
# Reading comes to an end

The number of remaining tokens bounds all of the recursion of the parser. A nonterminal that is
called by another one has fewer tokens left, and so has every further round of a loop; nothing hangs
on the bounds above that, and they are never used up. The closing angle brackets, which may use up a
token by halves, use up one half at least.
-/

namespace FrontEnd

/-- The halves of tokens that are left, of which the first half of a `>>` may be used up. -/
def ParserState.halvesLeft (s : ParserState) : Nat := 2 * s.rest.length - s.halfShift.toNat

/-- A parser that reads has taken tokens from the front. -/
theorem Progresses.reads {α : Type} {n : Nat} {pre : ParserState → Prop} {p q : Parser α}
    (h : Progresses n .reads pre p q) {s s' : ParserState} {x : α} (sound : s.Sound)
    (hlt : s.rest.length < n) (hs : pre s) (hrun : q s = .ok x s') :
    ∃ read, read ≠ [] ∧ s.rest = read ++ s'.rest := by
  obtain ⟨heq, run⟩ := h sound hlt hs
  rw [← heq, hrun] at run
  have hfewer : s'.rest.length < s.rest.length := run.2
  obtain ⟨read, hread⟩ := run.1.rest
  refine ⟨read, ?_, hread.symm⟩
  rintro rfl
  rw [← hread, List.nil_append] at hfewer
  exact Nat.lt_irrefl _ hfewer

/-- A parser that gets on does not stop because it does not advance. -/
theorem Progresses.not_stalled {α : Type} {n : Nat} {pace : Pace} {pre : ParserState → Prop}
    {p q : Parser α} (h : Progresses n pace pre p q) {s s' : ParserState} {e : SyntaxError}
    (sound : s.Sound) (hlt : s.rest.length < n) (hs : pre s) (hrun : q s = .error e s') :
    e.problem ≠ .stalled := by
  obtain ⟨heq, run⟩ := h sound hlt hs
  rw [← heq, hrun] at run
  exact run.2.not_stalled

namespace Parse

open Progresses

variable {m n n' : Nat} {pre : ParserState → Prop} {g : Grammar}

/-- The parsers of all nonterminals, with as much recursion as the remaining tokens admit. -/
def unbounded : Grammar := fun x s => grammar (s.rest.length + 1) x s

/-- With fewer than `n` tokens left the parsers of all nonterminals recur as far as they need. -/
def Complete (n : Nat) (g : Grammar) : Prop :=
  ∀ {c : Category} (x : Nonterminal c) ⦃s : ParserState⦄, s.Sound → s.rest.length < n →
    x.Ready s → g x s = unbounded x s

theorem grammar_complete (h : n ≤ m) : Complete n (grammar m) := by
  intro c x s sound hlt ready
  have both : GrammarProgresses (s.rest.length + 1) (grammar (s.rest.length + 1)) (grammar m) :=
    grammar_progresses (Nat.le_refl _) (Nat.le_trans hlt h)
  exact (both x sound (Nat.lt_succ_self _) ready).1

/-- Two such grammars do the same. -/
theorem Complete.progresses (hg : Complete n g) : GrammarProgresses n (grammar n) g := by
  intro c x s sound hlt ready
  have self : GrammarProgresses n (grammar n) (grammar n) :=
    grammar_progresses (Nat.le_refl n) (Nat.le_refl n)
  have same := grammar_complete (Nat.le_refl n) x sound hlt ready
  exact ⟨(hg x sound hlt ready).trans same.symm, (self x sound hlt ready).2⟩

/-- A rule needs the nonterminals it calls with fewer tokens only, and a round of its loops for
every token that is left. -/
theorem rule_complete (hg : Complete m g) (hn : m < n) : Complete (m + 1) (rule n g) := by
  intro c x s sound hlt ready
  have same := rule_progresses hg.progresses (Nat.lt_succ_self m) hn x sound hlt ready
  exact same.1.trans (grammar_complete (Nat.le_refl (m + 1)) x sound hlt ready)

/-- A closing angle bracket uses up one half of a token at least. -/
theorem closeAngle_halvesLeft {s s' : ParserState} (sound : s.Sound)
    (h : closeAngle s = .ok () s') : s'.halvesLeft < s.halvesLeft := by
  have hhalf : s.halfShift.toNat ≤ 1 := Bool.toNat_le s.halfShift
  change (if s.kind = .symbol .rAngle then advance else if s.kind = .symbol .shr then
    if s.halfShift then _ else _ else _ : Parser Unit) s = _ at h
  unfold ParserState.halvesLeft
  split at h
  · rename_i hangle
    cases h
    have hfewer : s.advance.rest.length < s.rest.length :=
      ParserState.advance_length (sound.rest_ne_nil (by rw [hangle]; simp))
    omega
  · split at h
    · rename_i hshift
      have hmore := sound.rest_ne_nil (by rw [hshift]; simp)
      split at h
      · cases h
        have hfewer : (ParserState.advance { s with halfShift := false }).rest.length <
          s.rest.length := ParserState.advance_length hmore
        dsimp only
        omega
      · -- The token stays, but its first half is used up.
        rename_i hfirst
        cases h
        have hpos := List.length_pos_iff.2 hmore
        rw [Bool.eq_false_iff.2 hfirst]
        dsimp only [Bool.toNat_true, Bool.toNat_false]
        omega
    · cases h

/-- The token at hand is passed over. -/
theorem bump_reads_token (h : ∀ s, pre s → s.kind ≠ .eof) :
    Progresses n .reads pre (modify ParserState.bump) (modify ParserState.bump) := by
  refine update fun s sound hs => ⟨s.bump_onward.leads s.bump_kept.2, ?_⟩
  have hpos := List.length_pos_iff.2 (sound.rest_ne_nil (h s hs))
  have hone : s.bump.rest.length = s.rest.length - 1 := s.bumpBy_length 1
  change s.bump.rest.length < s.rest.length
  omega

/-- Every round over the statements of a file reads a token. -/
theorem fileStmts_progresses {bound bound' k : Nat} (hbound : k ≤ bound) (hbound' : k ≤ bound')
    (hn : k ≤ n) (hn' : k ≤ n') :
    Progresses k .stays pre (fileStmts bound n) (fileStmts bound' n') := by
  induction k, n, n', hn, hn' using rounds_induction generalizing pre with
  | zero => exact zero
  | succ k n n' hn hn' ih =>
    have others {pre : ParserState → Prop} :
        Progresses k .stays pre (fileStmts bound n) (fileStmts bound' n') :=
      ih (by omega) (by omega)
    unfold fileStmts
    refine peek _ fun ends => .ite (fun _ => pure) fun hmore => peek _ fun stray => ?_
    refine .ite (fun hstray => peek _ fun span => ?_) fun _ => ?_
    · -- The brace is still at hand once it is reported.
      refine update_bind (fun s => s.kind = .symbol .rBrace) (fun s _ hs => ?_) ?_
      · refine ⟨s.report_leads (.error rfl (plain_of_ne fun _ _ => by simp)), ?_⟩
        exact eq_of_beq (hs.1.2.trans hstray)
      · refine read_bind (bump_reads_token fun s hs => by rw [hs]; simp) fun _ => ?_
        exact skipTerminators_progresses.bind fun _ => others
    · have hg : GrammarProgresses k (grammar bound) (grammar bound') :=
        grammar_progresses (by omega) (by omega)
      refine read_bind (stmtOrStub_progresses hg hbound hbound' fun s hs => ?_) fun x => ?_
      · exact beq_eq_false_iff_ne.1 (hs.1.2.trans (Bool.not_eq_true _ ▸ hmore))
      · exact skipTerminators_progresses.bind fun _ => others.bind fun xs => pure

/-- A whole file is read alike under all bounds above the number of its tokens. -/
theorem file_progresses (hn : m < n) (hn' : m < n') :
    Progresses (m + 1) .stays pre (file n) (file n') :=
  skipTerminators_progresses.bind fun _ => fileStmts_progresses hn hn' hn hn'

/-- A file that is given up was given up somewhere in it. -/
theorem parse_error {file : FileId} {tokens : List Token} {a : ParseAbort}
    (h : parse file tokens = .error a) :
    ∃ s, Parse.file (tokens.length + 1) (.start file tokens) = .error a.error s ∧
      a.diagnostics = s.diagnostics ++ [a.error.toDiagnostic] := by
  unfold parse at h
  cases hrun : Parse.file (tokens.length + 1) (.start file tokens) with
  | ok xs s =>
    rw [hrun] at h
    cases h
  | error e s =>
    rw [hrun] at h
    cases h
    exact ⟨s, rfl, rfl⟩

/-- No more tokens are read than there are. -/
theorem start_length (file : FileId) (tokens : List Token) :
    (ParserState.start file tokens).rest.length ≤ tokens.length :=
  (List.takeWhile_prefix _).length_le

/-- The recovery of a statement reads a token. -/
theorem recovering_stmt_progresses (hg : Complete m g) (hn : m < n) :
    Progresses (m + 1) .reads (fun s => s.kind ≠ .eof) (recovering (stmt (m + 1) (grammar m)))
      (recovering (stmt n g)) :=
  recovering_progresses (stmt_progresses hg.progresses (Nat.lt_succ_self m) hn) fun _ => id

/-- So does that of a member. -/
theorem recovering_member_progresses (hg : Complete m g) (hn : m < n) (inClass : Bool) :
    Progresses (m + 1) .reads (fun s => s.kind ≠ .eof)
      (recovering (member (m + 1) (grammar m) inClass)) (recovering (member n g inClass)) :=
  recovering_progresses (member_progresses hg.progresses (Nat.lt_succ_self m) hn inClass).of_reads
    fun _ => id

/-- Reading comes to an end on all tokens: nothing hangs on a bound above their number, and reading
never stops because it does not advance. The same holds of the nonterminals with fewer tokens than
their bound. Wherever the parser is, a rule calls its nonterminals with fewer tokens left, and its
loops run no more rounds than there are tokens; a closing angle bracket uses up half a token at
least, and the recovery of a statement or member a whole one. -/
theorem parse_terminates (file : FileId) (tokens : List Token) :
    (∀ n, tokens.length < n →
      Parse.file n (.start file tokens) = Parse.file (tokens.length + 1) (.start file tokens)) ∧
    (∀ a, parse file tokens = .error a → a.error.problem ≠ .stalled) ∧
    (∀ n, Complete n (grammar n)) ∧
    ∀ ⦃s : ParserState⦄ ⦃n : Nat⦄ ⦃g : Grammar⦄, s.Sound → s.rest.length < n →
      Complete s.rest.length g →
        (∀ {c : Category} (x : Nonterminal c), x.Ready s → rule n g x s = unbounded x s ∧
          ∀ e s', unbounded x s = .error e s' → e.problem ≠ .stalled) ∧
        (∀ s', closeAngle s = .ok () s' → s'.halvesLeft < s.halvesLeft) ∧
        (s.kind ≠ .eof → ∀ s',
          (∀ x?, recovering (stmt n g) s = .ok x? s' →
            ∃ read, read ≠ [] ∧ s.rest = read ++ s'.rest) ∧
          ∀ inClass x?, recovering (member n g inClass) s = .ok x? s' →
            ∃ read, read ≠ [] ∧ s.rest = read ++ s'.rest) := by
  have sound := ParserState.start_sound file tokens
  have hlength : (ParserState.start file tokens).rest.length < tokens.length + 1 :=
    Nat.lt_succ_of_le (start_length file tokens)
  refine ⟨fun n hn => ?_, fun a ha => ?_, fun n => grammar_complete (Nat.le_refl n),
    fun s n g sound hn hg => ?_⟩
  · have same : Progresses (tokens.length + 1) .stays (fun _ => True)
        (Parse.file (tokens.length + 1)) (Parse.file n) := file_progresses (Nat.lt_succ_self _) hn
    exact (same sound hlength trivial).1
  · obtain ⟨s, hrun, -⟩ := parse_error ha
    have run : Progresses (tokens.length + 1) .stays (fun _ => True)
        (Parse.file (tokens.length + 1)) (Parse.file (tokens.length + 1)) :=
      file_progresses (Nat.lt_succ_self _) (Nat.lt_succ_self _)
    exact run.not_stalled sound hlength trivial hrun
  · have hlt := Nat.lt_succ_self s.rest.length
    refine ⟨fun x ready => ⟨rule_complete hg hn x sound hlt ready, fun e s' hrun => ?_⟩,
      fun s' => closeAngle_halvesLeft sound, fun hmore s' => ⟨fun x? => ?_, fun inClass x? => ?_⟩⟩
    · have run : GrammarProgresses (s.rest.length + 1) (grammar (s.rest.length + 1))
          (grammar (s.rest.length + 1)) := grammar_progresses (Nat.le_refl _) (Nat.le_refl _)
      exact (run x).not_stalled sound hlt ready hrun
    · exact (recovering_stmt_progresses hg hn).reads sound hlt hmore
    · exact (recovering_member_progresses hg hn inClass).reads sound hlt hmore

/-- Whether a parser has a result. -/
def succeeds {α : Type} (p : Parser α) (s : ParserState) : Bool :=
  match p s with
  | .ok _ _ => true
  | .error _ _ => false

theorem exists_of_succeeds {α : Type} {p : Parser α} {s : ParserState}
    (h : succeeds p s = true) : ∃ x s', p s = .ok x s' := by
  unfold succeeds at h
  split at h
  · exact ⟨_, _, ‹_›⟩
  · cases h

/-- Whether a file is given up, in some way. -/
def givesUp (file : FileId) (tokens : List Token) (test : ParseAbort → Bool) : Bool :=
  match parse file tokens with
  | .ok _ => false
  | .error a => test a

theorem exists_of_givesUp {file : FileId} {tokens : List Token} {test : ParseAbort → Bool}
    (h : givesUp file tokens test = true) :
    ∃ a, parse file tokens = .error a ∧ test a = true := by
  unfold givesUp at h
  split at h
  · cases h
  · exact ⟨_, ‹_›, h⟩

-- A variable whose name is missing at the end of the text, and one whose name is a number.
example : givesUp ⟨0⟩ [⟨.keyword .val, ⟨0, 3, ⟨0⟩⟩⟩] (fun _ => true) = true ∧
    givesUp ⟨0⟩ [⟨.keyword .val, ⟨0, 3, ⟨0⟩⟩⟩, ⟨.literal .decimal "5", ⟨4, 1, ⟨0⟩⟩⟩]
      (fun _ => true) = false := by
  decide +kernel

/-- A `>>` without a type in front of it, which neither a statement nor a member begins with, and
behind it a variable whose name is missing. -/
theorem parse_terminates_shift :
    let tokens : List Token :=
      [⟨.symbol .shr, ⟨0, 2, ⟨0⟩⟩⟩, ⟨.symbol .semi, ⟨2, 1, ⟨0⟩⟩⟩, ⟨.keyword .val, ⟨3, 3, ⟨0⟩⟩⟩]
    let s := ParserState.start ⟨0⟩ tokens
    Parse.file 9 s = Parse.file 4 s ∧
      (∃ a, parse ⟨0⟩ tokens = .error a ∧ a.error.problem ≠ .stalled) ∧
      rule 7 unbounded .type s = unbounded .type s ∧
      (∃ s', closeAngle s = .ok () s' ∧ s'.halvesLeft < s.halvesLeft) ∧
      (∃ x? s', recovering (stmt 7 unbounded) s = .ok x? s' ∧
        ∃ read, read ≠ [] ∧ s.rest = read ++ s'.rest) ∧
      ∃ x? s', recovering (member 7 unbounded true) s = .ok x? s' ∧
        ∃ read, read ≠ [] ∧ s.rest = read ++ s'.rest := by
  intro tokens s
  have sound : s.Sound := ParserState.start_sound ⟨0⟩ tokens
  have complete : Complete s.rest.length unbounded := fun _ _ _ _ _ => rfl
  obtain ⟨hfile, habort, -, hrun⟩ := parse_terminates ⟨0⟩ tokens
  obtain ⟨hrule, hangle, hrecover⟩ := hrun sound (show s.rest.length < 7 by decide) complete
  have hmore : s.kind ≠ .eof := by decide
  obtain ⟨x?, s₁, hstmt⟩ := exists_of_succeeds
    (show succeeds (recovering (stmt 7 unbounded)) s = true by decide +kernel)
  obtain ⟨y?, s₂, hmember⟩ := exists_of_succeeds
    (show succeeds (recovering (member 7 unbounded true)) s = true by decide +kernel)
  obtain ⟨a, ha, -⟩ := exists_of_givesUp
    (show givesUp ⟨0⟩ tokens (fun _ => true) = true by decide +kernel)
  refine ⟨hfile 9 (by decide), ⟨a, ha, habort a ha⟩, (hrule .type trivial).1, ?_,
    ⟨x?, s₁, hstmt, ?_⟩, ⟨y?, s₂, hmember, ?_⟩⟩
  · exact ⟨{ s with halfShift := true }, rfl, hangle _ rfl⟩
  · exact (hrecover hmore s₁).1 x? hstmt
  · exact (hrecover hmore s₂).2 true y? hmember

end Parse

end FrontEnd
