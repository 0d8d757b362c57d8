import FrontEnd.Proofs.Following.Declarations

/-!
# Gaps in a statement

Most errors abandon the statement they are met in. Some do not: a part that is missing is replaced
by a stub, and the parser goes on in the same statement. Nothing else is reported before the parser
of a statement stops, as long as it reads no braces: between braces there are statements of their
own, which report errors of their own. For this a run is compared with itself, up to the first
brace.
-/

namespace FrontEnd

/-- Braces, which stand around statements. -/
def TokenKind.isBrace : TokenKind → Bool
  | .symbol .lBrace | .symbol .rBrace => true
  | _ => false

/-- What may be reported while a statement is read. -/
inductive Diagnostic.Passing : Diagnostic → Prop
  | warning (text : String) (span : Span) : Passing (.warning text span)
  | gap {e : SyntaxError} (h : e.problem.isGap = true) : Passing e.toDiagnostic

namespace ParserState

/-- Tokens are read from the front. Where no brace is among them, nothing is reported but warnings
and gaps. -/
def Confined (s s' : ParserState) : Prop :=
  s'.final = s.final ∧ ∃ tokens reports, s.rest = tokens ++ s'.rest ∧
    s'.diagnostics = s.diagnostics ++ reports ∧
    ((∀ t ∈ tokens, t.kind.isBrace = false) → ∀ d ∈ reports, d.Passing)

/-- A brace is among the tokens that are read. -/
def PassedBrace (s s' : ParserState) : Prop :=
  ∃ tokens, s.rest = tokens ++ s'.rest ∧ ∃ t ∈ tokens, t.kind.isBrace = true

variable {s s' s'' : ParserState}

/-- Tokens are read without a report. -/
theorem Onward.confined (h : s.Onward s') (hsame : s'.diagnostics = s.diagnostics) :
    s.Confined s' := by
  obtain ⟨tokens, hrest⟩ := h.rest
  exact ⟨h.final, tokens, [], hrest.symm, by rw [hsame, List.append_nil],
    fun _ => List.forall_mem_nil _⟩

/-- Behind a brace anything may be reported. -/
theorem PassedBrace.confined (h : s.PassedBrace s') (onward : s.Onward s') : s.Confined s' := by
  obtain ⟨tokens, hrest, t, ht, hbrace⟩ := h
  obtain ⟨reports, hreports⟩ := onward.diagnostics
  refine ⟨onward.final, tokens, reports, hrest, hreports.symm, fun plain => ?_⟩
  exact absurd (hbrace.symm.trans (plain t ht)) (by simp)

/-- A brace that was read stays so. -/
theorem PassedBrace.onward (h : s.PassedBrace s') (onward : s'.Onward s'') : s.PassedBrace s'' := by
  obtain ⟨tokens, hrest, t, ht, hbrace⟩ := h
  obtain ⟨more, hmore⟩ := onward.rest
  exact ⟨tokens ++ more, by rw [hrest, ← hmore, List.append_assoc], t,
    List.mem_append_left more ht, hbrace⟩

/-- Where no token is read, none is a brace. -/
theorem not_passedBrace (s : ParserState) : ¬s.PassedBrace s := by
  rintro ⟨tokens, hrest, t, ht, -⟩
  rw [List.self_eq_append_left.1 hrest] at ht
  cases ht

namespace Confined

/-- One part of a run after another. -/
theorem trans (h : s.Confined s') (h' : s'.Confined s'') : s.Confined s'' := by
  obtain ⟨hfinal, tokens, reports, hrest, hreports, hpassing⟩ := h
  obtain ⟨hfinal', tokens', reports', hrest', hreports', hpassing'⟩ := h'
  refine ⟨hfinal'.trans hfinal, tokens ++ tokens', reports ++ reports', ?_, ?_, fun plain => ?_⟩
  · rw [hrest, hrest', List.append_assoc]
  · rw [hreports', hreports, List.append_assoc]
  · obtain ⟨hplain, hplain'⟩ := List.forall_mem_append.1 plain
    exact List.forall_mem_append.2 ⟨hpassing hplain, hpassing' hplain'⟩

/-- Going on without a report keeps it. -/
theorem onward (h : s.Confined s') (onward : s'.Onward s'')
    (hsame : s''.diagnostics = s'.diagnostics) : s.Confined s'' :=
  h.trans (onward.confined hsame)

/-- So does a report that is allowed. -/
theorem report (h : s.Confined s') {d : Diagnostic} (hd : d.Passing) : s.Confined (s'.report d) :=
  h.trans ⟨rfl, [], [d], rfl, rfl, fun _ => List.forall_mem_singleton.2 hd⟩

/-- The step over a brace. -/
theorem passedBrace (h : s.Confined s') (hrest : s'.rest ≠ [])
    (hbrace : s'.kind.isBrace = true) (onward : s'.advance.Onward s'') : s.PassedBrace s'' := by
  obtain ⟨x, xs, hx⟩ := List.exists_cons_of_ne_nil hrest
  obtain ⟨-, tokens, -, hfront, -, -⟩ := h
  obtain ⟨breaks, hbreaks, -⟩ := advance_rest hx
  have hpassed : s.PassedBrace s'.advance := by
    refine ⟨tokens ++ x :: breaks, ?_, x, by simp, ?_⟩
    · rw [hfront, hx, hbreaks, List.append_assoc, List.cons_append]
    · unfold ParserState.kind current at hbrace
      rwa [hx] at hbrace
  exact hpassed.onward onward

end Confined

end ParserState

/-- A run from `first` is compared with itself, as long as it reads no brace. -/
structure InStatement (first s t : ParserState) : Prop where
  eof : s.final.kind = .eof
  confined : first.Confined s
  same : t = s

namespace InStatement

variable {first s t : ParserState}

/-- A step without a report. -/
theorem step (h : InStatement first s t) {f : ParserState → ParserState} (onward : s.Onward (f s))
    (hsame : (f s).diagnostics = s.diagnostics) : InStatement first (f s) (f t) where
  eof := onward.final ▸ h.eof
  confined := h.confined.onward onward hsame
  same := congrArg f h.same

/-- A step over a token. -/
theorem advance (h : InStatement first s t) : InStatement first s.advance t.advance :=
  h.step s.advance_onward s.advance_kept.2

/-- A change of what is no token and no report. -/
theorem change (h : InStatement first s t) {f : ParserState → ParserState}
    (hfinal : (f s).final = s.final) (hrest : (f s).rest = s.rest)
    (hsame : (f s).diagnostics = s.diagnostics) : InStatement first (f s) (f t) :=
  h.step ⟨hfinal, hrest ▸ List.suffix_refl _, hsame ▸ List.prefix_refl _⟩ hsame

end InStatement

/-- The comparison of a run from `first` with itself, up to the first brace. Only gaps are recorded
there. -/
@[reducible] def gapComparison (first : ParserState) : Comparison where
  like := .shift 0 0
  Linked := InStatement first
  Lost := first.PassedBrace
  Ended := ParserState.Never
  Given _ s := first.PassedBrace s
  Errors e e' := e = e'
  Records problem := problem.isGap = true
  braces := False
  Bounds n m := n = m
  tail := .firm
  eof h := h.eof
  lost_onward h onward _ := h.onward onward
  lost_given h onward _ := h.onward onward
  ended_rest := ParserState.Never.rest
  ended_onward := ParserState.Never.onward
  ended_given h := h.elim
  ended_lost h := h.elim
  current h _ := h.same ▸ rfl
  kind_ended _ h := h.elim
  ahead h _ := Or.inl (by rw [h.same])
  label h := by rw [h.same]
  prefixOp h _ := by rw [h.same]
  brace h := by rw [h.same]
  half h := by rw [h.same]
  spanFrom {s t start start'} h hstart := by
    obtain rfl : start = start' := hstart
    exact h.same ▸ rfl
  advance h _ _ := Or.inr h.advance
  enter {s _ ignored} h _ _ _ := Or.inr
    (h.advance.step (f := (·.openGroup ignored)) (s.advance.openGroup_onward ignored)
      (by cases ignored <;> rfl))
  braced {s _ ignored} _ h hrest hbrace :=
    h.confined.passedBrace hrest (by rw [hbrace]; rfl) (s.advance.openGroup_onward ignored)
  leave {s _} h _ _ _ :=
    Or.inr (h.step s.closeGroup_onward s.closeGroup_kept.2.2).advance
  drop {s _} h _ := Or.inr (h.step s.closeGroup_onward s.closeGroup_kept.2.2)
  skip {s _ p} h _ _ := Or.inr (h.step (f := (·.skipWhile p)) (s.skipWhile_onward p) rfl)
  setBrace brace h := h.change (f := fun s => { s with allowsBrace := brace }) rfl rfl rfl
  lost_setBrace _ := Iff.rfl
  ended_setBrace := ParserState.Never.setBrace
  given_setBrace _ := Iff.rfl
  setHalf half h := h.change (f := fun s => { s with halfShift := half }) rfl rfl rfl
  number h := ⟨h.same ▸ rfl, h.change (f := fun s => { s with nextId := s.nextId + 1 }) rfl rfl rfl⟩
  throws _ h _ := Or.inr (by rw [h.same])
  errors_fatal he := by rw [he]
  warn {s t span span'} text h hspan := by
    obtain rfl : span = span' := hspan
    exact ⟨h.eof, h.confined.report (.warning text span), by rw [h.same]⟩
  record {s t problem span span'} hgap h hspan := by
    obtain rfl : span = span' := hspan
    exact Or.inr ⟨h.eof, h.confined.report (.gap hgap), by rw [h.same]⟩
  gaps hgap := hgap.resolve_right id
  recordError h := h.elim
  given_record h := h.elim
  settle h := h.elim
  full h := h.elim
  bump _ _ h := h.elim
  bounds_succ := exists_pred_eq
  bounds_zero hm := Or.inl hm.symm

/-- Where a run stops, with a result or without. -/
def stoppedIn {α : Type} : EStateM.Result SyntaxError ParserState α → ParserState
  | .ok _ s => s
  | .error _ s => s

namespace Parse

/-- The parser of a statement reports only gaps, as long as no brace is read. -/
theorem stmt_confined {n m : Nat} {s : ParserState} (eof : s.final.kind = .eof) :
    s.Confined (stoppedIn (stmt n (grammar m) s)) := by
  have hfollows : Follows (gapComparison s) 0 .firm .firm (fun _ => True) (stmt n (grammar m))
      (stmt n (grammar m)) := stmt_follows (grammar_follows rfl) rfl
  have hstart : InStatement s s s := ⟨eof, (ParserState.Onward.refl s).confined rfl, rfl⟩
  have run := hfollows.runs eof trivial
  have pair := hfollows.pairs hstart trivial s.not_passedBrace (fun _ => id) (Nat.zero_le _)
  cases hrun : stmt n (grammar m) s with
  | ok x s' =>
    rw [hrun] at run pair
    rcases pair with hpassed | ⟨-, hended⟩ | ⟨_, _, -, -, hlinked⟩
    · exact hpassed.confined run.onward
    · exact hended.elim
    · exact hlinked.confined
  | error e s' =>
    rw [hrun] at run pair
    rcases pair with hpassed | ⟨_, _, -, -, hlinked⟩
    · exact hpassed.confined run.onward
    · exact hlinked.confined

variable {α : Type}

/-- At the end of a construct its groups are settled. -/
theorem stoppedIn_finished (before : ParserState) (x : α) (s : ParserState) :
    stoppedIn (finished before x s) = s.settle before := by
  unfold finished
  split <;> rfl

/-- How a construct ends that is read by `recovering`: what else is reported, behind what was
reported in the course of it. -/
inductive Ending (r : EStateM.Result SyntaxError ParserState α) (earlier : List Diagnostic) :
    Option SyntaxError → Prop
  /-- It was read, with its terminator or with errors. -/
  | read {a : α} {s : ParserState} (run : r = .ok a s) : Ending r earlier none
  /-- It was read without errors, but the terminator is missing. -/
  | unterminated {a : α} {s : ParserState} (run : r = .ok a s)
    (free : Diagnostic.anyError earlier = false) :
    Ending r earlier (some (s.expectedError "';' or new-line"))
  /-- It was abandoned. -/
  | abandoned {e : SyntaxError} {s : ParserState} (run : r = .error e s)
    (passes : e.isFatal = false) : Ending r earlier (some e)
  /-- The file was given up. -/
  | givenUp {e : SyntaxError} {s : ParserState} (run : r = .error e s)
    (fatal : e.isFatal = true) : Ending r earlier none

/-- Errors are recorded already; without them the terminator may be missing. -/
theorem settle_reports (s before : ParserState) :
    (s.settle before).diagnostics = s.diagnostics ∨
      s.errorCount ≤ before.errorCount ∧ (s.settle before).diagnostics =
        s.diagnostics ++ [(s.expectedError "';' or new-line").toDiagnostic] := by
  unfold ParserState.settle
  split
  · exact Or.inl ((s.restore before).synchronize_kept before).2
  · rename_i hcount
    unfold ParserState.terminate
    split
    · exact Or.inl rfl
    · split
      · exact Or.inl rfl
      · refine Or.inr ⟨Nat.not_lt.1 hcount, ?_⟩
        exact ((s.record _).synchronize_kept before).2

/-- Once an error is recorded, nothing is added at the end. -/
theorem settle_silent {s before : ParserState} (h : before.errorCount < s.errorCount) :
    (s.settle before).diagnostics = s.diagnostics := by
  rcases settle_reports s before with hsame | ⟨hcount, -⟩
  · exact hsame
  · omega

/-- Beyond the tokens of a construct, those up to the next boundary are read. -/
theorem recovering_onward (p : Parser α) (s : ParserState) :
    (stoppedIn (p s)).Onward (stoppedIn (recovering p s)) := by
  rw [recovering_run]
  cases p s with
  | ok a s' =>
    rw [stoppedIn_finished]
    exact s'.settle_onward s
  | error e s' =>
    dsimp only
    split
    · exact .refl s'
    · rw [stoppedIn_finished]
      exact (s'.report_onward _).trans ((s'.record e).settle_onward s)

/-- What is reported for a construct is what its parser reports, and its ending. -/
theorem recovering_ending {p : Parser α} {s : ParserState} {reports : List Diagnostic}
    (hreports : (stoppedIn (p s)).diagnostics = s.diagnostics ++ reports) :
    ∃ last?, Ending (p s) reports last? ∧ (stoppedIn (recovering p s)).diagnostics =
      s.diagnostics ++ (reports ++ (last?.map SyntaxError.toDiagnostic).toList) := by
  have hcounts : (stoppedIn (p s)).errorCount = s.errorCount + Diagnostic.errorCount reports := by
    unfold ParserState.errorCount Diagnostic.errorCount
    rw [hreports, List.countP_append]
  rw [recovering_run]
  cases hrun : p s with
  | ok a s' =>
    rw [hrun] at hreports hcounts
    change s'.diagnostics = _ at hreports
    change s'.errorCount = _ at hcounts
    dsimp only
    rw [stoppedIn_finished]
    rcases settle_reports s' s with hsame | ⟨hcount, hlast⟩
    · refine ⟨none, .read rfl, ?_⟩
      rw [hsame, hreports, Option.map_none, Option.toList_none, List.append_nil]
    · have free : Diagnostic.anyError reports = false := by
        rw [← Bool.not_eq_true, Diagnostic.anyError_iff]
        omega
      refine ⟨_, .unterminated rfl free, ?_⟩
      rw [hlast, hreports, List.append_assoc]
      rfl
  | error e s' =>
    rw [hrun] at hreports hcounts
    change s'.diagnostics = _ at hreports
    change s'.errorCount = _ at hcounts
    dsimp only
    cases hfatal : e.isFatal with
    | true =>
      refine ⟨none, .givenUp rfl hfatal, ?_⟩
      rw [if_pos rfl, Option.map_none, Option.toList_none, List.append_nil]
      exact hreports
    | false =>
      have hcount : s.errorCount < (s'.record e).errorCount := by
        rw [ParserState.record_count]
        omega
      refine ⟨_, .abandoned rfl hfatal, ?_⟩
      rw [if_neg Bool.false_ne_true, stoppedIn_finished, settle_silent hcount]
      change s'.diagnostics ++ [e.toDiagnostic] = _
      rw [hreports, List.append_assoc]
      rfl

/-- From its first token to where reading goes on, a statement without braces reports gaps, and at
most one other error, which comes last. -/
theorem recovering_stmt_reports {n m : Nat} {s : ParserState} (eof : s.final.kind = .eof) :
    ∃ tokens reports last?,
      s.rest = tokens ++ (stoppedIn (recovering (stmt n (grammar m)) s)).rest ∧
      (stoppedIn (recovering (stmt n (grammar m)) s)).diagnostics =
        s.diagnostics ++ (reports ++ (last?.map SyntaxError.toDiagnostic).toList) ∧
      Ending (stmt n (grammar m) s) reports last? ∧
      ((∀ t ∈ tokens, t.kind.isBrace = false) → ∀ d ∈ reports, d.Passing) := by
  obtain ⟨-, front, reports, hfront, hreports, hpassing⟩ := stmt_confined (n := n) (m := m) eof
  obtain ⟨more, hmore⟩ := (recovering_onward (stmt n (grammar m)) s).rest
  obtain ⟨last?, hending, hall⟩ := recovering_ending hreports
  refine ⟨front ++ more, reports, last?, ?_, hall, hending, fun plain => hpassing fun t ht =>
    plain t (List.mem_append_left more ht)⟩
  rw [hfront, ← hmore, List.append_assoc]

/-- A function is abandoned at the end of its parameters, behind a type that is missing. -/
theorem recovering_stmt_reports_parameter :
    let s := ParserState.start ⟨0⟩ ([.keyword .func, .ident "f", .symbol .lParen, .ident "a",
      .symbol .colon, .symbol .rBracket, .symbol .rParen, .newline].map (⟨·, default⟩))
    let s' := stoppedIn (recovering (stmt 9 (grammar 8)) s)
    s'.errorCount = 2 ∧ ∃ reports last?, (∀ d ∈ reports, d.Passing) ∧
      Ending (stmt 9 (grammar 8) s) reports last? ∧
      s'.diagnostics = reports ++ (last?.map SyntaxError.toDiagnostic).toList := by
  intro s s'
  obtain ⟨tokens, reports, last?, hrest, hall, hending, hpassing⟩ :=
    recovering_stmt_reports (n := 9) (m := 8) (show s.final.kind = .eof from rfl)
  have plain : ∀ t ∈ s.rest, t.kind.isBrace = false := by decide
  refine ⟨by decide +kernel, reports, last?, hpassing fun t ht => ?_, hending, hall⟩
  exact plain t (hrest ▸ List.mem_append_left _ ht)

/-- Names in the places of operators are reported one by one, here the two of `a plus b minus c`. -/
theorem recovering_two_gaps :
    let s := ParserState.start ⟨0⟩
      ([.ident "a", .ident "plus", .ident "b", .ident "minus", .ident "c"].map (⟨·, default⟩))
    let s' := stoppedIn (recovering (stmt 6 (grammar 5)) s)
    (∀ t ∈ s.rest, t.kind.isBrace = false) ∧ s'.rest = [] ∧ s.errorCount = 0 ∧
      s'.errorCount = 2 := by
  decide +kernel

end Parse

end FrontEnd
