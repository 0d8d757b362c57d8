import FrontEnd.Proofs.Progress.Expressions
import FrontEnd.Proofs.Following.Files

/-!
# Progress through declarations and statements

A statement or member has read a token or recorded an error in the end, wherever it is read; its
recovery makes this a token in any case, since after an error one token is passed over at least. So
every round of a loop over statements or members reads a token, and the rules of the grammar get on
with one token more than those of the nonterminals.
-/

namespace FrontEnd

/-- Every justified error is plain. -/
theorem SyntaxError.Justified.plain {s : ParserState} {e : SyntaxError} (h : e.Justified s) :
    e.Plain := by
  cases h with
  | ended plain =>
    rintro _ _ ⟨⟩
    exact plain
  | full count => exact Parse.plain_of_ne fun _ _ => by simp
  | passing fatal plain => exact plain

namespace ParserState

/-- Tokens that are passed over are gone. -/
theorem bumpBy_length (n : Nat) (s : ParserState) :
    (s.bumpBy n).rest.length = s.rest.length - n := by
  rw [bumpBy_eq]
  exact List.length_drop

/-- On the way to the next boundary one token is passed over at least. -/
theorem synchronize_length {s before : ParserState} (hle : s.rest.length ≤ before.rest.length)
    (more : before.rest ≠ []) : (s.synchronize before).rest.length < before.rest.length := by
  have hpos := List.length_pos_iff.2 more
  have hone : s.bump.rest.length = s.rest.length - 1 := s.bumpBy_length 1
  unfold synchronize
  dsimp only
  rw [bumpBy_length]
  split
  · omega
  · omega

/-- What is recorded at the end of a statement is a missing terminator. -/
theorem terminate_leads (s before : ParserState) : s.Leads (s.terminate before) := by
  unfold terminate
  split
  · exact (s.skipWhile_onward _).leads rfl
  · split
    · exact .refl s
    · rename_i hother
      let e := s.expectedError "';' or new-line"
      have recordable : e.toDiagnostic.Recordable := by
        refine .error (beq_eq_false_iff_ne.2 fun heof => hother (Or.inl heof)) ?_
        rintro _ _ ⟨⟩
        decide
      have onward := ((s.record e).synchronize_onward before).1
      have hkept := ((s.record e).synchronize_kept before).2
      exact (s.report_leads recordable).trans (onward.leads hkept)

/-- At the end of a statement no more than one problem is recorded. -/
theorem settle_leads (s before : ParserState) : s.Leads (s.settle before) := by
  unfold settle
  split
  · have onward := ((s.restore before).synchronize_onward before).1
    have hkept := ((s.restore before).synchronize_kept before).2
    exact Onward.leads ⟨onward.final, onward.rest, onward.diagnostics⟩ hkept
  · exact s.terminate_leads before

/-- A statement that read a token or recorded an error has a token behind it in the end. -/
theorem settle_length {s before : ParserState} (more : before.rest ≠ []) (leads : before.Leads s)
    (made : Pace.reports.Made before s) :
    (s.settle before).rest.length < before.rest.length := by
  unfold settle
  split
  · exact synchronize_length leads.length_le more
  · -- No error was recorded, so that a token was read.
    rename_i hnew
    exact Nat.lt_of_le_of_lt (s.terminate_leads before).length_le (made.resolve_right hnew)

end ParserState

namespace Parse

open Progresses

variable {m n n' : Nat} {pace : Pace} {pre : ParserState → Prop} {g g' : Grammar}

section Recovery

/-- A statement that made some progress has read a token when it is ended. -/
theorem finished_progress {β : Type} {s before : ParserState} (r : β) (more : before.rest ≠ [])
    (leads : before.Leads s) (made : Pace.reports.Made before s) :
    ProgressOutcome .reads before (finished before r s) := by
  have hsettled := leads.trans (s.settle_leads before)
  unfold finished
  split
  · exact ⟨hsettled, .full ‹_›⟩
  · exact ⟨hsettled, ParserState.settle_length more leads made⟩

/-- Recovery makes a token out of an error. -/
theorem recovering_progresses {α : Type} {p q : Parser α} (hp : Progresses n .reports pre p q)
    (hpre : ∀ s, pre s → s.kind ≠ .eof) :
    Progresses n .reads pre (recovering p) (recovering q) := by
  intro s sound hlt hs
  obtain ⟨heq, run⟩ := hp sound hlt hs
  have more := sound.rest_ne_nil (hpre s hs)
  rw [recovering_run, recovering_run, heq]
  refine ⟨rfl, ?_⟩
  cases hrun : p s with
  | ok x s₁ =>
    rw [hrun] at run
    exact finished_progress (some x) more run.1 run.2
  | error e s₁ =>
    rw [hrun] at run
    obtain ⟨leads, justified⟩ := run
    dsimp only
    split
    · exact ⟨leads, justified⟩
    · -- The error is recorded here, which will do for a token.
      rename_i hfatal
      have recordable : e.toDiagnostic.Recordable :=
        .error (Bool.not_eq_true _ ▸ hfatal) justified.plain
      refine finished_progress none more (leads.trans (s₁.report_leads recordable)) (Or.inr ?_)
      rw [s₁.record_count]
      exact Nat.lt_succ_of_le leads.count

end Recovery

section Declarations

/-- An attribute reads its mark. -/
theorem attr_progresses (hg : GrammarProgresses m g g') (hn : m < n) (hn' : m < n')
    (hpre : ∀ s, pre s → s.kind ≠ .eof) :
    Progresses (m + 1) .reads pre (attr n g) (attr n' g') := by
  refine peek _ fun start => read_bind (advance_reads_token fun s hs => hpre s hs.1) fun _ => ?_
  refine expectIdent_progresses.bind fun name => acceptSymbol_progresses.bind fun found => ?_
  extract_lets after
  have hafter (args : Node (.many .argument)) :
      Progresses m .stays (fun _ => True) (after args) (after args) :=
    peek _ fun span => pure
  refine .ite (fun _ => ?_) fun _ => hafter .nil
  refine (openGroup_progresses true).bind fun _ => ?_
  refine (arguments_progresses hg hn hn').bind fun args => ?_
  exact (closeStrict_progresses (by decide)).bind fun _ => hafter args

/-- Each attribute reads a token, so the rounds suffice. -/
theorem attrs_progresses (hg : GrammarProgresses m g g') {bound bound' k : Nat}
    (hbound : m < bound) (hbound' : m < bound') (hk : k ≤ m + 1) (hn : k ≤ n) (hn' : k ≤ n') :
    Progresses k .stays pre (attrs bound g n) (attrs bound' g' n') := by
  induction k, n, n', hn, hn' using rounds_induction generalizing pre with
  | zero => exact zero
  | succ k n n' hn hn' ih =>
    unfold attrs
    refine peek _ fun found => .ite (fun _ => pure) fun hfound => ?_
    refine read_bind ((attr_progresses hg hbound hbound' fun s hs => ?_).fewer hk) fun x => ?_
    · rw [eq_of_beq (hs.2.trans (by simpa using hfound))]
      simp
    · refine skipTerminators_progresses.bind fun _ => ?_
      exact (ih (by omega)).bind fun xs => pure

/-- Only a token of the text is a modifier. -/
theorem Modifier.ne_eof_of_ofToken {k : TokenKind} {m : Modifier}
    (h : Modifier.ofToken? k = some m) : k ≠ .eof := by
  rintro rfl
  cases h

/-- So does each modifier. -/
theorem modifiers_progresses {k : Nat} (hn : k ≤ n) (hn' : k ≤ n') :
    Progresses k .stays pre (modifiers n) (modifiers n') := by
  induction k, n, n', hn, hn' using rounds_induction generalizing pre with
  | zero => exact zero
  | succ k n n' hn hn' ih =>
    unfold modifiers
    refine peek _ fun t => ?_
    split
    · rename_i modifier hmodifier
      refine read_bind (advance_reads_token fun s hs => ?_) fun _ => ?_
      · rw [hs.2]
        exact Modifier.ne_eof_of_ofToken hmodifier
      · exact ih.bind fun ms => pure
    · exact pure

/-- A parameter of a function. -/
theorem param_progresses (hg : GrammarProgresses m g g') :
    Progresses m .stays pre (param g) (param g') := by
  refine peek _ fun start => expectIdent_progresses.bind fun name => ?_
  refine (expectSymbol_progresses (by decide)).discard.bind fun _ => (hg .type).bind fun t => ?_
  refine (defaultValue_progresses hg).bind fun default => peek _ fun span => ?_
  exact origin_progresses.bind fun o => pure

/-- The parameters of a function. -/
theorem params_progresses (hg : GrammarProgresses m g g') (hn : m < n) (hn' : m < n') :
    Progresses m .stays pre (params n g) (params n' g') := by
  refine (expectSymbol_progresses (by decide)).discard.bind fun _ => ?_
  refine (openGroup_progresses true).bind fun _ => ?_
  refine (commaListTo_progresses (param_progresses hg) hn.le hn'.le).bind fun ps => ?_
  exact (closeStrict_progresses (by decide)).bind fun _ => pure

/-- The body of a function: a block, an expression or nothing. -/
theorem funcBody_progresses (hg : GrammarProgresses m g g') :
    Progresses m .stays pre (funcBody? g) (funcBody? g') := by
  refine peek _ fun k => ?_
  split
  · exact ((block_progresses hg).later (Nat.le_succ m)).bind fun body => pure
  · refine advance_progresses.bind fun _ => skipNewlines_progresses.bind fun _ => ?_
    exact (hg .expr).bind fun e => pure
  · exact pure

/-- A function reads its keyword. -/
theorem func_progresses (hg : GrammarProgresses m g g') (hn : m < n) (hn' : m < n') :
    Progresses (m + 1) .reads pre (func n g) (func n' g') := by
  refine read_bind (expectKeyword_progresses .func).discard fun _ => ?_
  refine expectIdent_progresses.bind fun name => ?_
  refine (generics_progresses hg hn hn').bind fun generics => ?_
  refine (params_progresses hg hn hn').bind fun params => ?_
  refine (typeAfterColon_progresses hg).bind fun result => ?_
  exact (funcBody_progresses hg).bind fun body => pure

/-- The types a declaration is built on; the comma between two of them is read. -/
theorem superTypes_progresses (hg : GrammarProgresses m g g') {k : Nat} (hk : k ≤ m) (hn : k ≤ n)
    (hn' : k ≤ n') : Progresses k .stays pre (superTypes g n) (superTypes g' n') := by
  induction k, n, n', hn, hn' using rounds_induction generalizing pre with
  | zero => exact zero
  | succ k n n' hn hn' ih =>
    unfold superTypes
    refine skipNewlines_progresses.bind fun _ => ((hg .type).fewer hk).bind fun t => ?_
    exact acceptSymbol_unless ((ih (by omega)).bind fun ts => pure) pure

/-- The same behind their colon, if it is there. -/
theorem supers_progresses (hg : GrammarProgresses m g g') (hn : m < n) (hn' : m < n') :
    Progresses m .stays pre (supers n g) (supers n' g') :=
  acceptSymbol_progresses.bind fun _ => .ite (fun _ => pure) fun _ =>
    (superTypes_progresses hg (Nat.le_refl m) hn.le hn'.le).bind fun _ => pure

/-- Members between braces. -/
theorem memberBlock_progresses (hg : GrammarProgresses m g g') (inClass : Bool) :
    Progresses m .stays pre (memberBlock g inClass) (memberBlock g' inClass) := by
  refine (expectSymbol_progresses (by decide)).discard.bind fun _ => ?_
  refine (openGroup_progresses false).bind fun _ => (hg (.members inClass)).bind fun members => ?_
  exact (closeStrict_progresses (by decide)).bind fun _ => pure

/-- A class or a struct reads its keyword. -/
theorem classDecl_progresses (hg : GrammarProgresses m g g') (hn : m < n) (hn' : m < n')
    (hpre : ∀ s, pre s → s.kind ≠ .eof) :
    Progresses (m + 1) .reads pre (classDecl n g) (classDecl n' g') := by
  refine peek _ fun isStruct => read_bind (advance_reads_token fun s hs => hpre s hs.1) fun _ => ?_
  refine expectIdent_progresses.bind fun name => ?_
  refine (generics_progresses hg hn hn').bind fun generics => ?_
  extract_lets after after'
  have hafter (supers : Node (.many .type)) :
      Progresses m .stays (fun _ => True) (after supers) (after' supers) :=
    (memberBlock_progresses hg true).bind fun members => pure
  exact .ite (fun _ => hafter .nil) fun _ => (supers_progresses hg hn hn').bind hafter

/-- A trait reads its keyword. -/
theorem traitDecl_progresses (hg : GrammarProgresses m g g') (hn : m < n) (hn' : m < n') :
    Progresses (m + 1) .reads pre (traitDecl n g) (traitDecl n' g') := by
  refine read_bind (expectKeyword_progresses .trait).discard fun _ => ?_
  refine expectIdent_progresses.bind fun name => ?_
  refine (generics_progresses hg hn hn').bind fun generics => ?_
  refine (supers_progresses hg hn hn').bind fun supers => ?_
  exact (memberBlock_progresses hg false).bind fun members => pure

/-- An object reads its keyword. -/
theorem objectDecl_progresses (hg : GrammarProgresses m g g') (hn : m < n) (hn' : m < n') :
    Progresses (m + 1) .reads pre (objectDecl n g) (objectDecl n' g') := by
  refine read_bind (expectKeyword_progresses .object).discard fun _ => ?_
  refine expectIdent_progresses.bind fun name => (supers_progresses hg hn hn').bind fun supers => ?_
  exact (memberBlock_progresses hg false).bind fun members => pure

/-- A type alias reads its keyword. -/
theorem aliasDecl_progresses (hg : GrammarProgresses m g g') (hn : m < n) (hn' : m < n') :
    Progresses (m + 1) .reads pre (aliasDecl n g) (aliasDecl n' g') := by
  refine read_bind (expectKeyword_progresses .type).discard fun _ => ?_
  refine expectIdent_progresses.bind fun name => ?_
  refine (generics_progresses hg hn hn').bind fun generics => ?_
  refine (expectSymbol_progresses (by decide)).discard.bind fun _ => ?_
  exact skipNewlines_progresses.bind fun _ => (hg .type).bind fun t => pure

/-- A constructor reads its keyword. -/
theorem initDecl_progresses (hg : GrammarProgresses m g g') (hn : m < n) (hn' : m < n') :
    Progresses (m + 1) .reads pre (initDecl n g) (initDecl n' g') := by
  refine read_bind (expectKeyword_progresses .init).discard fun _ => ?_
  refine (params_progresses hg hn hn').bind fun params => ?_
  exact ((block_progresses hg).later (Nat.le_succ m)).bind fun body => pure

/-- A field of an entry. -/
theorem entryField_progresses (hg : GrammarProgresses m g g') :
    Progresses m .stays pre (entryField g) (entryField g') :=
  expectIdent_progresses.bind fun _ => (expectSymbol_progresses (by decide)).discard.bind fun _ =>
    (hg .type).bind fun _ => pure

/-- What stands behind the name of an entry. -/
theorem enumEntryForm_progresses (hg : GrammarProgresses m g g') (hn : m < n) (hn' : m < n') :
    Progresses m .stays pre (enumEntryForm n g) (enumEntryForm n' g') := by
  refine peek _ fun k => ?_
  split
  · exact advance_progresses.bind fun _ => (hg .expr).bind fun value => pure
  · refine advance_progresses.bind fun _ => (openGroup_progresses true).bind fun _ => ?_
    refine (commaListTo_progresses (hg .type) hn.le hn'.le).bind fun types => ?_
    exact (closeStrict_progresses (by decide)).bind fun _ => pure
  · refine advance_progresses.bind fun _ => (openGroup_progresses true).bind fun _ => ?_
    refine (commaListTo_progresses (entryField_progresses hg) hn.le hn'.le).bind fun fields => ?_
    exact (closeStrict_progresses (by decide)).bind fun _ => pure
  · exact pure

/-- An entry of an enumeration reads its name. -/
theorem enumEntry_progresses (hg : GrammarProgresses m g g') (hn : m < n) (hn' : m < n') :
    Progresses (m + 1) .reads pre (enumEntry n g) (enumEntry n' g') := by
  refine peek _ fun start => read_bind expectIdent_progresses fun name => ?_
  refine (enumEntryForm_progresses hg hn hn').bind fun form => peek _ fun span => ?_
  exact origin_progresses.bind fun o => pure

/-- Each entry reads its name, so the rounds suffice. -/
theorem enumEntries_progresses (hg : GrammarProgresses m g g') {bound bound' k : Nat}
    (hbound : m < bound) (hbound' : m < bound') (hk : k ≤ m + 1) (hn : k ≤ n) (hn' : k ≤ n') :
    Progresses k .stays pre (enumEntries bound g n) (enumEntries bound' g' n') := by
  induction k, n, n', hn, hn' using rounds_induction generalizing pre with
  | zero => exact zero
  | succ k n n' hn hn' ih =>
    unfold enumEntries
    refine peek _ fun t => .ite (fun _ => pure) fun _ => ?_
    refine read_bind ((enumEntry_progresses hg hbound hbound').fewer hk) fun e => ?_
    refine peek _ fun t' => .ite (fun _ => pure) fun _ => ?_
    refine (quiet fun s => ⟨s.skipWhile_onward _, rfl⟩).bind fun _ => ?_
    exact (ih (by omega)).bind fun es => pure

/-- An enumeration reads its keyword. -/
theorem enumDecl_progresses (hg : GrammarProgresses m g g') (hn : m < n) (hn' : m < n') :
    Progresses (m + 1) .reads pre (enumDecl n g) (enumDecl n' g') := by
  refine read_bind (expectKeyword_progresses .enum).discard fun _ => ?_
  refine expectIdent_progresses.bind fun name => ?_
  refine (generics_progresses hg hn hn').bind fun generics => ?_
  refine (expectSymbol_progresses (by decide)).discard.bind fun _ => ?_
  refine (openGroup_progresses false).bind fun _ => skipSeparators_progresses.bind fun _ => ?_
  refine (enumEntries_progresses hg hn hn' (Nat.le_succ m) hn.le hn'.le).bind fun entries => ?_
  refine acceptSymbol_progresses.bind fun found => ?_
  extract_lets after
  have hafter (members : Node (.many .item)) :
      Progresses m .stays (fun _ => True) (after members) (after members) := by
    refine closeGroup_progresses.bind fun _ => skipTerminators_progresses.bind fun _ => ?_
    exact (expectSymbol_progresses (by decide)).discard.bind fun _ => pure
  exact .ite (fun _ => (hg (.members false)).bind hafter) fun _ => hafter .nil

/-- Every declaration begins with a token of its own. -/
theorem itemForm_progresses (hg : GrammarProgresses m g g') (hn : m < n) (hn' : m < n')
    (inClass : Bool) :
    Progresses (m + 1) .reads pre (itemForm n g inClass) (itemForm n' g' inClass) := by
  refine peek _ fun k => ?_
  split
  · exact func_progresses hg hn hn'
  · exact classDecl_progresses hg hn hn' fun s hs => by rw [hs.2]; simp
  · exact classDecl_progresses hg hn hn' fun s hs => by rw [hs.2]; simp
  · exact enumDecl_progresses hg hn hn'
  · exact traitDecl_progresses hg hn hn'
  · exact aliasDecl_progresses hg hn hn'
  · exact objectDecl_progresses hg hn hn'
  · refine .ite (fun _ => peek _ fun span => ?_) fun _ => initDecl_progresses hg hn hn'
    exact (record_progresses rfl (plain_of_ne fun _ _ => by simp)).bind fun _ =>
      initDecl_progresses hg hn hn'
  · exact failExpected_progresses (by decide)

/-- A declaration reads a token behind its attributes. -/
theorem itemAfter_progresses (hg : GrammarProgresses m g g') (hn : m < n) (hn' : m < n')
    (inClass : Bool) (start : Span) (earlier : List (Node .attr)) (before : List Modifier) :
    Progresses (m + 1) .reads pre (itemAfter n g inClass start earlier before)
      (itemAfter n' g' inClass start earlier before) := by
  refine (attrs_progresses hg hn hn' (Nat.le_refl _) hn hn').bind fun attrs => ?_
  refine (modifiers_progresses hn hn').bind fun modifiers => ?_
  refine (itemForm_progresses hg hn hn' inClass).bind_then fun form => ?_
  exact freshId_progresses.bind fun id => peek _ fun span => pure

/-- So it does with them. -/
theorem item_progresses (hg : GrammarProgresses m g g') (hn : m < n) (hn' : m < n') :
    Progresses (m + 1) .reads pre (item n g) (item n' g') :=
  peek _ fun start => itemAfter_progresses hg hn hn' false start [] []

/-- A field reads its name. -/
theorem field_progresses (hg : GrammarProgresses m g g') :
    Progresses (m + 1) .reads pre (field g) (field g') := by
  refine peek _ fun k => ?_
  extract_lets kind? after after'
  have hafter {pre : ParserState → Prop} :
      Progresses (m + 1) .reads pre (after ()) (after' ()) := by
    refine read_bind expectIdent_progresses fun name => ?_
    refine (expectSymbol_progresses (by decide)).discard.bind fun _ => ?_
    refine skipNewlines_progresses.bind fun _ => (hg .type).bind fun t => ?_
    refine acceptSymbol_progresses.bind fun found => .ite (fun _ => ?_) fun _ => pure
    exact skipNewlines_progresses.bind fun _ => (hg .expr).bind fun e => pure
  exact .ite (fun _ => advance_progresses.bind fun _ => hafter) fun _ => hafter

/-- A member is a field or a declaration, which both read a token. -/
theorem member_progresses (hg : GrammarProgresses m g g') (hn : m < n) (hn' : m < n')
    (inClass : Bool) :
    Progresses (m + 1) .reads pre (member n g inClass) (member n' g' inClass) := by
  refine peek _ fun start => ?_
  refine (attrs_progresses hg hn hn' (Nat.le_refl _) hn hn').bind fun attrs => ?_
  refine (modifiers_progresses hn hn').bind fun modifiers => peek _ fun k => ?_
  refine .ite (fun _ => ?_) fun _ => itemAfter_progresses hg hn hn' inClass start attrs modifiers
  refine (field_progresses hg).bind_then fun form => peek _ fun span => ?_
  exact origin_progresses.bind fun o => pure

/-- Each member reads a token or is abandoned behind one, so the rounds suffice. -/
theorem memberList_progresses (hg : GrammarProgresses m g g') (inClass : Bool)
    {bound bound' k : Nat} (hbound : m < bound) (hbound' : m < bound') (hk : k ≤ m + 1)
    (hn : k ≤ n) (hn' : k ≤ n') :
    Progresses k .stays pre (memberList bound g inClass n) (memberList bound' g' inClass n') := by
  induction k, n, n', hn, hn' using rounds_induction generalizing pre with
  | zero => exact zero
  | succ k n n' hn hn' ih =>
    unfold memberList
    refine peek _ fun closes => peek _ fun ends => .ite (fun _ => pure) fun hmore => ?_
    refine read_bind (recovering_progresses
      ((member_progresses hg hbound hbound' inClass).of_reads.fewer hk) fun s hs => ?_)
      fun member? => ?_
    · exact beq_eq_false_iff_ne.1 (hs.2.trans (by simpa using fun h => hmore (Or.inr h)))
    · refine skipTerminators_progresses.bind fun _ => ?_
      exact (ih (by omega)).bind fun members => pure

/-- The members of a declaration, for which there need not be any. -/
theorem members_progresses (hg : GrammarProgresses m g g') (hn : m < n) (hn' : m < n')
    (inClass : Bool) :
    Progresses (m + 1) .stays pre (members n g inClass) (members n' g' inClass) :=
  skipTerminators_progresses.bind fun _ =>
    (memberList_progresses hg inClass hn hn' (Nat.le_refl _) hn hn').bind fun _ => pure

end Declarations

section Statements

/-- A variable reads its keyword. -/
theorem variableDecl_progresses (hg : GrammarProgresses m g g') (kind : VarKind)
    (hpre : ∀ s, pre s → s.kind ≠ .eof) :
    Progresses (m + 1) .reads pre (variableDecl g kind) (variableDecl g' kind) := by
  refine read_bind (advance_reads_token hpre) fun _ => expectIdent_progresses.bind fun name => ?_
  refine acceptSymbol_progresses.bind fun typed => ?_
  extract_lets after after'
  have hafter (t : Node (.maybe .type)) :
      Progresses m .stays (fun _ => True) (after t) (after' t) := by
    refine acceptSymbol_progresses.bind fun found => .ite (fun _ => ?_) fun _ => pure
    exact skipNewlines_progresses.bind fun _ => (hg .expr).bind fun e => pure
  refine .ite (fun _ => skipNewlines_progresses.bind fun _ => ?_) fun _ => hafter .absent
  exact (hg .type).bind fun t => hafter (.present t)

/-- A loop over elements reads its keyword. -/
theorem forLoop_progresses (hg : GrammarProgresses m g g') :
    Progresses (m + 1) .reads pre (forLoop g) (forLoop g') := by
  refine read_bind (expectKeyword_progresses .for_).discard fun _ => ?_
  refine expectIdent_progresses.bind fun binding => ?_
  refine (expectKeyword_progresses .in_).discard.bind fun _ => ?_
  refine (headExpr_progresses hg).bind fun source => ?_
  exact ((block_progresses hg).later (Nat.le_succ m)).bind fun body => pure

/-- So does a loop with a condition. -/
theorem whileLoop_progresses (hg : GrammarProgresses m g g') :
    Progresses (m + 1) .reads pre (whileLoop g) (whileLoop g') := by
  refine read_bind (expectKeyword_progresses .while_).discard fun _ => ?_
  refine (headExpr_progresses hg).bind fun condition => ?_
  exact ((block_progresses hg).later (Nat.le_succ m)).bind fun body => pure

/-- Only a token of the text begins a variable. -/
theorem VarKind.ne_eof_of_ofToken {k : TokenKind} {kind : VarKind}
    (h : VarKind.ofToken? k = some kind) : k ≠ .eof := by
  rintro rfl
  cases h

/-- A statement reads a token, unless an expression is missing. -/
theorem stmtForm_progresses (hg : GrammarProgresses m g g') (hn : m < n) (hn' : m < n') :
    Progresses (m + 1) .reports pre (stmtForm n g) (stmtForm n' g') := by
  refine peek _ fun k => ?_
  split
  · rename_i kind hkind
    refine (variableDecl_progresses hg kind fun s hs => ?_).of_reads
    rw [hs.2]
    exact VarKind.ne_eof_of_ofToken hkind
  · refine .ite (fun _ => (forLoop_progresses hg).of_reads) fun _ => ?_
    refine .ite (fun _ => (whileLoop_progresses hg).of_reads) fun _ => ?_
    refine .ite (fun _ => ?_) fun _ => ?_
    · exact (item_progresses hg hn hn').of_reads.bind_then fun i => pure
    · exact (expr_progresses hg hn hn').bind_then fun e => pure

/-- A statement reads a token or reports that one is missing. -/
theorem stmt_progresses (hg : GrammarProgresses m g g') (hn : m < n) (hn' : m < n') :
    Progresses (m + 1) .reports pre (stmt n g) (stmt n' g') := by
  refine peek _ fun start => (stmtForm_progresses hg hn hn').bind_then fun form => ?_
  exact freshId_progresses.bind fun id => peek _ fun span => pure

/-- A statement or a stub has a token behind it. -/
theorem stmtOrStub_progresses (hg : GrammarProgresses m g g') (hn : m < n) (hn' : m < n')
    (hpre : ∀ s, pre s → s.kind ≠ .eof) :
    Progresses (m + 1) .reads pre (stmtOrStub n g) (stmtOrStub n' g') := by
  refine peek _ fun start => ?_
  refine (recovering_progresses (stmt_progresses hg hn hn') fun s hs => hpre s hs.1).bind_then
    fun s? => ?_
  split
  · exact pure
  · exact peek _ fun span => origin_progresses.bind fun o => pure

/-- Each statement reads a token when it is ended, so the rounds suffice. -/
theorem stmtList_progresses (hg : GrammarProgresses m g g') {bound bound' k : Nat}
    (hbound : m < bound) (hbound' : m < bound') (hk : k ≤ m + 1) (hn : k ≤ n) (hn' : k ≤ n') :
    Progresses k .stays pre (stmtList bound g n) (stmtList bound' g' n') := by
  induction k, n, n', hn, hn' using rounds_induction generalizing pre with
  | zero => exact zero
  | succ k n n' hn hn' ih =>
    unfold stmtList
    refine peek _ fun closes => peek _ fun ends => .ite (fun _ => pure) fun hmore => ?_
    refine read_bind ((stmtOrStub_progresses hg hbound hbound' fun s hs => ?_).fewer hk) fun x => ?_
    · exact beq_eq_false_iff_ne.1 (hs.2.trans (by simpa using fun h => hmore (Or.inr h)))
    · refine skipTerminators_progresses.bind fun _ => ?_
      exact (ih (by omega)).bind fun xs => pure

/-- The statements of a block, for which there need not be any. -/
theorem stmts_progresses (hg : GrammarProgresses m g g') (hn : m < n) (hn' : m < n') :
    Progresses (m + 1) .stays pre (stmts n g) (stmts n' g') :=
  skipTerminators_progresses.bind fun _ =>
    (stmtList_progresses hg hn hn' (Nat.le_refl _) hn hn').bind fun _ => pure

/-- A rule of the grammar gets on with one token more than the nonterminals it calls. -/
theorem rule_progresses (hg : GrammarProgresses m g g') (hn : m < n) (hn' : m < n') :
    GrammarProgresses (m + 1) (rule n g) (rule n' g') := by
  intro c x
  cases x with
  | expr => exact (expr_progresses hg hn hn').later (Nat.le_refl _)
  | power => exact (power_progresses hg hn hn').later (Nat.le_refl _)
  | operand => exact (operand_progresses hg hn hn').later (Nat.le_refl _)
  | cond =>
    exact (cond_progresses hg fun _ => id).mono (fun _ _ _ _ => trivial) (Nat.le_refl _) fun _ => id
  | type => exact (type_progresses hg hn hn').later (Nat.le_refl _)
  | stmts => exact stmts_progresses hg hn hn'
  | members inClass => exact members_progresses hg hn hn' inClass

/-- Two grammars for different numbers of tokens do the same with fewer tokens than both allow. -/
theorem grammar_progresses {k : Nat} (hn : k ≤ n) (hn' : k ≤ n') :
    GrammarProgresses k (grammar n) (grammar n') := by
  induction k, n, n', hn, hn' using rounds_induction with
  | zero => exact fun _ => zero
  | succ k n n' hn hn' ih =>
    exact rule_progresses ih (Nat.lt_succ_of_le hn) (Nat.lt_succ_of_le hn')

end Statements

end Parse

end FrontEnd
