import FrontEnd.Grammar.Expr
import FrontEnd.Proofs.Progress.Calculus

/-!
# Progress through types and expressions

The parsers of types and expressions get on, provided those of the nonterminals do with fewer
tokens: a nonterminal is called only behind a token that was read. An expression has read a token or
recorded an error in the end; everything behind an operand reads the token it begins with.
-/

namespace FrontEnd

/-- Where a nonterminal is read: a condition at a token, its keyword, and all others anywhere. -/
def Nonterminal.Ready : {c : Category} → Nonterminal c → ParserState → Prop
  | _, .cond, s => s.kind ≠ .eof
  | _, _, _ => True

/-- The parsers of all nonterminals get on from states with fewer than `m` tokens left. -/
def GrammarProgresses (m : Nat) (g g' : Grammar) : Prop :=
  ∀ {c : Category} (x : Nonterminal c), Progresses m .stays x.Ready (g x) (g' x)

namespace Parse

open Progresses

variable {m n n' : Nat} {pace : Pace} {pre : ParserState → Prop} {g g' : Grammar}

/-- A block reads its opening brace. -/
theorem block_progresses (hg : GrammarProgresses m g g') :
    Progresses (m + 1) .reads pre (block g) (block g') := by
  refine read_bind (expectSymbol_progresses (by decide)) fun start => ?_
  refine (openGroup_progresses false).bind fun _ => (hg .stmts).bind fun stmts => ?_
  refine (closeStrict_progresses (by decide)).bind fun _ => freshId_progresses.bind fun id => ?_
  exact peek _ fun span => pure

section Types

/-- Half of a `>>` may close angle brackets without being read. -/
theorem closeAngle_progresses : Progresses n .stays pre closeAngle closeAngle := by
  have setHalf (half : Bool) {pre : ParserState → Prop} :
      Progresses n .stays pre (modify fun s => { s with halfShift := half })
        (modify fun s => { s with halfShift := half }) :=
    quiet fun s => ⟨⟨rfl, List.suffix_refl s.rest, List.prefix_refl _⟩, rfl⟩
  refine state fun s => .ite (fun _ => advance_progresses) fun _ => .ite (fun _ => ?_) fun _ => ?_
  · exact .ite (fun _ => (setHalf false).bind fun _ => advance_progresses) fun _ => setHalf true
  · exact failExpected_progresses (by decide)

/-- Type arguments read their opening bracket. -/
theorem typeArgs_progresses (hg : GrammarProgresses m g g') (hn : m < n) (hn' : m < n') :
    Progresses (m + 1) .reads pre (typeArgs n g) (typeArgs n' g') := by
  refine read_bind (expectSymbol_progresses (by decide)).discard fun _ => ?_
  refine skipNewlines_progresses.bind fun _ => ?_
  refine (commaList_progresses skipNewlines_progresses (hg .type) hn.le hn'.le false).bind
    fun r => ?_
  exact closeAngle_progresses.bind fun _ => pure

/-- Every segment of a path reads a name. -/
theorem segments_progresses (hg : GrammarProgresses m g g') {bound bound' k : Nat}
    (hbound : m < bound) (hbound' : m < bound') (inType : Bool) (hk : k ≤ m + 1) (hn : k ≤ n)
    (hn' : k ≤ n') :
    Progresses k .reads pre (segments bound g inType n) (segments bound' g' inType n') := by
  induction k, n, n', hn, hn' using rounds_induction generalizing pre with
  | zero => exact zero
  | succ k n n' hn hn' ih =>
    have others {pre : ParserState → Prop} :
        Progresses k .stays pre (segments bound g inType n) (segments bound' g' inType n') :=
      (ih (by omega)).later (Nat.le_refl k)
    have args {pre : ParserState → Prop} :
        Progresses k .stays pre (typeArgs bound g) (typeArgs bound' g') :=
      (typeArgs_progresses hg hbound hbound').later (by omega)
    unfold segments
    refine read_bind expectIdent_progresses fun ident => peek _ fun angle => ?_
    extract_lets after after'
    have hafter (direct : List TypeExpr) :
        Progresses k .stays (fun _ => True) (after direct) (after' direct) := by
      refine acceptSymbol_progresses.bind fun more => .ite (fun _ => pure) fun _ => ?_
      refine peek _ fun angle' => .ite (fun _ => args.bind fun list => ?_) fun _ =>
        others.bind fun names => pure
      exact acceptSymbol_progresses.bind fun more =>
        .ite (fun _ => others.bind fun names => pure) fun _ => pure
    exact .ite (fun _ => args.bind hafter) fun _ => (hafter []).anywhere

/-- A path reads its first name or the mark in front of it. -/
theorem path_progresses (hg : GrammarProgresses m g g') (hn : m < n) (hn' : m < n')
    (inType : Bool) : Progresses (m + 1) .reads pre (path n g inType) (path n' g' inType) := by
  refine peek _ fun start => acceptSymbol_progresses.bind fun global => ?_
  refine (segments_progresses hg hn hn' inType (Nat.le_refl _) hn hn').bind_then fun names => ?_
  exact peek _ fun span => pure

/-- Types in parentheses read the opening one. -/
theorem parenType_progresses (hg : GrammarProgresses m g g') (hn : m < n) (hn' : m < n')
    (hpre : ∀ s, pre s → s.kind ≠ .eof) :
    Progresses (m + 1) .reads pre (parenType n g) (parenType n' g') := by
  refine peek _ fun start => read_bind (advance_reads_token fun s hs => hpre s hs.1) fun _ => ?_
  refine (openGroup_progresses true).bind fun _ => ?_
  refine (commaList_progresses pure (hg .type) hn.le hn'.le false).bind fun r => ?_
  refine (close_progresses (by decide)).bind fun closed => .ite (fun _ => newType_progresses)
    fun _ => acceptSymbol_progresses.bind fun arrow => .ite (fun _ => ?_) fun _ => ?_
  · exact (hg .type).bind fun result => newType_progresses
  · exact peek _ fun span => newType_progresses

/-- A slice or an array reads its bracket. -/
theorem bracketType_progresses (hg : GrammarProgresses m g g')
    (hpre : ∀ s, pre s → s.kind ≠ .eof) :
    Progresses (m + 1) .reads pre (bracketType g) (bracketType g') := by
  refine peek _ fun start => read_bind (advance_reads_token fun s hs => hpre s hs.1) fun _ => ?_
  refine (openGroup_progresses true).bind fun _ => (hg .type).bind fun item => ?_
  refine acceptSymbol_progresses.bind fun sized => ?_
  extract_lets after
  have hafter (form : TypeForm) :
      Progresses m .stays (fun _ => True) (after form) (after form) := by
    refine (close_progresses (by decide)).bind fun closed => .ite (fun _ => newType_progresses)
      fun _ => ?_
    exact peek _ fun span => newType_progresses
  exact .ite (fun _ => (hg .expr).bind fun size => hafter (.arrayType item size)) fun _ =>
    hafter (.sliceType item)

/-- A type reads a token, unless it is missing. -/
theorem type_progresses (hg : GrammarProgresses m g g') (hn : m < n) (hn' : m < n') :
    Progresses (m + 1) .reports pre (type n g) (type n' g') := by
  have of_path {pre : ParserState → Prop} : Progresses (m + 1) .reads pre
      (path n g true >>= fun p => newType (.pathType p) p.pathSpan)
      (path n' g' true >>= fun p => newType (.pathType p) p.pathSpan) :=
    (path_progresses hg hn hn' true).bind_then fun p => newType_progresses
  refine peek _ fun k => ?_
  split
  · exact of_path.of_reads
  · exact of_path.of_reads
  · exact (parenType_progresses hg hn hn' fun s hs => by rw [hs.2]; simp).of_reads
  · exact (bracketType_progresses hg fun s hs => by rw [hs.2]; simp).of_reads
  · refine (reportExpected_progresses (by decide)).bind_then fun _ => ?_
    exact peek _ fun span => newType_progresses

/-- A type behind a colon that may be there. -/
theorem typeAfterColon_progresses (hg : GrammarProgresses m g g') :
    Progresses m .stays pre (typeAfterColon? g) (typeAfterColon? g') :=
  acceptSymbol_progresses.bind fun _ =>
    .ite (fun _ => (hg .type).bind fun _ => pure) fun _ => pure

/-- A value behind an equals sign that may be there. -/
theorem defaultValue_progresses (hg : GrammarProgresses m g g') :
    Progresses m .stays pre (defaultValue? g) (defaultValue? g') :=
  acceptSymbol_progresses.bind fun _ =>
    .ite (fun _ => (hg .expr).bind fun _ => pure) fun _ => pure

/-- What a generic parameter is: a lifetime, a constant or a type. -/
theorem genericForm_progresses (hg : GrammarProgresses m g g') :
    Progresses m .stays pre (genericForm g) (genericForm g') := by
  refine peek _ fun t => ?_
  split
  · exact advance_progresses.bind fun _ => pure
  · refine (accept_progresses _).bind fun isConst => .ite (fun _ => ?_) fun _ => ?_
    · refine expectIdent_progresses.bind fun name => ?_
      refine (expectSymbol_progresses (by decide)).discard.bind fun _ => ?_
      exact (hg .type).bind fun t => (defaultValue_progresses hg).bind fun default => pure
    · refine expectIdent_progresses.bind fun name => ?_
      exact (typeAfterColon_progresses hg).bind fun bound => pure

/-- A generic parameter. -/
theorem generic_progresses (hg : GrammarProgresses m g g') :
    Progresses m .stays pre (generic g) (generic g') := by
  refine peek _ fun start => (genericForm_progresses hg).bind fun r => peek _ fun span => ?_
  exact origin_progresses.bind fun o => pure

/-- Generic parameters, for which there need not be any. -/
theorem generics_progresses (hg : GrammarProgresses m g g') (hn : m < n) (hn' : m < n') :
    Progresses m .stays pre (generics n g) (generics n' g') := by
  refine acceptSymbol_progresses.bind fun found => .ite (fun _ => pure) fun _ => ?_
  refine skipNewlines_progresses.bind fun _ => ?_
  refine (commaList_progresses skipNewlines_progresses (generic_progresses hg) hn.le hn'.le
    false).bind fun r => ?_
  exact closeAngle_progresses.bind fun _ => pure

end Types

section Expressions

/-- An expression in front of a body gets on like any other. -/
theorem headExpr_progresses (hg : GrammarProgresses m g g') :
    Progresses m .stays pre (headExpr g) (headExpr g') := by
  intro s sound hlt _
  have sound' : { s with allowsBrace := false }.Sound := ⟨sound.final, sound.rest⟩
  have inner := hg .expr sound' hlt trivial
  unfold headExpr
  dsimp only at inner ⊢
  obtain ⟨heq, run⟩ := inner
  rw [heq]
  refine ⟨rfl, ?_⟩
  cases hrun : g .expr { s with allowsBrace := false } with
  | error e s' =>
    rw [hrun] at run
    obtain ⟨leads, justified⟩ := run
    refine ⟨⟨⟨leads.final, leads.rest, leads.diagnostics⟩, leads.recorded⟩, ?_⟩
    cases justified with
    | ended plain => exact .ended plain
    | full count => exact .full count
    | passing fatal plain => exact .passing fatal plain
  | ok e s' =>
    rw [hrun] at run
    obtain ⟨leads, -⟩ := run
    exact ⟨⟨⟨leads.final, leads.rest, leads.diagnostics⟩, leads.recorded⟩, trivial⟩

/-- A label that may be there. -/
theorem label_progresses : Progresses n .stays pre label? label? :=
  state fun _ => .ite
    (fun _ => expectIdent_progresses.bind fun _ => advance_progresses.bind fun _ => pure)
    fun _ => pure

/-- An argument may be a missing expression. -/
theorem argument_progresses (hg : GrammarProgresses m g g') :
    Progresses m .stays pre (argument g) (argument g') :=
  peek _ fun _ => label_progresses.bind fun _ => (hg .expr).bind fun _ => pure

/-- The arguments of a call. -/
theorem arguments_progresses (hg : GrammarProgresses m g g') (hn : m < n) (hn' : m < n') :
    Progresses m .stays pre (arguments n g) (arguments n' g') :=
  (commaListTo_progresses (argument_progresses hg) hn.le hn'.le).map

/-- The expressions of a list. -/
theorem items_progresses (hg : GrammarProgresses m g g') (hn : m < n) (hn' : m < n') :
    Progresses m .stays pre (items n g) (items n' g') :=
  (commaListTo_progresses (hg .expr) hn.le hn'.le).map

/-- A field of a struct value. -/
theorem fieldInit_progresses (hg : GrammarProgresses m g g') :
    Progresses m .stays pre (fieldInit g) (fieldInit g') := by
  refine acceptSymbol_progresses.bind fun isBase => .ite (fun _ => ?_) fun _ => ?_
  · exact (hg .expr).bind fun value => pure
  · refine label_progresses.bind fun name? => ?_
    split
    · exact (hg .expr).bind fun value => pure
    · exact (hg .expr).bind fun value => pure

/-- A struct value, behind its path. -/
theorem construct_progresses (hg : GrammarProgresses m g g') (hn : m < n) (hn' : m < n')
    (p : Path) : Progresses (m + 1) .stays (fun s => s.kind ≠ .eof) (construct n g p)
      (construct n' g' p) := by
  refine read_bind (advance_reads_token fun s hs => hs) fun _ => ?_
  refine (openGroup_progresses true).bind fun _ => ?_
  refine (commaListTo_progresses (fieldInit_progresses hg) hn.le hn'.le).bind fun fields => ?_
  refine (close_progresses (by decide)).bind fun closed => .ite (fun _ => newExpr_progresses)
    fun _ => ?_
  exact peek _ fun span => newExpr_progresses

/-- A struct value reads at least its path. -/
theorem pathOrConstruct_progresses (hg : GrammarProgresses m g g') (hn : m < n) (hn' : m < n') :
    Progresses (m + 1) .reads pre (pathOrConstruct n g) (pathOrConstruct n' g') := by
  refine (path_progresses hg hn hn' false).bind_then fun p => state fun s => peek _ fun brace => ?_
  refine .ite (fun h => ?_) fun _ => ?_
  · refine (construct_progresses hg hn hn' p).mono (fun _ _ _ => id) (Nat.le_refl _) fun s hs => ?_
    rw [eq_of_beq (hs.2.trans h.2)]
    simp
  · split
    · exact newExpr_progresses
    · exact newExpr_progresses

/-- The elements of a tuple behind the first one. -/
theorem tupleRest_progresses (hg : GrammarProgresses m g g') {k : Nat} (hk : k ≤ m) (hn : k ≤ n)
    (hn' : k ≤ n') : Progresses k .stays pre (tupleRest g n) (tupleRest g' n') := by
  induction k, n, n', hn, hn' using rounds_induction generalizing pre with
  | zero => exact zero
  | succ k n n' hn hn' ih =>
    unfold tupleRest
    refine acceptSymbol_unless ?_ pure
    refine peek _ fun closes => .ite (fun _ => pure) fun _ => ?_
    refine ((argument_progresses hg).fewer (by omega)).bind fun x => ?_
    exact (ih (by omega)).bind fun xs => pure

/-- Warnings about parentheses may be recorded. -/
theorem checkParens_progresses (inner : Expr) (span : Span) :
    Progresses n .stays pre (checkParens inner span) (checkParens inner span) := by
  unfold checkParens
  split
  · rename_i text useless
    exact update fun s _ _ => ⟨s.report_leads (.warning useless), trivial⟩
  · exact pure

/-- What is in parentheses reads the opening one. -/
theorem parenExpr_progresses (hg : GrammarProgresses m g g') (hn : m < n) (hn' : m < n')
    (hpre : ∀ s, pre s → s.kind ≠ .eof) :
    Progresses (m + 1) .reads pre (parenExpr n g) (parenExpr n' g') := by
  refine peek _ fun start => read_bind (advance_reads_token fun s hs => hpre s hs.1) fun _ => ?_
  refine (openGroup_progresses true).bind fun _ => peek _ fun isUnit => ?_
  refine .ite (fun _ => ?_) fun _ => ?_
  · refine closeGroup_progresses.bind fun _ => advance_progresses.bind fun _ => ?_
    exact peek _ fun span => newExpr_progresses
  · refine (argument_progresses hg).bind fun first => ?_
    extract_lets after after'
    have hafter {pre : ParserState → Prop} : Progresses m .stays pre (after ()) (after' ()) := by
      refine (tupleRest_progresses hg (Nat.le_refl m) hn.le hn'.le).bind fun others => ?_
      refine (close_progresses (by decide)).bind fun closed => .ite (fun _ => newExpr_progresses)
        fun _ => ?_
      exact peek _ fun span => newExpr_progresses
    split
    · rename_i inner span
      refine peek _ fun comma => .ite (fun _ => ?_) fun _ => hafter
      refine (close_progresses (by decide)).bind fun closed => .ite (fun _ => newExpr_progresses)
        fun _ => ?_
      refine peek _ fun span => (checkParens_progresses inner span).bind fun _ => ?_
      exact newExpr_progresses
    · exact hafter

/-- A list reads its bracket. -/
theorem listExpr_progresses (hg : GrammarProgresses m g g') (hn : m < n) (hn' : m < n')
    (hpre : ∀ s, pre s → s.kind ≠ .eof) :
    Progresses (m + 1) .reads pre (listExpr n g) (listExpr n' g') := by
  refine peek _ fun start => read_bind (advance_reads_token fun s hs => hpre s hs.1) fun _ => ?_
  refine (openGroup_progresses true).bind fun _ => ?_
  refine (items_progresses hg hn hn').bind fun values => ?_
  refine (close_progresses (by decide)).bind fun closed => .ite (fun _ => newExpr_progresses)
    fun _ => ?_
  exact peek _ fun span => newExpr_progresses

/-- A further condition is read at its keyword. -/
theorem nextCond_progresses (hg : GrammarProgresses m g g') (hpre : ∀ s, pre s → s.kind ≠ .eof) :
    Progresses m .stays pre (g .cond) (g' .cond) :=
  (hg .cond).known hpre

/-- A second branch is read by the nonterminals, behind the body of the first one. -/
theorem elseBranch_progresses (hg : GrammarProgresses m g g') :
    Progresses m .stays pre (elseBranch? g) (elseBranch? g') := by
  refine state fun s => ?_
  split
  · rename_i helif
    refine update_bind (fun s' => s'.kind = .keyword .elif) (fun s' _ hs => ?_) ?_
    · refine ⟨(s'.skipWhile_onward _).leads rfl, ?_⟩
      exact (congrArg ParserState.kindAfterNewlines hs.2).trans helif
    · refine (nextCond_progresses hg fun s' hs => ?_).bind fun e => pure
      rw [hs]
      simp
  · refine skipNewlines_progresses.bind fun _ => advance_progresses.bind fun _ => ?_
    refine peek _ fun chained => .ite (fun hchained => ?_) fun _ => ?_
    · refine (nextCond_progresses hg fun s' hs => ?_).bind fun e => pure
      rw [eq_of_beq (hs.2.trans hchained)]
      simp
    refine peek _ fun start => ((block_progresses hg).fewer (Nat.le_succ m)).bind fun body => ?_
    exact peek _ fun span => newExpr_progresses.bind fun e => pure
  · exact pure

/-- A condition reads its keyword. -/
theorem cond_progresses (hg : GrammarProgresses m g g') (hpre : ∀ s, pre s → s.kind ≠ .eof) :
    Progresses (m + 1) .reads pre (cond g) (cond g') := by
  refine peek _ fun start => read_bind (advance_reads_token fun s hs => hpre s hs.1) fun _ => ?_
  refine (headExpr_progresses hg).bind fun condition => ?_
  refine ((block_progresses hg).later (Nat.le_succ m)).bind fun positive => ?_
  exact (elseBranch_progresses hg).bind fun negative => peek _ fun span => newExpr_progresses

/-- The conditions of an entry; behind the last one a symbol has to be read. -/
theorem entryConditions_progresses (hg : GrammarProgresses m g g') {k : Nat} (hk : k ≤ m)
    (hn : k ≤ n) (hn' : k ≤ n') :
    Progresses k .stays pre (entryConditions g n) (entryConditions g' n') := by
  induction k, n, n', hn, hn' using rounds_induction generalizing pre with
  | zero => exact zero
  | succ k n n' hn hn' ih =>
    unfold entryConditions
    refine ((hg .expr).later hk).bind fun x => ?_
    refine acceptSymbol_unless (skipNewlines_progresses.bind fun _ => ?_) pure
    exact (ih (by omega)).bind fun xs => pure

/-- An entry of a choice reads its arrow. -/
theorem selectEntry_progresses (hg : GrammarProgresses m g g') (hn : m < n) (hn' : m < n') :
    Progresses m .reads pre (selectEntry n g) (selectEntry n' g') := by
  refine peek _ fun start => (accept_progresses _).bind fun isElse => ?_
  extract_lets after after'
  have hafter (conditions : List Expr) :
      Progresses m .reads (fun _ => True) (after conditions) (after' conditions) := by
    refine (expectSymbol_progresses (by decide)).discard.bind_then fun _ => ?_
    refine skipNewlines_progresses.bind fun _ => (hg .expr).bind fun body => peek _ fun span => ?_
    exact origin_progresses.bind fun o => pure
  exact .ite (fun _ => hafter []) fun _ =>
    (entryConditions_progresses hg (Nat.le_refl m) hn.le hn'.le).bind hafter

/-- Each entry of a choice reads its arrow, so the rounds suffice. -/
theorem selectEntries_progresses (hg : GrammarProgresses m g g') {bound bound' k : Nat}
    (hbound : m < bound) (hbound' : m < bound') (hk : k ≤ m) (hn : k ≤ n) (hn' : k ≤ n') :
    Progresses k .stays pre (selectEntries bound g n) (selectEntries bound' g' n') := by
  induction k, n, n', hn, hn' using rounds_induction generalizing pre with
  | zero => exact zero
  | succ k n n' hn hn' ih =>
    unfold selectEntries
    refine peek _ fun closes => peek _ fun ends => .ite (fun _ => pure) fun _ => ?_
    refine read_bind ((selectEntry_progresses hg hbound hbound').fewer hk) fun entry => ?_
    refine skipSeparators_progresses.bind fun _ => ?_
    exact (ih (by omega)).bind fun entries => pure

/-- A choice reads its keyword. -/
theorem select_progresses (hg : GrammarProgresses m g g') (hn : m < n) (hn' : m < n')
    (hpre : ∀ s, pre s → s.kind ≠ .eof) :
    Progresses (m + 1) .reads pre (select n g) (select n' g') := by
  refine peek _ fun start => read_bind (advance_reads_token fun s hs => hpre s hs.1) fun _ => ?_
  refine (headExpr_progresses hg).bind fun subject => ?_
  refine (expectSymbol_progresses (by decide)).discard.bind fun _ => ?_
  refine (openGroup_progresses false).bind fun _ => skipSeparators_progresses.bind fun _ => ?_
  refine (selectEntries_progresses hg hn hn' (Nat.le_refl m) hn.le hn'.le).bind fun entries => ?_
  exact (closeStrict_progresses (by decide)).bind fun _ => peek _ fun span => newExpr_progresses

/-- A parameter of a lambda. -/
theorem lambdaParam_progresses (hg : GrammarProgresses m g g') :
    Progresses m .stays pre (lambdaParam g) (lambdaParam g') := by
  refine expectIdent_progresses.bind fun name => acceptSymbol_progresses.bind fun typed => ?_
  extract_lets after
  have hafter (t : Node (.maybe .type)) :
      Progresses m .stays (fun _ => True) (after t) (after t) :=
    freshId_progresses.bind fun id => pure
  refine .ite (fun _ => skipNewlines_progresses.bind fun _ => ?_) fun _ => hafter .absent
  exact (hg .type).bind fun t => hafter (.present t)

/-- The parameters of a lambda read a bar. -/
theorem lambdaParams_progresses (hg : GrammarProgresses m g g') (hn : m < n) (hn' : m < n') :
    Progresses (m + 1) .reads pre (lambdaParams n g) (lambdaParams n' g') := by
  refine acceptSymbol_ite ?_ ?_
  · refine skipNewlines_progresses.bind fun _ => ?_
    refine (commaList_progresses skipNewlines_progresses (lambdaParam_progresses hg) hn.le hn'.le
      false).bind fun r => ?_
    exact (expectSymbol_progresses (by decide)).discard.bind fun _ => pure
  · exact (expectSymbol_progresses (by decide)).discard.bind_then fun _ => pure

/-- A lambda reads its bar. -/
theorem lambda_progresses (hg : GrammarProgresses m g g') (hn : m < n) (hn' : m < n') :
    Progresses (m + 1) .reads pre (lambda n g) (lambda n' g') := by
  refine peek _ fun start => read_bind (lambdaParams_progresses hg hn hn') fun params => ?_
  refine acceptSymbol_progresses.bind fun arrow => ?_
  extract_lets after after'
  have hafter (result : Node (.maybe .type)) :
      Progresses m .stays (fun _ => True) (after result) (after' result) :=
    skipNewlines_progresses.bind fun _ => (hg .expr).bind fun body => newExpr_progresses
  exact .ite (fun _ => (hg .type).bind fun t => hafter (.present t)) fun _ => hafter .absent

/-- A handled block reads its keyword. -/
theorem tryCatch_progresses (hg : GrammarProgresses m g g') (hpre : ∀ s, pre s → s.kind ≠ .eof) :
    Progresses (m + 1) .reads pre (tryCatch g) (tryCatch g') := by
  have body {pre : ParserState → Prop} : Progresses m .stays pre (block g) (block g') :=
    (block_progresses hg).later (Nat.le_succ m)
  refine peek _ fun start => read_bind (advance_reads_token fun s hs => hpre s hs.1) fun _ => ?_
  refine body.bind fun tried => state fun s => ?_
  extract_lets after after'
  have hafter {pre : ParserState → Prop} : Progresses m .stays pre (after ()) (after' ()) := by
    refine (expectKeyword_progresses _).discard.bind fun _ => ?_
    refine expectIdent_progresses.bind fun binding => body.bind fun handling => ?_
    exact freshId_progresses.bind fun id => peek _ fun span => newExpr_progresses
  exact .ite (fun _ => skipNewlines_progresses.bind fun _ => hafter) fun _ => hafter

/-- A value that may be missing. -/
theorem value_progresses (hg : GrammarProgresses m g g') :
    Progresses m .stays pre (value? g) (value? g') :=
  peek _ fun _ => .ite (fun _ => (hg .expr).anywhere.bind fun _ => pure) fun _ => pure

/-- An expression that is given by the token at hand reads it; without such a token nothing is
read. -/
theorem simpleForm_bind {α : Type} (hg : GrammarProgresses m g g')
    {f f' : Option ExprForm → Parser α}
    (found : ∀ form, Progresses m .stays (fun _ => True) (f (some form)) (f' (some form)))
    (missing : Progresses (m + 1) pace (fun _ => True) (f none) (f' none)) :
    Progresses (m + 1) pace pre (simpleForm? g >>= f) (simpleForm? g' >>= f') := by
  have behind {r r' : Unit → Parser (Option ExprForm)} {pre : ParserState → Prop}
      (hpre : ∀ s, pre s → s.kind ≠ .eof)
      (h : Progresses m .stays (fun _ => True) (r () >>= f) (r' () >>= f')) :
      Progresses (m + 1) pace pre ((advance >>= r) >>= f) ((advance >>= r') >>= f') :=
    assoc (read_bind (advance_reads_token hpre) fun _ => h)
  refine assoc (peek _ fun k => ?_)
  split
  · rename_i literal hliteral
    refine behind (fun s hs => ?_) (found (.literal literal))
    rintro heof
    rw [← hs.2, heof] at hliteral
    cases hliteral
  · split
    · exact behind (fun s hs => by rw [hs.2]; simp) (found .this_)
    · exact behind (fun s hs => by rw [hs.2]; simp) (found .super)
    · exact assoc (read_bind (block_progresses hg) fun body => found (.blockExpr body))
    · refine behind (fun s hs => by rw [hs.2]; simp) (assoc ?_)
      exact ((block_progresses hg).later (Nat.le_succ m)).bind fun body => found (.loop body)
    · refine behind (fun s hs => by rw [hs.2]; simp) (assoc ?_)
      exact (value_progresses hg).bind fun value => found (.break_ value)
    · exact behind (fun s hs => by rw [hs.2]; simp) (found .continue_)
    · refine behind (fun s hs => by rw [hs.2]; simp) (assoc ?_)
      exact (value_progresses hg).bind fun value => found (.return_ value)
    · refine behind (fun s hs => by rw [hs.2]; simp) (assoc ?_)
      exact (hg .expr).bind fun value => found (.throw value)
    · refine behind (fun s hs => by rw [hs.2]; simp) (assoc ?_)
      exact (hg .operand).bind fun inner => found (.spread inner)
    · exact missing.anywhere

/-- An expression without operators reads a token, unless it is missing. -/
theorem primary_progresses (hg : GrammarProgresses m g g') (hn : m < n) (hn' : m < n') :
    Progresses (m + 1) .reports pre (primary n g) (primary n' g') := by
  refine peek _ fun k => ?_
  split
  · exact (pathOrConstruct_progresses hg hn hn').of_reads
  · exact (pathOrConstruct_progresses hg hn hn').of_reads
  · exact (parenExpr_progresses hg hn hn' fun s hs => by rw [hs.2]; simp).of_reads
  · exact (listExpr_progresses hg hn hn' fun s hs => by rw [hs.2]; simp).of_reads
  · exact (cond_progresses hg fun s hs => by rw [hs.2]; simp).of_reads
  · exact (select_progresses hg hn hn' fun s hs => by rw [hs.2]; simp).of_reads
  · exact (lambda_progresses hg hn hn').of_reads
  · exact (lambda_progresses hg hn hn').of_reads
  · exact (tryCatch_progresses hg fun s hs => by rw [hs.2]; simp).of_reads
  · refine peek _ fun start => simpleForm_bind hg (fun form => ?_) ?_
    · exact peek _ fun span => newExpr_progresses
    · refine (reportExpected_progresses (by decide)).bind_then fun _ => ?_
      exact peek _ fun span => newExpr_progresses

end Expressions

section Operators

/-- Everything behind an operand reads the token it begins with. -/
theorem suffixes_progresses (hg : GrammarProgresses m g g') {bound bound' k : Nat}
    (hbound : m < bound) (hbound' : m < bound') (hk : k ≤ m + 1) (hn : k ≤ n) (hn' : k ≤ n')
    (e : Expr) : Progresses k .stays pre (suffixes bound g n e) (suffixes bound' g' n' e) := by
  induction k, n, n', hn, hn' using rounds_induction generalizing pre e with
  | zero => exact zero
  | succ k n n' hn hn' ih =>
    have made (form : ExprForm) (span : Span) {pre : ParserState → Prop} :
        Progresses k .stays pre (newExpr form span >>= suffixes bound g n)
          (newExpr form span >>= suffixes bound' g' n') :=
      newExpr_progresses.bind fun e => ih (by omega) e
    unfold suffixes
    refine state fun s => ?_
    extract_lets behind start after after'
    have hafter {pre : ParserState → Prop} :
        Progresses (k + 1) .stays pre (after ()) (after' ()) := by
      refine peek _ fun k' => ?_
      split
      · refine read_bind (advance_reads_token fun s hs => by rw [hs.2]; simp) fun _ => ?_
        refine (openGroup_progresses true).bind fun _ => ?_
        refine ((arguments_progresses hg hbound hbound').fewer (by omega)).bind fun args => ?_
        refine (close_progresses (by decide)).bind fun closed => .ite (fun _ => newExpr_progresses)
          fun _ => ?_
        exact peek _ fun span => made (.call e args) span
      · refine read_bind (advance_reads_token fun s hs => by rw [hs.2]; simp) fun _ => ?_
        refine (openGroup_progresses true).bind fun _ => ?_
        refine ((items_progresses hg hbound hbound').fewer (by omega)).bind fun indices => ?_
        refine (close_progresses (by decide)).bind fun closed => .ite (fun _ => newExpr_progresses)
          fun _ => ?_
        exact peek _ fun span => made (.index e indices) span
      · refine read_bind (advance_reads_token fun s hs => by rw [hs.2]; simp) fun _ => ?_
        refine skipNewlines_progresses.bind fun _ => expectIdent_progresses.bind fun field => ?_
        exact made _ _
      · refine read_bind (advance_reads_token fun s hs => by rw [hs.2]; simp) fun _ => ?_
        refine skipNewlines_progresses.bind fun _ => expectIdent_progresses.bind fun field => ?_
        exact made _ _
      · split
        · rename_i op hop
          refine peek _ fun span => read_bind (advance_reads_token fun s hs => ?_) fun _ =>
            made (.suffixed op e) _
          rintro heof
          rw [← hs.1.2, heof] at hop
          cases hop
        · exact pure
    exact .ite (fun _ => skipNewlines_progresses.bind fun _ => hafter) fun _ => hafter

/-- Only a token in front of an operand is an operator. -/
theorem PrefixOp.ne_eof_of_ofTokens {k next : TokenKind} {op : PrefixOp}
    (h : PrefixOp.ofTokens? k next = some op) : k ≠ .eof := by
  rintro rfl
  cases h

/-- An operand reads a token or reports that it is missing. -/
theorem operand_progresses (hg : GrammarProgresses m g g') (hn : m < n) (hn' : m < n') :
    Progresses (m + 1) .reports pre (operand n g) (operand n' g') := by
  refine state fun s => ?_
  dsimp only
  split
  · rename_i op hop
    have here {s' : ParserState} (hs : pre s' ∧ s' = s) : s'.kind ≠ .eof :=
      hs.2 ▸ PrefixOp.ne_eof_of_ofTokens hop
    let unary (e : Expr) := newExpr (.unary op e) (s.current.span.cover e.span)
    have inner {pre : ParserState → Prop} :
        Progresses m .stays pre (g .operand >>= unary) (g' .operand >>= unary) :=
      (hg .operand).anywhere.bind fun inner => newExpr_progresses
    refine .ite (fun _ => ?_) fun _ => ?_
    · exact read_bind (advance_reads_token fun s' hs => here hs) fun _ =>
        advance_progresses.bind fun _ => inner
    · exact read_bind (advance_reads_token fun s' hs => here hs) fun _ => inner
  · exact (primary_progresses hg hn hn').bind_then fun e =>
      suffixes_progresses hg hn hn' (Nat.le_refl _) hn hn' e

/-- Each cast reads its keyword, so the rounds suffice. -/
theorem casts_progresses (hg : GrammarProgresses m g g') {k : Nat} (hk : k ≤ m + 1) (hn : k ≤ n)
    (hn' : k ≤ n') (e : Expr) : Progresses k .stays pre (casts g n e) (casts g' n' e) := by
  induction k, n, n', hn, hn' using rounds_induction generalizing pre e with
  | zero => exact zero
  | succ k n n' hn hn' ih =>
    unfold casts
    refine peek _ fun k' => .ite (fun h => ?_) fun _ => pure
    refine read_bind (advance_reads_token fun s hs => ?_) fun _ => ?_
    · rw [hs.2]
      rcases h with rfl | rfl <;> simp
    · refine ((hg .type).fewer (by omega)).bind fun t => newExpr_progresses.bind fun e => ?_
      exact ih (by omega) e

/-- A power does what its left side does. -/
theorem power_progresses (hg : GrammarProgresses m g g') (hn : m < n) (hn' : m < n') :
    Progresses (m + 1) .reports pre (power n g) (power n' g') := by
  refine (operand_progresses hg hn hn').bind_then fun e => ?_
  refine (casts_progresses hg (Nat.le_refl _) hn hn' e).bind fun left => ?_
  refine acceptSymbol_unless (skipNewlines_progresses.bind fun _ => ?_) pure
  exact (hg .power).bind fun right => newExpr_progresses

/-- The end of the text is no operator. -/
theorem Level.ne_eof_of_op {level : Level} {t : Token} {op : BinaryOp}
    (h : level.op? t = some op) : t.kind ≠ .eof := by
  intro heof
  cases level with
  | operators ops =>
    have hop := List.find?_some h
    rw [heof] at hop
    cases op <;> simp [BinaryOp.token] at hop
  | customNames =>
    unfold Level.op? at h
    rw [heof] at h
    cases h

/-- Each operation reads its operator, so the rounds suffice. -/
theorem chain_progresses {level : Level} {tighter tighter' : Parser Expr} {k : Nat} (hn : k ≤ n)
    (hn' : k ≤ n') (htighter : Progresses k .stays (fun _ => True) tighter tighter') (left : Expr) :
    Progresses k .stays pre (chain level tighter n left) (chain level tighter' n' left) := by
  induction k, n, n', hn, hn' using rounds_induction generalizing pre left with
  | zero => exact zero
  | succ k n n' hn hn' ih =>
    have fewer := htighter.fewer (Nat.le_succ k)
    unfold chain
    refine peek _ fun t => ?_
    split
    · exact pure
    · rename_i op hop
      refine read_bind (advance_reads_token fun s hs => ?_) fun _ => ?_
      · unfold ParserState.kind
        rw [hs.2]
        exact Level.ne_eof_of_op hop
      refine skipNewlines_progresses.bind fun _ => ?_
      extract_lets after after'
      have hafter : Progresses k .stays (fun _ => True) (after ()) (after' ()) := by
        refine fewer.bind fun right => newExpr_progresses.bind fun e => ?_
        exact ih fewer e
      split
      · exact (record_progresses rfl (plain_of_ne fun _ _ => by simp)).bind fun _ => hafter
      · exact hafter

/-- The operations of several levels do what their first operand does. -/
theorem binary_progresses (hg : GrammarProgresses m g g') (hn : m < n) (hn' : m < n')
    (levels : List Level) :
    Progresses (m + 1) .reports pre (binary n g levels) (binary n' g' levels) := by
  induction levels generalizing pre with
  | nil => exact power_progresses hg hn hn'
  | cons level levels ih =>
    exact ih.bind_then fun left => chain_progresses hn hn' (ih.later (Nat.le_refl _)) left

/-- An expression reads a token, unless it is missing. -/
theorem expr_progresses (hg : GrammarProgresses m g g') (hn : m < n) (hn' : m < n') :
    Progresses (m + 1) .reports pre (expr n g) (expr n' g') := by
  refine (binary_progresses hg hn hn' Level.all).bind_then fun target => peek _ fun k => ?_
  split
  · exact pure
  · rename_i op hop
    refine read_bind (advance_reads_token fun s hs => ?_) fun _ => ?_
    · rintro heof
      rw [← hs.2, heof] at hop
      cases hop
    · refine skipNewlines_progresses.bind fun _ => (hg .expr).bind fun value => ?_
      exact newExpr_progresses

end Operators

end Parse

end FrontEnd
