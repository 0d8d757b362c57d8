import FrontEnd.Grammar.Expr
import FrontEnd.Proofs.Tracing.Types

/-!
# Traces of expressions

Each parser of an expression leads to the trace of its result, provided the parsers of the
nonterminals do. The places that need care are those that look one token ahead, and parentheses, of
which a warning is given just before their node is numbered.
-/

namespace FrontEnd.Parse

variable {pre : ParserState → Prop} {before : Trace} {g : Grammar}

/-- An expression in front of a body is read like any other. -/
theorem headExpr_traces (hg : GrammarTraces g) :
    Traces pre before (headExpr g) fun e => e.traceAfter before := by
  intro all s hs _
  have brace (allowed : Bool) (s : ParserState) : s.Still { s with allowsBrace := allowed } :=
    .of_same rfl rfl rfl rfl
  have run := hg .expr all _ (hs.still (brace false s)) trivial
  unfold headExpr
  split
  · rename_i e s' hrun
    rw [hrun] at run
    exact ⟨run.1, run.2.still (brace _ s')⟩
  · rename_i e s' hrun
    rw [hrun] at run
    exact ⟨run.1, (brace _ s').toOnward.sound run.2⟩

/-- The label of an argument is its name. -/
theorem label_traces : Traces pre before label? fun name? =>
    before.read (name?.toList.map .ident) := by
  refine .state fun s => .ite (fun h => ?_) fun _ => .pure rfl
  refine .bind_known (fun _ s => s.kind = .symbol .colon) expectIdent_traces ?_ fun name => ?_
  · intro s₀ name s₁ sound hs hrun
    have hnext : s₀.nextKind = .symbol .colon := by rw [show s₀ = s from hs.2]; exact h.2
    rw [expectIdent_state hrun]
    exact ParserState.advance_kind sound.final hnext ⟨(by simp), (by simp)⟩
  · exact .bind (advance_mute (fun _ hs => hs) (mute_symbol _)) fun _ => .pure rfl

/-- An argument: its label and its value. -/
theorem argument_traces (hg : GrammarTraces g) :
    Traces pre before (argument g) fun a => a.traceAfter before :=
  .peek fun _ => label_traces.bind fun _ => .bind (hg .expr) fun _ => .pure rfl

/-- The arguments of a call. -/
theorem arguments_traces (hg : GrammarTraces g) (n : Nat) :
    Traces pre before (arguments n g) fun args => args.traceAfter before :=
  .map (commaListTo_traces (argument_traces hg) n)

/-- The expressions of a list. -/
theorem items_traces (hg : GrammarTraces g) (n : Nat) :
    Traces pre before (items n g) fun es => es.traceAfter before :=
  .map (commaListTo_traces (hg .expr) n)

/-- A field of a struct value has a label, or none. -/
theorem fieldInit_traces (hg : GrammarTraces g) :
    Traces pre before (fieldInit g) fun f => f.traceAfter before := by
  refine .bind (acceptSymbol_traces _) fun isBase => .ite (fun _ => ?_) fun _ => ?_
  · exact .bind (hg .expr) fun value => .pure rfl
  · refine .bind label_traces fun name? => ?_
    split
    · exact .bind (hg .expr) fun value => .pure rfl
    · exact .bind (hg .expr) fun value => .pure rfl

/-- A struct value, behind its path. -/
theorem construct_traces (hg : GrammarTraces g) (n : Nat) (p : Path)
    (hpre : ∀ s, pre s → s.kind = .symbol .lBrace) :
    Traces pre (p.traceAfter before) (construct n g p) fun e => e.traceAfter before := by
  refine .bind (advance_mute hpre (mute_symbol _)) fun _ => .bind (openGroup_traces _) fun _ => ?_
  refine .bind (commaListTo_traces (fieldInit_traces hg) n) fun fields => ?_
  have lost := (p.sublist_traceAfter before).trans ((Node.ofList fields).sublist_traceAfter _)
  exact closeOr_traces lost (newExpr_traces rfl rfl) (.peek fun span => newExpr_traces rfl rfl)

/-- A name, a path or a struct value. -/
theorem pathOrConstruct_traces (hg : GrammarTraces g) (n : Nat) :
    Traces pre before (pathOrConstruct n g) fun e => e.traceAfter before := by
  refine .bind (path_traces hg n false) fun p => .state fun s => .peek fun brace => ?_
  refine .ite (fun h => ?_) fun _ => ?_
  · exact construct_traces hg n p fun s hs => eq_of_beq (hs.2.trans h.2)
  · split
    · rename_i ident hname
      obtain ⟨span, slot, rfl⟩ := Node.eq_path_of_simpleName? hname
      exact .uncheck (newExpr_traces rfl rfl)
    · exact newExpr_traces rfl rfl

/-- The elements of a tuple behind the first one. -/
theorem tupleRest_traces (hg : GrammarTraces g) (n : Nat) :
    Traces pre before (tupleRest g n) fun xs => (Node.ofList xs).traceAfter before := by
  induction n generalizing pre before with
  | zero => exact stalled_traces
  | succ n ih =>
    unfold tupleRest
    refine .bind (acceptSymbol_traces _) fun found => .ite (fun _ => .pure rfl) fun _ => ?_
    refine .peek fun closes => .ite (fun _ => .pure rfl) fun _ => ?_
    exact .bind (argument_traces hg) fun x => ih.bind fun xs => .pure rfl

/-- What is said about parentheses is what the parser says. -/
theorem remark?_paren (inner : Expr) : (Node.paren inner).remark? = uselessParens? inner.form := by
  cases inner with
  | expr o form => cases form <;> rfl

/-- An expression in parentheses is numbered with the warning about it. -/
theorem paren_traces {inner : Expr} {span : Span} :
    Traces pre (inner.traceAfter before)
      (do checkParens inner span; newExpr (.paren inner) span) fun e => e.traceAfter before := by
  intro all s hs _
  have hnote (o : Origin) : (Node.expr o (.paren inner)).traceAfter before =
      (inner.traceAfter before).note
        ⟨o.id, (uselessParens? inner.form).map (Diagnostic.warning · o.span)⟩ := by
    rw [← remark?_paren]
    rfl
  unfold checkParens
  split
  · rename_i text htext
    refine ⟨Nat.le_succ s.nextId, ?_⟩
    dsimp only
    rw [hnote, htext]
    exact hs.next _ rfl rfl rfl rfl
  · rename_i hnone
    refine ⟨Nat.le_succ s.nextId, ?_⟩
    dsimp only
    rw [hnote, Option.eq_none_iff_forall_ne_some.2 hnone]
    exact hs.next _ rfl rfl rfl (List.append_nil _).symm

/-- What begins with a parenthesis: a unit, an expression in parentheses, with the warning about
them, or a tuple. -/
theorem parenExpr_traces (hg : GrammarTraces g) (n : Nat)
    (hpre : ∀ s, pre s → s.kind = .symbol .lParen) :
    Traces pre before (parenExpr n g) fun e => e.traceAfter before := by
  refine .peek fun start => .bind (advance_mute (fun s hs => hpre s hs.1) (mute_symbol _)) ?_
  refine fun _ => .bind (openGroup_traces _) fun _ => .peek fun isUnit => .ite (fun h => ?_) ?_
  · refine .bind_known (fun _ s => s.kind = .symbol .rParen) closeGroup_traces ?_ fun _ => ?_
    · intro s _ s' _ hs hrun
      cases hrun
      exact s.closeGroup_kind.trans (eq_of_beq (hs.2.trans h))
    · refine .bind (advance_mute (fun _ hs => hs) (mute_symbol _)) fun _ => ?_
      exact .peek fun span => newExpr_traces rfl rfl
  · refine fun _ => .bind (argument_traces hg) fun first => ?_
    extract_lets after
    have after_traces {pre : ParserState → Prop} :
        Traces pre (first.traceAfter before) (after ()) fun e => e.traceAfter before := by
      refine .bind (tupleRest_traces hg n) fun others => ?_
      have lost :=
        (first.sublist_traceAfter before).trans ((Node.ofList others).sublist_traceAfter _)
      refine closeOr_traces lost (newExpr_traces rfl rfl) ?_
      exact .peek fun span => newExpr_traces rfl rfl
    split
    · rename_i inner span
      refine .peek fun comma => .ite (fun _ => ?_) fun _ => after_traces
      refine closeOr_traces (inner.sublist_traceAfter before) (newExpr_traces rfl rfl) ?_
      exact .peek fun span => paren_traces
    · exact after_traces

/-- A list is numbered behind its elements. -/
theorem listExpr_traces (hg : GrammarTraces g) (n : Nat)
    (hpre : ∀ s, pre s → s.kind = .symbol .lBracket) :
    Traces pre before (listExpr n g) fun e => e.traceAfter before := by
  refine .peek fun start => .bind (advance_mute (fun s hs => hpre s hs.1) (mute_symbol _)) ?_
  refine fun _ => .bind (openGroup_traces _) fun _ => .bind (items_traces hg n) fun values => ?_
  refine closeOr_traces (values.sublist_traceAfter before) (newExpr_traces rfl rfl) ?_
  exact .peek fun span => newExpr_traces rfl rfl

/-- Line breaks before a token that was seen behind them. -/
theorem skipNewlines_to {α : Type} {k : TokenKind} {next : Unit → Parser α} {after : α → Trace}
    (hpre : ∀ s, pre s → s.kindAfterNewlines = k)
    (hnext : Traces (·.kind = k) before (next ()) after) :
    Traces pre before (skipNewlines >>= next) after := by
  refine .bind_known (fun _ s => s.kind = k) skipNewlines_traces ?_ fun _ => hnext
  intro s _ s' _ hs hrun
  cases hrun
  exact s.skipNewlines_kind.trans (hpre s hs)

/-- A second branch: another condition, or a block that becomes an expression. -/
theorem elseBranch_traces (hg : GrammarTraces g) :
    Traces pre before (elseBranch? g) fun e => e.traceAfter before := by
  refine .state fun s => ?_
  split
  · rename_i hk
    refine skipNewlines_to (fun t ht => (congrArg _ ht.2).trans hk) ?_
    exact .bind ((hg .cond).from_fewer fun _ => Or.inr) fun e => .pure rfl
  · rename_i hk
    refine skipNewlines_to (fun t ht => (congrArg _ ht.2).trans hk) ?_
    refine .bind (advance_mute (fun _ hs => hs) fun _ => rfl) fun _ => ?_
    refine .peek fun chained => .ite (fun h => ?_) fun _ => ?_
    · refine .bind ((hg .cond).from_fewer fun s hs => ?_) fun e => .pure rfl
      exact Or.inl (eq_of_beq (hs.2.trans h))
    · refine .peek fun start => .bind (block_traces hg) fun body => .peek fun span => ?_
      have made {pre : ParserState → Prop} : Traces pre (body.traceAfter before)
          (newExpr (.blockExpr body) span) fun e => e.traceAfter before := newExpr_traces rfl rfl
      exact made.bind fun e => .pure rfl
  · exact .pure rfl

/-- A condition is numbered behind both branches. -/
theorem cond_traces (hg : GrammarTraces g) (hpre : ∀ s, pre s → (Nonterminal.cond).Expected s) :
    Traces pre before (cond g) fun e => e.traceAfter before := by
  refine .peek fun start => .bind (advance_traces none fun s hs => ?_) fun _ => ?_
  · rcases hpre s hs.1 with h | h
    · exact ParserState.current_mute h fun _ => rfl
    · exact ParserState.current_mute h fun _ => rfl
  · refine .bind (headExpr_traces hg) fun condition => .bind (block_traces hg) fun positive => ?_
    refine .bind (elseBranch_traces hg) fun negative => .peek fun span => ?_
    exact newExpr_traces rfl rfl

/-- The conditions of an entry. -/
theorem entryConditions_traces (hg : GrammarTraces g) (n : Nat) :
    Traces pre before (entryConditions g n) fun xs => (Node.ofList xs).traceAfter before := by
  induction n generalizing pre before with
  | zero => exact stalled_traces
  | succ n ih =>
    unfold entryConditions
    refine .bind (hg .expr).anywhere fun x => .bind (acceptSymbol_traces _) fun found => ?_
    refine .ite (fun _ => .pure rfl) fun _ => .bind skipNewlines_traces fun _ => ?_
    exact ih.bind fun xs => .pure rfl

/-- An entry of a choice is numbered behind its conditions and its body. -/
theorem selectEntry_traces (hg : GrammarTraces g) (n : Nat) :
    Traces pre before (selectEntry n g) fun e => e.traceAfter before := by
  refine .peek fun start => .bind (accept_traces fun _ => rfl) fun isElse => ?_
  extract_lets after
  have after_traces (conditions : List Expr) :
      Traces (fun _ => True) ((Node.ofList conditions).traceAfter before) (after conditions)
        fun e => e.traceAfter before := by
    refine .bind (expectSymbol_traces _) fun _ => .bind skipNewlines_traces fun _ => ?_
    refine .bind (hg .expr) fun body => .peek fun span => ?_
    exact origin_traces.bind fun o => .pure rfl
  refine .ite (fun _ => after_traces []) fun _ => ?_
  exact .bind (entryConditions_traces hg n) after_traces

/-- Entries one after the other. -/
theorem selectEntries_traces (hg : GrammarTraces g) (bound n : Nat) :
    Traces pre before (selectEntries bound g n) fun xs => (Node.ofList xs).traceAfter before := by
  induction n generalizing pre before with
  | zero => exact stalled_traces
  | succ n ih =>
    unfold selectEntries
    refine .peek fun closes => .peek fun ends => .ite (fun _ => .pure rfl) fun _ => ?_
    refine .bind (selectEntry_traces hg bound) fun entry => ?_
    exact .bind skipSeparators_traces fun _ => ih.bind fun entries => .pure rfl

/-- A choice is numbered behind its entries. -/
theorem select_traces (hg : GrammarTraces g) (n : Nat)
    (hpre : ∀ s, pre s → s.kind = .keyword .when) :
    Traces pre before (select n g) fun e => e.traceAfter before := by
  refine .peek fun start => .bind (advance_mute (fun s hs => hpre s hs.1) fun _ => rfl) fun _ => ?_
  refine .bind (headExpr_traces hg) fun subject => .bind (expectSymbol_traces _) fun _ => ?_
  refine .bind (openGroup_traces _) fun _ => .bind skipSeparators_traces fun _ => ?_
  refine .bind (selectEntries_traces hg n n) fun entries => ?_
  exact .bind (closeStrict_traces _) fun _ => .peek fun span => newExpr_traces rfl rfl

/-- A parameter of a lambda is numbered behind its type. -/
theorem lambdaParam_traces (hg : GrammarTraces g) :
    Traces pre before (lambdaParam g) fun p => p.traceAfter before := by
  refine .bind expectIdent_traces fun name => .bind (acceptSymbol_traces _) fun typed => ?_
  extract_lets after
  have after_traces (t : Node (.maybe .type)) :
      Traces (fun _ => True) (t.traceAfter (before.leaf (.ident name))) (after t) fun p =>
        p.traceAfter before :=
    freshId_traces.bind fun id => .pure rfl
  refine .ite (fun _ => .bind skipNewlines_traces fun _ => ?_) fun _ => after_traces .absent
  exact .bind (hg .type) fun t => after_traces (.present t)

/-- The parameters of a lambda. -/
theorem lambdaParams_traces (hg : GrammarTraces g) (n : Nat) :
    Traces pre before (lambdaParams n g) fun ps => (Node.ofList ps).traceAfter before := by
  refine .bind (acceptSymbol_traces _) fun bar => .ite (fun _ => ?_) fun _ => ?_
  · refine .bind skipNewlines_traces fun _ => ?_
    refine .bind (commaList_traces skipNewlines_traces (lambdaParam_traces hg) n false) fun r => ?_
    exact .bind (expectSymbol_traces _) fun _ => .pure rfl
  · exact .bind (expectSymbol_traces _) fun _ => .pure rfl

/-- A lambda is numbered behind its body. -/
theorem lambda_traces (hg : GrammarTraces g) (n : Nat) :
    Traces pre before (lambda n g) fun e => e.traceAfter before := by
  refine .peek fun start => .bind (lambdaParams_traces hg n) fun params => ?_
  refine .bind (acceptSymbol_traces _) fun arrow => ?_
  extract_lets after
  have after_traces (result : Node (.maybe .type)) :
      Traces (fun _ => True) (result.traceAfter ((Node.ofList params).traceAfter before))
        (after result) fun e => e.traceAfter before :=
    .bind skipNewlines_traces fun _ => .bind (hg .expr) fun body => newExpr_traces rfl rfl
  refine .ite (fun _ => ?_) fun _ => after_traces .absent
  exact .bind (hg .type) fun t => after_traces (.present t)

/-- A handler is numbered in front of the whole expression. -/
theorem tryCatch_traces (hg : GrammarTraces g) (hpre : ∀ s, pre s → s.kind = .keyword .try_) :
    Traces pre before (tryCatch g) fun e => e.traceAfter before := by
  refine .peek fun start => .bind (advance_mute (fun s hs => hpre s hs.1) fun _ => rfl) fun _ => ?_
  refine .bind (block_traces hg) fun body => .state fun s => ?_
  extract_lets after
  have after_traces {pre : ParserState → Prop} :
      Traces pre (body.traceAfter before) (after ()) fun e => e.traceAfter before := by
    refine .bind (expectKeyword_traces fun _ => rfl) fun _ => ?_
    refine .bind expectIdent_traces fun binding => .bind (block_traces hg) fun handling => ?_
    exact freshId_traces.bind fun id => .peek fun span => newExpr_traces rfl rfl
  exact .ite (fun _ => .bind skipNewlines_traces fun _ => after_traces) fun _ => after_traces

/-- A value that may be missing. -/
theorem value_traces (hg : GrammarTraces g) :
    Traces pre before (value? g) fun e => e.traceAfter before :=
  .peek fun _ => .ite (fun _ => .bind (hg .expr).anywhere fun _ => .pure rfl) fun _ => .pure rfl

/-- A token that is a literal leaves this literal in the tree. -/
theorem leaf_of_literal {token : Token} {value : Literal}
    (h : Literal.ofToken? token.kind = some value) :
    Leaf.ofToken? token = some (.literal value) := by
  obtain ⟨k, span⟩ := token
  dsimp only at h
  unfold Literal.ofToken? at h
  split at h
  · cases h
    rfl
  · cases h
    rfl
  · cases h
    rfl
  · cases h

/-- An expression that begins with a keyword or is a literal, before it is numbered. -/
theorem simpleForm_traces (hg : GrammarTraces g) : Traces pre before (simpleForm? g) fun form? =>
    (Node.ofList form?.toList).traceAfter before := by
  refine .peek fun k => ?_
  have alone (form : ExprForm) (leaf? : Option Leaf)
      (hleaf : ∀ token : Token, token.kind = k → Leaf.ofToken? token = leaf?)
      (hform : form.traceAfter before = before.read leaf?.toList) :
      Traces (fun s => pre s ∧ s.kind = k) before (do advance; return some form) fun form? =>
        (Node.ofList form?.toList).traceAfter before :=
    .bind (advance_traces leaf? fun s hs => hleaf _ hs.2) fun _ => .pure hform
  have behind {c : Category} {p : Parser (Node c)} (make : Node c → ExprForm) (hk : k.Mute)
      (hp : Traces (fun _ => True) before p fun x => (make x).traceAfter before) :
      Traces (fun s => pre s ∧ s.kind = k) before (do advance; return some (make (← p)))
        fun form? => (Node.ofList form?.toList).traceAfter before :=
    .bind (advance_mute (fun _ hs => hs.2) hk) fun _ => .bind hp fun _ => .pure rfl
  split
  · rename_i value hvalue
    refine alone (.literal value) (some (.literal value)) (fun token htoken => ?_) rfl
    exact leaf_of_literal (htoken ▸ hvalue)
  · split
    · refine alone .this_ (some .this_) (fun token htoken => ?_) rfl
      rw [Leaf.ofToken?, htoken]
    · refine alone .super (some .super) (fun token htoken => ?_) rfl
      rw [Leaf.ofToken?, htoken]
    · exact .bind (block_traces hg) fun body => .pure rfl
    · exact behind .loop (fun _ => rfl) (block_traces hg)
    · exact behind .break_ (fun _ => rfl) (value_traces hg)
    · refine alone .continue_ none (fun token htoken => ?_) rfl
      rw [Leaf.ofToken?, htoken]
      rfl
    · exact behind .return_ (fun _ => rfl) (value_traces hg)
    · exact behind .throw (fun _ => rfl) (hg .expr)
    · exact behind .spread (fun _ => rfl) (hg .operand)
    · exact .pure rfl

/-- None of these expressions is in parentheses. -/
theorem simpleForm_returns : Returns (simpleForm? g) fun form? =>
    ∀ form ∈ form?, form.remark? = none := by
  have alone {form : ExprForm} (h : form.remark? = none) :
      ∀ form' ∈ some form, form'.remark? = none := by
    rintro _ ⟨⟩
    exact h
  refine .bind fun k => ?_
  split
  · exact .bind fun _ => .pure (alone rfl)
  · split
    · exact .bind fun _ => .pure (alone rfl)
    · exact .bind fun _ => .pure (alone rfl)
    · exact .bind fun _ => .pure (alone rfl)
    · exact .bind fun _ => .bind fun _ => .pure (alone rfl)
    · exact .bind fun _ => .bind fun _ => .pure (alone rfl)
    · exact .bind fun _ => .pure (alone rfl)
    · exact .bind fun _ => .bind fun _ => .pure (alone rfl)
    · exact .bind fun _ => .bind fun _ => .pure (alone rfl)
    · exact .bind fun _ => .bind fun _ => .pure (alone rfl)
    · exact .pure fun _ h => absurd h (Option.not_mem_none _)

/-- An operand without what stands around it, or a stub for a missing one. -/
theorem primary_traces (hg : GrammarTraces g) (n : Nat) :
    Traces pre before (primary n g) fun e => e.traceAfter before := by
  refine .peek fun k => ?_
  split
  · exact pathOrConstruct_traces hg n
  · exact pathOrConstruct_traces hg n
  · exact parenExpr_traces hg n fun _ hs => hs.2
  · exact listExpr_traces hg n fun _ hs => hs.2
  · exact cond_traces hg fun _ hs => Or.inl hs.2
  · exact select_traces hg n fun _ hs => hs.2
  · exact lambda_traces hg n
  · exact lambda_traces hg n
  · exact tryCatch_traces hg fun _ hs => hs.2
  · refine .peek fun start => ?_
    refine .bind_known (fun form? _ => ∀ form ∈ form?, form.remark? = none) (simpleForm_traces hg)
      (fun _ _ _ _ _ hrun => simpleForm_returns hrun) fun form? => ?_
    split
    · refine .assume (fun _ h => h) fun hplain => .peek fun span => ?_
      exact newExpr_traces (hplain _ rfl) rfl
    · refine .bind (reportExpected_traces (.refl _) _) fun _ => .peek fun span => ?_
      exact newExpr_traces rfl rfl

end FrontEnd.Parse
