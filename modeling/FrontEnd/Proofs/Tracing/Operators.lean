import FrontEnd.Proofs.Tracing.Expressions

/-!
# Traces of operators

The loops over operators carry the expression read so far, whose trace is behind them already; the
new expression around it is numbered behind both sides.
-/

namespace FrontEnd

/-- The operators that have tokens of their own leave nothing in the tree. -/
def Level.Plain : Level → Prop
  | .operators ops => ∀ op ∈ ops, op.leaves = [] ∧ op.token.Mute
  | .customNames => True

/-- The levels of the grammar are such. -/
theorem Level.all_plain : ∀ level ∈ Level.all, level.Plain := by
  simp [Level.all, Level.Plain, BinaryOp.leaves, BinaryOp.token, TokenKind.Mute, Leaf.ofToken?,
    Literal.ofToken?]

/-- The token of an operator leaves in the tree what the operator is written with. -/
theorem Level.leaf_of_op {level : Level} (hlevel : level.Plain) {token : Token} {op : BinaryOp}
    (h : level.op? token = some op) : (Leaf.ofToken? token).toList = op.leaves := by
  cases level with
  | operators ops =>
    change ops.find? (·.token = token.kind) = some op at h
    have hop : op ∈ ops := List.mem_of_find?_eq_some h
    have htoken : op.token = token.kind := by simpa using List.find?_some h
    have hmute := (hlevel op hop).2 token.span
    rw [htoken] at hmute
    rw [(hlevel op hop).1, hmute]
    rfl
  | customNames =>
    unfold Level.op? at h
    dsimp only at h
    split at h
    · rename_i name hk
      cases h
      simp [Leaf.ofToken?, hk, BinaryOp.leaves]
    · cases h

/-- The token of an operator in front of an operand is mute. -/
theorem PrefixOp.mute_of_ofTokens {k next : TokenKind} {op : PrefixOp}
    (h : PrefixOp.ofTokens? k next = some op) : k.Mute := by
  unfold PrefixOp.ofTokens? at h
  split at h
  all_goals first | exact mute_symbol _ | cases h

/-- The token of an operator behind an operand is mute. -/
theorem PostfixOp.mute_of_ofToken {k : TokenKind} {op : PostfixOp}
    (h : PostfixOp.ofToken? k = some op) : k.Mute := by
  unfold PostfixOp.ofToken? at h
  split at h
  all_goals first | exact mute_symbol _ | cases h

/-- The token of an assignment is mute. -/
theorem AssignOp.mute_of_ofToken {k : TokenKind} {op : AssignOp}
    (h : AssignOp.ofToken? k = some op) : k.Mute := by
  unfold AssignOp.ofToken? at h
  split at h
  all_goals first | exact mute_symbol _ | cases h

namespace Parse

variable {pre : ParserState → Prop} {before : Trace} {g : Grammar}

/-- Reading goes on with a new expression, which is numbered behind its parts. -/
theorem newExpr_then (form : ExprForm) {span : Span} {next : Expr → Parser Expr}
    (hform : form.remark? = none)
    (hnext : ∀ e, Traces (fun _ => True) (Node.traceAfter before e) (next e) fun e =>
      e.traceAfter before) :
    Traces pre (form.traceAfter before) (newExpr form span >>= next) fun e =>
      e.traceAfter before := by
  have new : Traces pre (form.traceAfter before) (newExpr form span) fun e =>
    e.traceAfter before := newExpr_traces hform rfl
  exact new.bind hnext

/-- A group behind an expression, after which reading goes on; a stub if it is not closed. -/
theorem group_then {c : Category} {opening closing : Symbol} {start : Span} {p : Parser (Node c)}
    {make : Node c → ExprForm} {next : Expr → Parser Expr} {e : Expr}
    (hpre : ∀ s, pre s → s.kind = .symbol opening) (hmake : ∀ parts, (make parts).remark? = none)
    (hp : Traces (fun _ => True) (e.traceAfter before) p fun parts =>
      (make parts).traceAfter before)
    (hnext : ∀ e, Traces (fun _ => True) (Node.traceAfter before e) (next e) fun e =>
      e.traceAfter before) :
    Traces pre (e.traceAfter before)
      (do
        advance
        openGroup true
        let parts ← p
        if !(← close closing) then return ← newExpr .errorExpr start
        next (← newExpr (make parts) (← spanFrom start)))
      fun e => e.traceAfter before := by
  refine .bind (advance_mute hpre (mute_symbol _)) fun _ => .bind (openGroup_traces _) fun _ => ?_
  refine .bind hp fun parts => ?_
  refine closeOr_traces ((make parts).sublist_traceAfter before) (newExpr_traces rfl rfl) ?_
  exact .peek fun span => newExpr_then _ (hmake parts) hnext

/-- What stands behind an operand, which is numbered already. -/
theorem suffixes_traces (hg : GrammarTraces g) (bound n : Nat) (e : Expr) :
    Traces pre (e.traceAfter before) (suffixes bound g n e) fun e => e.traceAfter before := by
  induction n generalizing pre e with
  | zero => exact stalled_traces
  | succ n ih =>
    have member_traces (mark : Symbol) (safe : Bool) :
        Traces (fun s => s.kind = .symbol mark) (e.traceAfter before)
          (do
            advance
            skipNewlines
            let field ← expectIdent
            suffixes bound g n (← newExpr (.member e field safe) (e.span.cover field.span)))
          fun e => e.traceAfter before := by
      refine .bind (advance_mute (fun _ hs => hs) (mute_symbol _)) fun _ => ?_
      refine .bind skipNewlines_traces fun _ => .bind expectIdent_traces fun field => ?_
      exact newExpr_then (.member e field safe) rfl ih
    unfold suffixes
    refine .state fun s => ?_
    extract_lets behind start after
    have after_traces {pre : ParserState → Prop} :
        Traces pre (e.traceAfter before) (after ()) fun e => e.traceAfter before := by
      refine .peek fun k => ?_
      split
      · exact group_then (fun _ hs => hs.2) (fun _ => rfl) (arguments_traces hg bound) ih
      · exact group_then (fun _ hs => hs.2) (fun _ => rfl) (items_traces hg bound) ih
      · exact (member_traces _ _).from_fewer fun _ hs => hs.2
      · exact (member_traces _ _).from_fewer fun _ hs => hs.2
      · split
        · rename_i op hop
          have hmute := PostfixOp.mute_of_ofToken hop
          refine .peek fun span => .bind (advance_mute (fun _ hs => hs.1.2) hmute) fun _ => ?_
          exact newExpr_then (.suffixed op e) rfl ih
        · exact .pure rfl
    exact .ite (fun _ => .bind skipNewlines_traces fun _ => after_traces) fun _ => after_traces

/-- An operand with what stands in front of it and behind it. -/
theorem operand_traces (hg : GrammarTraces g) (n : Nat) :
    Traces pre before (operand n g) fun e => e.traceAfter before := by
  refine .state fun s => ?_
  extract_lets start
  split
  · rename_i op hop
    extract_lets after
    -- The word behind a borrow was seen before the step over the borrow itself.
    have after_traces {k : TokenKind} (hk : k.Mute) :
        Traces (·.kind = k) before (after ()) fun e => e.traceAfter before := by
      refine .bind (advance_mute (fun _ hs => hs) hk) fun _ => ?_
      exact .bind (hg .operand) fun inner => newExpr_traces rfl rfl
    refine .ite (fun h => ?_) fun _ => ?_
    · subst h
      obtain ⟨hk, hnext⟩ : s.kind = .symbol .ampersand ∧ s.nextKind = .keyword .mut_ := by
        unfold PrefixOp.ofTokens? at hop
        split at hop <;> simp_all
      refine .bind_known (fun _ s => s.kind = .keyword .mut_)
        (advance_mute (fun t ht => (congrArg ParserState.kind ht.2).trans hk) (mute_symbol _)) ?_
        fun _ => after_traces fun _ => rfl
      intro s₀ _ s₁ sound hs hrun
      cases hrun
      have hs₀ : s₀ = s := hs.2
      exact ParserState.advance_kind sound.final (hs₀ ▸ hnext) ⟨(by simp), (by simp)⟩
    · exact (after_traces (PrefixOp.mute_of_ofTokens hop)).from_fewer fun t ht =>
        congrArg ParserState.kind ht.2
  · exact .bind (primary_traces hg n) (suffixes_traces hg n n)

/-- Casts behind an expression that is numbered already. -/
theorem casts_traces (hg : GrammarTraces g) (n : Nat) (e : Expr) :
    Traces pre (e.traceAfter before) (casts g n e) fun e => e.traceAfter before := by
  induction n generalizing pre e with
  | zero => exact stalled_traces
  | succ n ih =>
    unfold casts
    refine .peek fun k => .ite (fun h => ?_) fun _ => .pure rfl
    have hk : k.Mute := by
      rcases h with rfl | rfl
      · exact fun _ => rfl
      · exact fun _ => rfl
    refine .bind (advance_mute (fun _ hs => hs.2) hk) fun _ => .bind (hg .type) fun t => ?_
    exact newExpr_then (.cast e t (k == .keyword .asSafe)) rfl ih

/-- A power is numbered behind both sides. -/
theorem power_traces (hg : GrammarTraces g) (n : Nat) :
    Traces pre before (power n g) fun e => e.traceAfter before := by
  refine .bind (operand_traces hg n) fun e => .bind (casts_traces hg n e) fun left => ?_
  refine .bind (acceptSymbol_traces _) fun found => .ite (fun _ => .pure rfl) fun _ => ?_
  refine .bind skipNewlines_traces fun _ => .bind (hg .power) fun right => ?_
  exact newExpr_traces rfl rfl

/-- Operations of one level behind a first operand. -/
theorem chain_traces {level : Level} (hlevel : level.Plain) {tighter : Parser Expr}
    (htighter : ∀ {before}, Traces (fun _ => True) before tighter fun e => e.traceAfter before)
    (n : Nat) (left : Expr) :
    Traces pre (left.traceAfter before) (chain level tighter n left) fun e =>
      e.traceAfter before := by
  induction n generalizing pre left with
  | zero => exact stalled_traces
  | succ n ih =>
    unfold chain
    refine .peek fun token => ?_
    split
    · exact .pure rfl
    · rename_i op hop
      refine .bind (advance_traces (Leaf.ofToken? token) fun s hs => congrArg _ hs.2) fun _ => ?_
      rw [Level.leaf_of_op hlevel hop]
      refine .bind skipNewlines_traces fun _ => ?_
      extract_lets after
      have after_traces : Traces (fun _ => True) ((left.traceAfter before).read op.leaves)
          (after ()) fun e => e.traceAfter before :=
        htighter.bind fun right => newExpr_then (.binary left op right) rfl ih
      split
      · exact .bind (record_traces (.refl _) _) fun _ => after_traces.uncheck
      · exact after_traces

/-- The operations of several levels. -/
theorem binary_traces (hg : GrammarTraces g) (n : Nat) (levels : List Level)
    (hlevels : ∀ level ∈ levels, level.Plain) :
    Traces pre before (binary n g levels) fun e => e.traceAfter before := by
  induction levels generalizing pre before with
  | nil => exact power_traces hg n
  | cons level levels ih =>
    obtain ⟨hlevel, htighter⟩ := List.forall_mem_cons.1 hlevels
    exact (ih htighter).bind (chain_traces hlevel (ih htighter) n)

/-- An assignment, or what is no assignment. -/
theorem expr_traces (hg : GrammarTraces g) (n : Nat) :
    Traces pre before (expr n g) fun e => e.traceAfter before := by
  refine .bind (binary_traces hg n Level.all Level.all_plain) fun target => .peek fun k => ?_
  split
  · exact .pure rfl
  · rename_i op hop
    refine .bind (advance_mute (fun _ hs => hs.2) (AssignOp.mute_of_ofToken hop)) fun _ => ?_
    refine .bind skipNewlines_traces fun _ => .bind (hg .expr) fun value => ?_
    exact newExpr_traces rfl rfl

end Parse

end FrontEnd
