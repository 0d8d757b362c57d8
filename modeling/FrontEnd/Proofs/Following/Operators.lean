import FrontEnd.Proofs.Following.Expressions

/-!
# Operators side by side

The loops over operators carry the expression read so far, and keep the grip behind it: where the
left text ends a line break follows on the right, and a line break ends every loop.
-/

namespace FrontEnd

/-- The token of an operator in front of an operand stands inside its group. -/
theorem PrefixOp.inner_of_ofTokens {k next : TokenKind} {op : PrefixOp}
    (h : PrefixOp.ofTokens? k next = some op) : k.Inner := by
  unfold PrefixOp.ofTokens? at h
  split at h
  all_goals first | exact ⟨rfl, rfl, (by simp)⟩ | cases h

/-- A borrow that may change its operand is written with two tokens. -/
theorem PrefixOp.borrowMut_tokens {k next : TokenKind}
    (h : PrefixOp.ofTokens? k next = some .borrowMut) :
    k = .symbol .ampersand ∧ next = .keyword .mut_ := by
  unfold PrefixOp.ofTokens? at h
  split at h <;> simp_all

/-- So does the token of an operator behind an operand. -/
theorem PostfixOp.inner_of_ofToken {k : TokenKind} {op : PostfixOp}
    (h : PostfixOp.ofToken? k = some op) : k.Inner := by
  unfold PostfixOp.ofToken? at h
  split at h
  all_goals first | exact ⟨rfl, rfl, (by simp)⟩ | cases h

/-- So does the token of an assignment. -/
theorem AssignOp.inner_of_ofToken {k : TokenKind} {op : AssignOp}
    (h : AssignOp.ofToken? k = some op) : k.Inner := by
  unfold AssignOp.ofToken? at h
  split at h
  all_goals first | exact ⟨rfl, rfl, (by simp)⟩ | cases h

/-- The operators that have tokens of their own. -/
def Level.Written : Level → Prop
  | .operators ops => ∀ op ∈ ops, op.token.Inner ∧ op.token ≠ .newline ∧
    ∀ r : Relabeling, r.binaryOp op = op
  | .customNames => True

/-- The levels of the grammar are such. -/
theorem Level.all_written : ∀ level ∈ Level.all, level.Written := by
  simp [Level.all, Level.Written, BinaryOp.token, TokenKind.Inner, TokenKind.isOpening,
    TokenKind.isClosing, Relabeling.binaryOp]

namespace Parse

open FollowsTo

variable {K : Comparison} {a : Grip} {pre : ParserState → Prop} {g g' : Grammar} {n m : Nat}

/-- A group behind an expression, after which the loop goes on. -/
theorem group_follows {c : Category} {opening closing : Symbol} {start start' : Span}
    {p q : Parser (Node c)} {make make' : Node c → ExprForm} {next next' : Expr → Parser Expr}
    (hopening : (TokenKind.symbol opening).isOpening = true)
    (hclosing : (TokenKind.symbol closing).isClosing = true)
    (hpre : ∀ s, pre s → s.kind = .symbol opening) (hstart : K.like.Alike start start')
    (hp : Follows K 0 .slack .slack (fun _ => True) p q)
    (hgap : ∀ found, K.Records (.expected (quoted (.symbol closing)) found))
    (hmake : ∀ x y, K.like.Alike x y → K.like.Alike (make x) (make' y))
    (hnext : ∀ e e', K.like.Alike e e' →
      FollowsTo K 0 (K.behind e) K.behind (fun _ => True) (next e) (next' e')) :
    FollowsTo K 0 a K.behind pre
      (do
        advance
        openGroup true
        let parts ← p
        if !(← close closing) then return ← newExpr .errorExpr start
        next (← newExpr (make parts) (← spanFrom start)))
      (do
        advance
        openGroup true
        let parts ← q
        if !(← close closing) then return ← newExpr .errorExpr start'
        next' (← newExpr (make' parts) (← spanFrom start'))) := by
  refine enter_bind (fun s hs => by rw [hpre s hs]; exact ⟨hopening, fun _ => rfl⟩) ?_
  refine bind hp fun parts parts' hparts => ?_
  refine bind_leave (close_follows hclosing hgap) fun closed _ hclosed => ?_
  obtain rfl := hclosed
  refine ite (fun _ => newExpr_follows rfl hstart Grip.firm_elim) fun _ => ?_
  refine spanFrom_bind hstart fun span span' hspan => ?_
  exact bind (newExpr_follows (hmake parts parts' hparts) hspan Grip.firm_elim) hnext

/-- A dot and a field behind an operand. -/
theorem memberSuffix_follows {mark : Symbol} (hmark : (TokenKind.symbol mark).Inner) (safe : Bool)
    {e e' : Expr} (he : K.like.Alike e e') {next next' : Expr → Parser Expr}
    (hnext : ∀ {x x'}, K.like.Alike x x' →
      FollowsTo K 0 (K.behind x) K.behind (fun _ => True) (next x) (next' x')) :
    FollowsTo K 0 a K.behind (fun s => s.kind = .symbol mark)
      (do
        advance
        skipNewlines
        let field ← expectIdent
        next (← newExpr (.member e field safe) (e.span.cover field.span)))
      (do
        advance
        skipNewlines
        let field ← expectIdent
        next' (← newExpr (.member e' field safe) (e'.span.cover field.span))) := by
  refine bind (advance_follows fun s hs => hs ▸ hmark) fun _ _ _ => ?_
  refine bind skipNewlines_follows fun _ _ _ => ?_
  refine bind expectIdent_follows fun field field' hfield => ?_
  have hform : K.like.Alike (Node.member e field safe) (Node.member e' field' safe) :=
    (congrFun (congr (congrArg Node.member he) hfield) safe :)
  have hspan : K.like.Alike field.span field'.span := (congrArg Ident.span hfield :)
  exact bind (newExpr_follows hform (K.like.cover he.exprSpan hspan) Grip.firm_elim)
    fun _ _ hx => hnext hx

/-- Operators, calls, indices and members behind an expression. -/
theorem suffixes_follows (hg : GrammarFollows K g g') {bound bound' : Nat}
    (hbound : K.Bounds bound bound') (hnm : K.Bounds n m) {e e' : Expr} (he : K.like.Alike e e') :
    FollowsTo K 0 (K.behind e) K.behind pre (suffixes bound g n e) (suffixes bound' g' m e') := by
  induction n generalizing m pre e e' with
  | zero => exact stalled_follows (q := (suffixes bound' g' · e')) rfl hnm
  | succ n ih =>
    obtain ⟨m, rfl, hbounds⟩ := K.bounds_succ hnm
    have hnext {x x' : Expr} (hx : K.like.Alike x x') :
        FollowsTo K 0 (K.behind x) K.behind (fun _ => True) (suffixes bound g n x)
          (suffixes bound' g' m x') := ih hbounds hx
    have hstart := he.exprSpan
    unfold suffixes
    refine ahead_bind (· ≠ .keyword .else_) (absurd rfl) fun s₀ t₀ hseen => ?_
    extract_lets ahead start after ahead' start' after'
    have hafter : FollowsTo K 0 (K.behind e) K.behind (fun _ => True) (after ()) (after' ()) := by
      refine kind_bind (fun k => ?_) fun _ => read_follows he
      split
      · exact group_follows rfl rfl (fun _ hs => hs.2) hstart (arguments_follows hg hbound)
          (fun _ => K.gaps (Or.inl rfl)) (fun x y hxy => (congr (congrArg Node.call he) hxy :))
          fun _ _ hx => hnext hx
      · exact group_follows rfl rfl (fun _ hs => hs.2) hstart (items_follows hg hbound)
          (fun _ => K.gaps (Or.inl rfl)) (fun x y hxy => (congr (congrArg Node.index he) hxy :))
          fun _ _ hx => hnext hx
      · exact (memberSuffix_follows (by decide) _ he @hnext).mono fun _ hs => hs.2
      · exact (memberSuffix_follows (by decide) _ he @hnext).mono fun _ hs => hs.2
      · split
        · rename_i op hop
          have hkind := PostfixOp.inner_of_ofToken hop
          refine place_bind (fun s (hs : _ ∧ s.kind = _) => hs.2 ▸ hkind.2.2)
            fun place place' hplace => ?_
          refine bind (advance_follows fun s hs => hs.2 ▸ hkind) fun _ _ _ => ?_
          have hform : K.like.Alike (Node.suffixed op e) (Node.suffixed op e') :=
            (congrArg (Node.suffixed op) he :)
          exact bind (newExpr_follows hform (K.like.cover hstart hplace) Grip.firm_elim)
            fun _ _ hx => hnext hx
        · exact read_follows he
    have hdot := hseen (.symbol .dot) rfl (by simp)
    have hsafe := hseen (.symbol .safeCall) rfl (by simp)
    by_cases h : ahead = .symbol .dot ∨ ahead = .symbol .safeCall
    · have h' : ahead' = .symbol .dot ∨ ahead' = .symbol .safeCall := h.imp hdot.1 hsafe.1
      rw [if_pos h, if_pos h']
      refine bind_known (fun _ s => s.kind = ahead) skipNewlines_follows ?_ fun _ _ _ => ?_
      · rintro s _ _ - hs ⟨⟩
        rw [s.skipNewlines_kind, hs.2]
      · refine of_token (with_firm hafter).anywhere fun s hs hkind => ?_
        rw [hs] at hkind
        rcases h with h | h
        · exact absurd (h.symm.trans hkind) (by simp)
        · exact absurd (h.symm.trans hkind) (by simp)
    · have h' : ¬(ahead' = .symbol .dot ∨ ahead' = .symbol .safeCall) :=
        mt (Or.imp hdot.2 hsafe.2) h
      rw [if_neg h, if_neg h']
      exact hafter.anywhere

/-- Operators in front of an operand have neither numbers nor places. -/
theorem alike_prefixOp {l : Likeness} {x y : Option PrefixOp} : l.Alike x y ↔ x = y := by
  change x.map id = y.map id ↔ x = y
  rw [Option.map_id, id, id]

/-- What an operand starts with. -/
theorem operand_eq (n : Nat) (g : Grammar) : operand n g =
    ((fun s : ParserState => (s.current.span, PrefixOp.ofTokens? s.kind s.nextKind)) <$> get) >>=
      fun v => match v.2 with
        | some op => do
          if op = .borrowMut then advance
          advance
          let inner ← g .operand
          newExpr (.unary op inner) (v.1.cover inner.span)
        | none => primary n g >>= suffixes n g n := rfl

/-- An operand with its operators. -/
theorem operand_follows (hg : GrammarFollows K g g') (hnm : K.Bounds n m) :
    FollowsTo K 0 a K.behind pre (operand n g) (operand m g') := by
  rw [operand_eq, operand_eq]
  refine of_slack (peek _ (fun s t hlinked _ hgrip => ?_) ?_)
  · exact (hlinked.span (hgrip rfl)).pair (alike_prefixOp.2 (K.prefixOp hlinked (hgrip rfl)).symm)
  rintro ⟨start, op?⟩ ⟨start', op?'⟩ hview
  have hstart : K.like.Alike start start' := hview.fst
  obtain rfl : op? = op?' := alike_prefixOp.1 hview.snd
  have hseen {s : ParserState} (hs : (s.current.span, PrefixOp.ofTokens? s.kind s.nextKind) =
      (start, op?)) : PrefixOp.ofTokens? s.kind s.nextKind = op? := congrArg Prod.snd hs
  cases op? with
  | none =>
    refine bind (primary_follows hg hnm) fun e e' he => ?_
    exact suffixes_follows hg hnm hnm he
  | some op =>
    dsimp -zeta only
    extract_lets after after'
    have hafter : FollowsTo K 0 .firm K.behind (·.kind.Inner) (after ()) (after' ()) := by
      refine bind (advance_follows fun _ hs => hs) fun _ _ _ => ?_
      refine bind (operandCall_follows hg) fun inner inner' hinner => newExpr_follows ?_ ?_ id
      · exact (congrArg (Node.unary op) hinner :)
      · exact K.like.cover hstart hinner.exprSpan
    refine of_token (ite (fun h => ?_) fun _ => ?_) fun s hs =>
      (PrefixOp.inner_of_ofTokens (hseen hs.2)).2.2
    · -- The word behind the borrow was seen before the step over the borrow itself.
      subst h
      refine bind_known (fun _ s => s.kind = .keyword .mut_)
        (advance_follows fun s hs => PrefixOp.inner_of_ofTokens (hseen hs.2)) ?_ fun _ _ _ => ?_
      · rintro s _ _ eof hs ⟨⟩
        have hnext := (PrefixOp.borrowMut_tokens (hseen hs.2)).2
        exact ParserState.advance_kind eof hnext ⟨(by simp), (by simp)⟩
      · exact hafter.mono fun s hs => hs ▸ (by decide)
    · exact hafter.mono fun s hs => PrefixOp.inner_of_ofTokens (hseen hs.2)

/-- The casts behind an operand. -/
theorem casts_follows (hg : GrammarFollows K g g') (hnm : K.Bounds n m) {e e' : Expr}
    (he : K.like.Alike e e') :
    FollowsTo K 0 (K.behind e) K.behind pre (casts g n e) (casts g' m e') := by
  induction n generalizing m pre e e' with
  | zero => exact stalled_follows (q := (casts g' · e')) rfl hnm
  | succ n ih =>
    obtain ⟨m, rfl, hbounds⟩ := K.bounds_succ hnm
    unfold casts
    refine kind_bind (fun k => ite (fun h => ?_) fun _ => read_follows he) fun _ => ?_
    · refine bind (advance_follows fun s hs => ?_) fun _ _ _ => ?_
      · rcases h with h | h
        · exact (hs.2.trans h) ▸ (by decide)
        · exact (hs.2.trans h) ▸ (by decide)
      · refine bind (typeCall_follows hg) fun t t' ht => ?_
        have hform : K.like.Alike (Node.cast e t (k == .keyword .asSafe))
            (Node.cast e' t' (k == .keyword .asSafe)) :=
          (congrFun (congr (congrArg Node.cast he) ht) (k == .keyword .asSafe) :)
        refine bind (newExpr_follows hform (K.like.cover he.exprSpan ht.typeSpan) Grip.firm_elim) ?_
        exact fun _ _ hx => ih hbounds hx
    · rw [if_neg (by simp), if_neg (by simp)]
      exact read_follows he

/-- What comes behind the first operand of a chain of powers. -/
theorem powerBehind_follows (hg : GrammarFollows K g g') (hnm : K.Bounds n m) {e e' : Expr}
    (he : K.like.Alike e e') :
    FollowsTo K 0 (K.behind e) K.behind pre
      (do
        let left ← casts g n e
        if !(← acceptSymbol .power) then return left
        skipNewlines
        let right ← g .power
        newExpr (.binary left .power right) (left.span.cover right.span))
      (do
        let left ← casts g' m e'
        if !(← acceptSymbol .power) then return left
        skipNewlines
        let right ← g' .power
        newExpr (.binary left .power right) (left.span.cover right.span)) := by
  refine bind (casts_follows hg hnm he) fun left left' hleft => ?_
  refine bind (acceptSymbol_follows (by decide)) fun found _ hfound => ?_
  obtain rfl := hfound
  refine ite (fun _ => read_follows hleft) fun _ => ?_
  refine bind skipNewlines_follows fun _ _ _ => ?_
  refine bind (powerCall_follows hg) fun right right' hright => newExpr_follows ?_ ?_ id
  · exact (congr (congrFun (congrArg Node.binary hleft) BinaryOp.power) hright :)
  · exact K.like.cover hleft.exprSpan hright.exprSpan

/-- A chain of powers. -/
theorem power_follows (hg : GrammarFollows K g g') (hnm : K.Bounds n m) :
    FollowsTo K 0 a K.behind pre (power n g) (power m g') :=
  bind (operand_follows hg hnm) fun _ _ hfirst => powerBehind_follows hg hnm hfirst

/-- The operators two tokens stand for. -/
def OpsAlike (l : Likeness) : Option BinaryOp → Option BinaryOp → Prop
  | some op, some op' => l.left.binaryOp op = l.right.binaryOp op'
  | none, none => True
  | _, _ => False

/-- Tokens that are alike stand for operators that are alike. -/
theorem opsAlike {level : Level} (hlevel : level.Written) {l : Likeness} {x y : Token}
    (h : l.Alike x y) : OpsAlike l (level.op? x) (level.op? y) := by
  obtain ⟨kind, span⟩ := x
  obtain ⟨kind', span'⟩ := y
  obtain rfl : kind = kind' := h.kind
  cases level with
  | operators ops =>
    have hsame : (Level.operators ops).op? ⟨kind, span⟩ = (Level.operators ops).op? ⟨kind, span'⟩ :=
      rfl
    rw [← hsame]
    cases hop : (Level.operators ops).op? ⟨kind, span⟩ with
    | none => trivial
    | some op =>
      have hwritten := hlevel op (List.mem_of_find?_eq_some hop)
      exact (hwritten.2.2 l.left).trans (hwritten.2.2 l.right).symm
  | customNames =>
    cases kind with
    | ident name =>
      have hident : l.left.ident ⟨name, span⟩ = l.right.ident ⟨name, span'⟩ :=
        (congrArg (Ident.mk name) h.span :)
      exact congrArg BinaryOp.custom hident
    | _ => trivial

/-- A token that stands for an operator is no separator. -/
theorem inner_of_op {level : Level} (hlevel : level.Written) {x : Token} {op : BinaryOp}
    (h : level.op? x = some op) : x.kind.Inner ∧ x.kind ≠ .newline := by
  cases level with
  | operators ops =>
    have hwritten := hlevel op (List.mem_of_find?_eq_some h)
    have htoken : op.token = x.kind := by simpa using List.find?_some h
    rw [← htoken]
    exact ⟨hwritten.1, hwritten.2.1⟩
  | customNames =>
    unfold Level.op? at h
    dsimp only at h
    split at h
    · rename_i name hk
      rw [hk]
      exact ⟨⟨rfl, rfl, (by simp)⟩, (by simp)⟩
    · cases h

/-- The operators of one level behind an operand. -/
theorem chain_follows {level : Level} (hlevel : level.Written) {tighter tighter' : Parser Expr}
    (htighter : FollowsTo K 0 .slack K.behind (fun _ => True) tighter tighter') (hnm : K.Bounds n m)
    {left left' : Expr} (hleft : K.like.Alike left left') :
    FollowsTo K 0 (K.behind left) K.behind pre (chain level tighter n left)
      (chain level tighter' m left') := by
  induction n generalizing m pre left left' with
  | zero => exact stalled_follows (q := (chain level tighter' · left')) rfl hnm
  | succ n ih =>
    obtain ⟨m, rfl, hbounds⟩ := K.bounds_succ hnm
    unfold chain
    refine current_bind (fun x y hxy => ?_) fun _ x y hx hy => ?_
    · have hops := opsAlike hlevel hxy
      cases hop : level.op? x with
      | none =>
        rw [hop] at hops
        cases hop' : level.op? y with
        | none => exact read_follows hleft
        | some op' =>
          rw [hop'] at hops
          exact hops.elim
      | some op =>
        rw [hop] at hops
        cases hop' : level.op? y with
        | none =>
          rw [hop'] at hops
          exact hops.elim
        | some op' =>
          rw [hop'] at hops
          refine bind (advance_follows fun s hs => ?_) fun _ _ _ => ?_
          · unfold ParserState.kind
            rw [hs.2]
            exact (inner_of_op hlevel hop).1
          refine bind skipNewlines_follows fun _ _ _ => ?_
          extract_lets after after'
          have hafter : FollowsTo K 0 .slack K.behind (fun _ => True) (after ()) (after' ()) := by
            refine bind htighter fun right right' hright => ?_
            have hform : K.like.Alike (Node.binary left op right) (Node.binary left' op' right') :=
              (congr (congr (congrArg Node.binary hleft) hops) hright :)
            refine bind (newExpr_follows hform (K.like.cover hleft.exprSpan hright.exprSpan) id) ?_
            exact fun _ _ hx => ih hbounds hx
          cases level with
          | operators ops => exact hafter
          | customNames =>
            exact bind (record_follows (K.gaps (Or.inl rfl)) hxy.span) fun _ _ _ => hafter
    · have hnone {z : Token} (hz : z.kind = .eof ∨ z.kind = .newline) : level.op? z = none := by
        by_contra hsome
        obtain ⟨op, hop⟩ := Option.ne_none_iff_exists'.1 hsome
        obtain ⟨hinner, hnewline⟩ := inner_of_op hlevel hop
        rcases hz with hz | hz
        · exact hinner.2.2 hz
        · exact hnewline hz
      rw [hnone (Or.inl hx), hnone (Or.inr hy)]
      exact read_follows hleft

/-- An expression whose operators all belong to some levels. -/
theorem binary_follows (hg : GrammarFollows K g g') (hnm : K.Bounds n m) {levels : List Level}
    (hlevels : ∀ level ∈ levels, level.Written) :
    FollowsTo K 0 a K.behind pre (binary n g levels) (binary m g' levels) := by
  refine of_slack ?_
  induction levels generalizing pre with
  | nil => exact power_follows hg hnm
  | cons level levels ih =>
    have htighter {pre : ParserState → Prop} :
        FollowsTo K 0 .slack K.behind pre (binary n g levels) (binary m g' levels) :=
      ih fun l hl => hlevels l (List.mem_cons_of_mem level hl)
    refine bind htighter fun first first' hfirst => ?_
    exact chain_follows (hlevels level List.mem_cons_self) htighter hnm hfirst

/-- What comes behind the target of an assignment. -/
theorem exprBehind_follows (hg : GrammarFollows K g g') {target target' : Expr}
    (htarget : K.like.Alike target target') :
    FollowsTo K 0 (K.behind target) K.behind pre
      (do
        match AssignOp.ofToken? (← kind) with
        | none => return target
        | some op =>
          advance
          skipNewlines
          let value ← g .expr
          newExpr (.assign target op value) (target.span.cover value.span))
      (do
        match AssignOp.ofToken? (← kind) with
        | none => return target'
        | some op =>
          advance
          skipNewlines
          let value ← g' .expr
          newExpr (.assign target' op value) (target'.span.cover value.span)) := by
  refine kind_bind (fun k => ?_) fun _ => read_follows htarget
  split
  · exact read_follows htarget
  · rename_i op hop
    refine bind (advance_follows fun s hs => hs.2 ▸ AssignOp.inner_of_ofToken hop) fun _ _ _ => ?_
    refine bind skipNewlines_follows fun _ _ _ => ?_
    refine bind (exprCall_follows hg) fun value value' hvalue => newExpr_follows ?_ ?_ id
    · exact (congr (congrFun (congrArg Node.assign htarget) op) hvalue :)
    · exact K.like.cover htarget.exprSpan hvalue.exprSpan

/-- An expression. -/
theorem expr_follows (hg : GrammarFollows K g g') (hnm : K.Bounds n m) :
    FollowsTo K 0 a K.behind pre (expr n g) (expr m g') :=
  bind (binary_follows hg hnm Level.all_written) fun _ _ htarget => exprBehind_follows hg htarget

end Parse

end FrontEnd
