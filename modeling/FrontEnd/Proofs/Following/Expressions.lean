import FrontEnd.Proofs.Following.Types

/-!
# Expressions side by side

Each parser of an expression follows its counterpart on the right. The places that need care are
those that look behind the token at hand: what stands there is seen alike by the laws of the
comparison, and only there.
-/

namespace FrontEnd

/-- The single name of a path moves with it. -/
theorem Node.simpleName?_relabel (r : Relabeling) (p : Path) :
    (p.relabel r).simpleName? = p.simpleName?.map r.ident := by
  cases p with
  | path global segments span slot =>
    cases segments with
    | nil => cases global <;> rfl
    | cons first others =>
      cases others with
      | cons _ _ => cases global <;> rfl
      | nil =>
        cases first with
        | segment ident generics => cases generics <;> cases global <;> rfl

/-- Whether parentheses are useless is seen without numbers and places. -/
theorem Node.uselessParens?_relabel (r : Relabeling) (form : ExprForm) :
    uselessParens? (form.relabel r) = uselessParens? form := by
  cases form <;> rfl

theorem Likeness.Alike.simpleName? {l : Likeness} {p p' : Path} (h : l.Alike p p') :
    l.Alike p.simpleName? p'.simpleName? := by
  have hnames := congrArg Node.simpleName? h
  have hleft := Node.simpleName?_relabel l.left p
  have hright := Node.simpleName?_relabel l.right p'
  exact hleft.symm.trans (hnames.trans hright)

theorem Likeness.Alike.uselessParens? {l : Likeness} {e e' : Expr} (h : l.Alike e e') :
    FrontEnd.uselessParens? e.form = FrontEnd.uselessParens? e'.form := by
  cases e with
  | expr o form =>
    cases e' with
    | expr o' form' =>
      have hforms : form.relabel l.left = form'.relabel l.right := (congrArg Node.form h :)
      rw [Node.form, Node.form, ← Node.uselessParens?_relabel l.left, hforms,
        Node.uselessParens?_relabel]

namespace Parse

open FollowsTo

variable {K : Comparison} {a : Grip} {pre : ParserState → Prop} {g g' : Grammar} {n m : Nat}

/-- An expression that was read already. -/
theorem read_follows {e e' : Expr} (h : K.like.Alike e e') :
    FollowsTo K 0 (K.behind e) K.behind pre (pure e) (pure e') :=
  result_to h id

/-- A parser that is run while braces are not allowed; whether they are is restored afterwards. -/
theorem braceless_follows {b : Expr → Grip} {p q : Parser Expr}
    (h : FollowsTo K 0 .slack b (fun _ => True) p q) : FollowsTo K 0 .slack b pre
      (fun s => match p { s with allowsBrace := false } with
        | .ok e s' => .ok e { s' with allowsBrace := s.allowsBrace }
        | .error e s' => .error e { s' with allowsBrace := s.allowsBrace })
      (fun s => match q { s with allowsBrace := false } with
        | .ok e s' => .ok e { s' with allowsBrace := s.allowsBrace }
        | .error e s' => .error e { s' with allowsBrace := s.allowsBrace }) where
  runs := fun s eof _ => by
    have run := h.runs (s := { s with allowsBrace := false }) eof trivial
    cases hrun : p { s with allowsBrace := false } with
    | error e s' =>
      rw [hrun] at run
      exact ⟨⟨run.onward.final, run.onward.rest, run.onward.diagnostics⟩, run.groups, run.fatal⟩
    | ok x s' =>
      rw [hrun] at run
      exact ⟨⟨run.onward.final, run.onward.rest, run.onward.diagnostics⟩, run.groups, rfl,
        run.stops⟩
  pairs := fun s t hlinked _ hlost hgrip hδ => by
    have hlost' : ¬K.Lost { s with allowsBrace := false } := mt (K.lost_setBrace false).1 hlost
    have hgrip' : Grip.slack = .slack → ¬K.Ended { s with allowsBrace := false } :=
      fun ha => mt (K.ended_setBrace false).1 (hgrip ha)
    have pair := h.pairs (K.setBrace false hlinked) trivial hlost' hgrip' hδ
    cases hrun : p { s with allowsBrace := false } with
    | error e s' =>
      rw [hrun] at pair
      rcases pair with hgiven | ⟨e', t', run', he', hlinked'⟩
      · exact Or.inl ((K.given_setBrace _).2 hgiven)
      · rw [run', K.brace hlinked]
        exact Or.inr ⟨e', _, rfl, he', K.setBrace _ hlinked'⟩
    | ok x s' =>
      rw [hrun] at pair
      rcases pair with hlost' | ⟨hslack, hended⟩ | ⟨y, t', run', hxy, hlinked'⟩
      · exact Or.inl ((K.lost_setBrace _).2 hlost')
      · exact Or.inr (Or.inl ⟨hslack, (K.ended_setBrace _).2 hended⟩)
      · rw [run', K.brace hlinked]
        exact Or.inr (Or.inr ⟨y, _, rfl, hxy, K.setBrace _ hlinked'⟩)

/-- An expression in front of a body. -/
theorem headExpr_follows (hg : GrammarFollows K g g') :
    FollowsTo K 0 a K.behind pre (headExpr g) (headExpr g') :=
  of_slack (braceless_follows (exprCall_follows hg))

/-- A name and a colon in front of a value. -/
theorem label_follows : Follows K 0 a a pre label? label? := by
  refine of_firm (look (fun s t => s.kind.isIdent = true ∧ s.nextKind = .symbol .colon ↔
      t.kind.isIdent = true ∧ t.nextKind = .symbol .colon) (fun _ => Iff.rfl)
    (fun _ _ hlinked _ _ => K.label hlinked) fun s₀ t₀ hseen => ?_)
  by_cases h : s₀.kind.isIdent = true ∧ s₀.nextKind = .symbol .colon
  · rw [if_pos h, if_pos (hseen.1 h)]
    refine bind_known (fun _ s => s.kind = .symbol .colon) expectIdent_follows ?_
      fun name name' hname => ?_
    · intro s name s' eof hs hrun
      rw [expectIdent_state hrun]
      exact ParserState.advance_kind eof (hs.2 ▸ h.2) ⟨(by simp), (by simp)⟩
    · refine bind (advance_follows fun s hs => hs ▸ (by decide)) fun _ _ _ => result ?_
      exact (congrArg some hname :)
  · rw [if_neg h, if_neg (mt hseen.2 h)]
    exact result rfl

/-- A value with an optional name. -/
theorem argument_follows (hg : GrammarFollows K g g') :
    Follows K 0 a K.tail pre (argument g) (argument g') := by
  refine of_slack (here_bind fun start start' hstart => ?_)
  refine bind label_follows fun name? name?' hname => ?_
  refine bind (exprCall_follows hg) fun value value' hvalue =>
    result_to ?_ Comparison.gripOf_tail
  exact (congr (congr (congrArg Node.argument hname) hvalue)
    (K.like.cover hstart hvalue.exprSpan) :)

/-- Arguments up to a closing parenthesis. -/
theorem arguments_follows (hg : GrammarFollows K g g') (hnm : K.Bounds n m) :
    Follows K 0 a .slack pre (arguments n g) (arguments m g') :=
  map (commaListTo_follows (argument_follows hg) hnm) fun _ _ h => h.ofList

/-- Expressions up to a closing bracket. -/
theorem items_follows (hg : GrammarFollows K g g') (hnm : K.Bounds n m) :
    Follows K 0 a .slack pre (items n g) (items m g') :=
  map (commaListTo_follows (exprCall_follows hg) hnm) fun _ _ h => h.ofList

/-- A field of a struct value. -/
theorem fieldInit_follows (hg : GrammarFollows K g g') :
    Follows K 0 a K.tail pre (fieldInit g) (fieldInit g') := by
  refine bind (acceptSymbol_follows (by decide)) fun isBase _ hbase => ?_
  obtain rfl := hbase
  refine ite (fun _ => ?_) fun _ => ?_
  · exact bind (exprCall_follows hg) fun _ _ hvalue =>
      result_to (congrArg Node.baseField hvalue :) Comparison.gripOf_tail
  · refine bind label_follows fun name? name?' hname => ?_
    cases name? with
    | some name =>
      obtain ⟨name', rfl, hname'⟩ : ∃ name', name?' = some name' ∧ K.like.Alike name name' := by
        cases name?' with
        | none => cases hname
        | some name' => exact ⟨name', rfl, Option.some.inj hname⟩
      refine bind (exprCall_follows hg) fun value value' hvalue =>
        result_to ?_ Comparison.gripOf_tail
      exact (congr (congrArg Node.namedField hname') hvalue :)
    | none =>
      obtain rfl : name?' = none := by
        cases name?' with
        | none => rfl
        | some name' => cases hname
      refine bind (exprCall_follows hg) fun value value' hvalue =>
        result_to ?_ Comparison.gripOf_tail
      exact (congrArg Node.shorthandField hvalue :)

/-- A struct value. -/
theorem construct_follows (hg : GrammarFollows K g g') (hnm : K.Bounds n m) {p p' : Path}
    (hp : K.like.Alike p p') (hpre : ∀ s, pre s → s.kind = .symbol .lBrace) :
    FollowsTo K 0 a K.behind pre (construct n g p) (construct m g' p') := by
  have hplace : K.inside.like.Alike p.pathSpan p'.pathSpan := hp.pathSpan
  refine enter_brace hpre ?_
  refine bind (commaListTo_follows (fieldInit_follows hg.inside) hnm)
    fun fields fields' hfields => ?_
  refine bind_leave (close_follows rfl fun _ => K.inside.gaps (Or.inr trivial))
    fun closed _ hclosed => ?_
  obtain rfl := hclosed
  refine ite (fun _ => newExpr_follows rfl hplace Grip.firm_elim) fun _ => ?_
  refine spanFrom_bind hplace fun span span' hspan => newExpr_follows ?_ hspan Grip.firm_elim
  exact (congr (congrArg Node.construct hp) hfields.ofList :)

/-- A name, a path or a struct value. -/
theorem pathOrConstruct_follows (hg : GrammarFollows K g g') (hnm : K.Bounds n m) :
    FollowsTo K 0 a K.behind pre (pathOrConstruct n g) (pathOrConstruct m g') := by
  refine bind (path_follows hg hnm false) fun p p' hp => ?_
  refine look (fun s t => s.allowsBrace = t.allowsBrace) (fun _ => rfl)
    (fun _ _ hlinked _ _ => (K.brace hlinked).symm) fun s₀ t₀ hbrace => ?_
  rw [hbrace]
  refine atSymbol_bind fun found => ite (fun h => ?_) fun _ => ?_
  · exact construct_follows hg hnm hp fun s hs => eq_of_beq (hs.2.trans h.2)
  · have hname := hp.simpleName?
    cases hs : p.simpleName? with
    | some ident =>
      rw [hs] at hname
      obtain ⟨ident', hs', hident⟩ := Option.map_eq_some_iff.1 hname.symm
      rw [hs']
      exact newExpr_follows (congrFun (congrArg Node.name hident.symm) Slot.empty :) hp.pathSpan
        Grip.firm_elim
    | none =>
      rw [hs] at hname
      rw [Option.map_eq_none_iff.1 hname.symm]
      exact newExpr_follows (congrArg Node.pathExpr hp :) hp.pathSpan Grip.firm_elim

/-- The elements of a tuple after its first one. -/
theorem tupleRest_follows (hg : GrammarFollows K g g') (hnm : K.Bounds n m) :
    Follows K 0 a .slack pre (tupleRest g n) (tupleRest g' m) := by
  refine of_slack ?_
  induction n generalizing m pre with
  | zero => exact stalled_follows rfl hnm
  | succ n ih =>
    obtain ⟨m, rfl, hbounds⟩ := K.bounds_succ hnm
    unfold tupleRest
    refine bind (acceptSymbol_follows (by decide)) fun found _ hfound => ?_
    obtain rfl := hfound
    refine ite (fun _ => result rfl) fun _ => ?_
    refine atSymbol_bind fun closes => ite (fun _ => result rfl) fun _ => ?_
    refine bind (argument_follows hg) fun x x' hx => ?_
    exact bind (of_slack (ih hbounds)) fun xs xs' hxs => result (hx.cons hxs)

/-- A warning is given on both sides. -/
theorem checkParens_follows {inner inner' : Expr} (hinner : K.like.Alike inner inner')
    {span span' : Span} (hspan : K.like.Alike span span') :
    Follows K 0 a a pre (checkParens inner span) (checkParens inner' span') := by
  unfold checkParens
  rw [hinner.uselessParens?]
  split
  · exact update (fun s _ _ => ⟨s.report_onward _, rfl, rfl, fun _ => ⟨rfl, id⟩⟩)
      fun _ _ hlinked _ _ _ _ => Or.inr (Or.inr (K.warn _ hlinked hspan))
  · exact result rfl

/-- Unit, an expression in parentheses, or a tuple. -/
theorem parenExpr_follows (hg : GrammarFollows K g g') (hnm : K.Bounds n m)
    (hpre : ∀ s, pre s → s.kind = .symbol .lParen) :
    FollowsTo K 0 a K.behind pre (parenExpr n g) (parenExpr m g') := by
  refine of_slack (here_bind fun start start' hstart => ?_)
  refine enter_bind (fun s hs => by rw [hpre s hs]; exact ⟨rfl, fun _ => rfl⟩) ?_
  refine atSymbol_bind fun isUnit => ite (fun h => ?_) fun _ => ?_
  · refine leave_bind rfl (fun s hs => eq_of_beq (hs.2.trans h)) ?_
    exact spanFrom_bind hstart fun _ _ hspan => newExpr_follows rfl hspan Grip.firm_elim
  · refine bind (argument_follows hg) fun first first' hfirst => ?_
    extract_lets after after'
    have hafter : FollowsTo K 1 K.tail K.behind (fun _ => True) (after ()) (after' ()) := by
      refine bind (tupleRest_follows hg hnm) fun others others' hothers => ?_
      refine bind_leave (close_follows rfl fun _ => K.gaps (Or.inl rfl)) fun closed _ hclosed => ?_
      obtain rfl := hclosed
      refine ite (fun _ => newExpr_follows rfl hstart Grip.firm_elim) fun _ => ?_
      refine spanFrom_bind hstart fun span span' hspan => newExpr_follows ?_ hspan Grip.firm_elim
      exact (congrArg Node.tuple (hfirst.cons hothers).ofList :)
    cases first with
    | argument name? inner place =>
      cases first' with
      | argument name?' inner' place' =>
        have hname : K.like.Alike name? name?' := by injection hfirst
        have hinner : K.like.Alike inner inner' := by injection hfirst
        cases name? with
        | some name =>
          obtain ⟨name', rfl, -⟩ := Option.map_eq_some_iff.1 hname.symm
          exact hafter
        | none =>
          obtain rfl := Option.map_eq_none_iff.1 hname.symm
          refine atSymbol_bind fun comma => ite (fun _ => ?_) fun _ => hafter.anywhere
          refine bind_leave (close_follows rfl fun _ => K.gaps (Or.inl rfl))
            fun closed _ hclosed => ?_
          obtain rfl := hclosed
          refine ite (fun _ => newExpr_follows rfl hstart Grip.firm_elim) fun _ => ?_
          refine spanFrom_bind hstart fun span span' hspan => ?_
          refine bind (checkParens_follows hinner hspan) fun _ _ _ => ?_
          exact newExpr_follows (congrArg Node.paren hinner :) hspan Grip.firm_elim

/-- A list of values. -/
theorem listExpr_follows (hg : GrammarFollows K g g') (hnm : K.Bounds n m)
    (hpre : ∀ s, pre s → s.kind = .symbol .lBracket) :
    FollowsTo K 0 a K.behind pre (listExpr n g) (listExpr m g') := by
  refine of_slack (here_bind fun start start' hstart => ?_)
  refine enter_bind (fun s hs => by rw [hpre s hs]; exact ⟨rfl, fun _ => rfl⟩) ?_
  refine bind (items_follows hg hnm) fun values values' hvalues => ?_
  refine bind_leave (close_follows rfl fun _ => K.gaps (Or.inl rfl)) fun closed _ hclosed => ?_
  obtain rfl := hclosed
  refine ite (fun _ => newExpr_follows rfl hstart Grip.firm_elim) fun _ => ?_
  refine spanFrom_bind hstart fun span span' hspan => newExpr_follows ?_ hspan Grip.firm_elim
  exact (congrArg Node.list hvalues :)

/-- Line breaks before a token that was seen behind them. -/
theorem skipNewlines_then {α : Type} [Labeled α] {b : α → Grip} {k : TokenKind}
    {next next' : Unit → Parser α} (hpre : ∀ s, pre s → s.kindAfterNewlines = k)
    (hnext : FollowsTo K 0 .slack b (·.kind = k) (next ()) (next' ())) :
    FollowsTo K 0 a b pre (skipNewlines >>= next) (skipNewlines >>= next') := by
  refine bind_known (fun _ s => s.kind = k) skipNewlines_follows ?_ fun _ _ _ => hnext
  rintro s _ _ - hs ⟨⟩
  exact s.skipNewlines_kind.trans (hpre s hs)

/-- Two states in which the same token goes on with the statement, if one of some tokens does. -/
def GoesOnAlike (marks : TokenKind → Prop) (s t : ParserState) : Prop :=
  ∀ k : TokenKind, k.continues = true → marks k →
    (s.kindAfterNewlines = k ↔ t.kindAfterNewlines = k)

/-- What comes behind line breaks is looked at. Where only the right text may go on with an `else`,
that is not looked for at the end of the left text. -/
theorem ahead_bind {α : Type} [Labeled α] {b : α → Grip} (marks : TokenKind → Prop)
    (helse : marks (.keyword .else_) → K.tail = .slack → a = .slack)
    {f f' : ParserState → Parser α}
    (hf : ∀ s₀ t₀, GoesOnAlike marks s₀ t₀ →
      FollowsTo K 0 a b (fun s => pre s ∧ s = s₀) (f s₀) (f' t₀)) :
    FollowsTo K 0 a b pre (get >>= f) (get >>= f') := by
  refine look (GoesOnAlike marks) (fun _ _ _ _ => Iff.rfl)
    (fun s t hlinked _ hgrip k hk hmark => ?_) hf
  rcases K.ahead hlinked hk with hsame | ⟨rfl, htail, hended⟩
  · exact hsame
  · exact absurd hended (hgrip (helse hmark htail))

/-- The second branch of a condition, if there is one. -/
theorem elseBranch_follows (hg : GrammarFollows K g g') :
    FollowsTo K 0 K.tail (fun negative => K.gripOf (negative.isAbsent || negative.dangles)) pre
      (elseBranch? g) (elseBranch? g') := by
  refine ahead_bind (fun _ => True) (fun _ htail => htail) fun s₀ t₀ hseen => ?_
  have helif := hseen (.keyword .elif) rfl trivial
  have helse := hseen (.keyword .else_) rfl trivial
  split
  · rename_i hk
    rw [helif.1 hk]
    refine skipNewlines_then (fun s hs => hs.2 ▸ hk) ?_
    refine bind (condCall_follows hg fun s hs => Or.inr hs) fun e e' he => result_to ?_ id
    exact (congrArg Node.present he :)
  · rename_i hk
    rw [helse.1 hk]
    refine skipNewlines_then (fun s hs => hs.2 ▸ hk) ?_
    refine bind (advance_follows fun s hs => hs ▸ (by decide)) fun _ _ _ => of_slack ?_
    refine at_bind (fun _ => rfl) fun chained => ite (fun h => ?_) fun _ => ?_
    · refine bind (condCall_follows hg fun s hs => Or.inl (eq_of_beq (hs.2.trans h)))
        fun e e' he => result_to ?_ id
      exact (congrArg Node.present he :)
    · refine here_bind fun start start' hstart => ?_
      refine bind (block_follows hg) fun body body' hbody => ?_
      refine spanFrom_bind hstart fun span span' hspan => ?_
      refine bind (newExpr_follows (congrArg Node.blockExpr hbody :) hspan Grip.firm_elim)
        fun e e' he => ?_
      exact result_to (congrArg Node.present he :) id
  · rename_i hnot hnot'
    split
    · exact absurd (helif.2 ‹_›) hnot
    · exact absurd (helse.2 ‹_›) hnot'
    · exact result_to rfl id

/-- A condition with its branches. -/
theorem cond_follows (hg : GrammarFollows K g g') :
    FollowsTo K 0 a K.behind Nonterminal.cond.Expected (cond g) (cond g') := by
  refine of_slack (here_bind fun start start' hstart => ?_)
  refine bind (advance_follows fun s hs => ?_) fun _ _ _ => ?_
  · rcases hs with h | h
    · exact h ▸ (by decide)
    · exact h ▸ (by decide)
  refine bind (headExpr_follows hg) fun condition condition' hcondition => ?_
  refine bind (block_follows hg) fun positive positive' hpositive => ?_
  refine bind (with_firm (elseBranch_follows hg)) fun negative negative' hnegative => ?_
  refine spanFrom_bind hstart fun span span' hspan => newExpr_follows ?_ hspan id
  exact (congr (congr (congrArg Node.cond hcondition) hpositive) hnegative :)

/-- The conditions of an entry of a choice. -/
theorem entryConditions_follows (hg : GrammarFollows K g g') (hnm : K.Bounds n m) :
    Follows K 0 a .slack pre (entryConditions g n) (entryConditions g' m) := by
  refine of_slack ?_
  induction n generalizing m pre with
  | zero => exact stalled_follows rfl hnm
  | succ n ih =>
    obtain ⟨m, rfl, hbounds⟩ := K.bounds_succ hnm
    unfold entryConditions
    refine bind (exprCall_follows hg) fun x x' hx => ?_
    refine bind (acceptSymbol_follows (by decide)) fun found _ hfound => ?_
    obtain rfl := hfound
    refine ite (fun _ => result_to (hx.cons Likeness.alike_nil) fun _ => rfl) fun _ => ?_
    refine bind skipNewlines_follows fun _ _ _ => ?_
    exact bind (ih hbounds) fun xs xs' hxs => result (hx.cons hxs)

/-- An entry of a choice. -/
theorem selectEntry_follows (hg : GrammarFollows K g g') (hnm : K.Bounds n m) :
    Follows K 0 a .slack pre (selectEntry n g) (selectEntry m g') := by
  refine of_slack (here_bind fun start start' hstart => ?_)
  refine bind (accept_follows (by decide)) fun isElse _ helse => ?_
  obtain rfl := helse
  extract_lets after after'
  have hafter {xs xs' : List Expr} (hxs : K.like.Alike xs xs') :
      Follows K 0 .slack .slack (fun _ => True) (after xs) (after' xs') := by
    refine bind (discard (expectSymbol_follows (by decide))) fun _ _ _ => ?_
    refine bind skipNewlines_follows fun _ _ _ => ?_
    refine bind (exprCall_follows hg) fun body body' hbody => ?_
    refine spanFrom_bind hstart fun span span' hspan => ?_
    refine bind (origin_follows hspan) fun o o' ho => result_to ?_ fun _ => rfl
    exact (congr (congr (congrArg Node.selectEntry ho) hxs.ofList) hbody :)
  refine ite (fun _ => hafter Likeness.alike_nil) fun _ => ?_
  exact bind (entryConditions_follows hg hnm) fun xs xs' hxs => of_slack (hafter hxs)

/-- The entries of a choice. -/
theorem selectEntries_follows (hg : GrammarFollows K g g') {bound bound' : Nat}
    (hbound : K.Bounds bound bound') (hnm : K.Bounds n m) :
    Follows K 0 a .slack pre (selectEntries bound g n) (selectEntries bound' g' m) := by
  refine of_slack ?_
  induction n generalizing m pre with
  | zero => exact stalled_follows (q := selectEntries bound' g') rfl hnm
  | succ n ih =>
    obtain ⟨m, rfl, hbounds⟩ := K.bounds_succ hnm
    unfold selectEntries
    refine atSymbol_bind fun closes => at_bind (fun _ => rfl) fun ends => ?_
    refine ite (fun _ => result rfl) fun _ => ?_
    refine bind (selectEntry_follows hg hbound) fun entry entry' hentry => ?_
    refine bind skipSeparators_follows fun _ _ _ => ?_
    exact bind (ih hbounds) fun entries entries' hentries => result (hentry.cons hentries)

/-- A choice between entries. -/
theorem select_follows (hg : GrammarFollows K g g') (hnm : K.Bounds n m)
    (hpre : ∀ s, pre s → s.kind = .keyword .when) :
    FollowsTo K 0 a K.behind pre (select n g) (select m g') := by
  refine of_slack (here_bind fun start start' hstart => ?_)
  refine bind (advance_follows fun s hs => hpre s hs ▸ (by decide)) fun _ _ _ => ?_
  refine bind (headExpr_follows hg) fun subject subject' hsubject => ?_
  rw [discard_expect_bind, discard_expect_bind]
  refine expect_brace fun _ _ _ => ?_
  refine bind skipSeparators_follows fun _ _ _ => ?_
  refine bind (selectEntries_follows hg.inside hnm hnm) fun entries entries' hentries => ?_
  refine bind_leave (closeStrict_follows rfl) fun _ _ _ => ?_
  have hstart : K.inside.like.Alike start start' := hstart
  refine spanFrom_bind hstart fun span span' hspan => newExpr_follows ?_ hspan Grip.firm_elim
  exact (congr (congrArg Node.select hsubject) hentries.ofList :)

/-- A parameter of a lambda. -/
theorem lambdaParam_follows (hg : GrammarFollows K g g') :
    Follows K 0 a .firm pre (lambdaParam g) (lambdaParam g') := by
  refine bind expectIdent_follows fun name name' hname => ?_
  refine bind (acceptSymbol_follows (by decide)) fun typed _ htyped => ?_
  obtain rfl := htyped
  extract_lets after after'
  have hafter {t t' : Node (.maybe .type)} (ht : K.like.Alike t t') :
      Follows K 0 .firm .firm (fun _ => True) (after t) (after' t') :=
    bind freshId_follows fun id id' hid =>
      result (congr (congr (congrArg Node.lambdaParam hid) hname) ht :)
  refine ite (fun _ => ?_) fun _ => hafter rfl
  refine bind skipNewlines_follows fun _ _ _ => ?_
  exact bind (typeCall_follows hg) fun t t' ht => hafter (congrArg Node.present ht :)

/-- The parameters of a lambda between bars. -/
theorem lambdaParams_follows (hg : GrammarFollows K g g') (hnm : K.Bounds n m) :
    Follows K 0 a .firm pre (lambdaParams n g) (lambdaParams m g') := by
  refine bind (acceptSymbol_follows (by decide)) fun bar _ hbar => ?_
  obtain rfl := hbar
  refine ite (fun _ => ?_) fun _ => ?_
  · refine bind skipNewlines_follows fun _ _ _ => ?_
    refine bind (commaList_follows skipNewlines_follows (lambdaParam_follows hg) hnm false)
      fun r r' hr => ?_
    exact bind (discard (expectSymbol_follows (by decide))) fun _ _ _ => result hr.fst
  · exact bind (discard (expectSymbol_follows (by decide))) fun _ _ _ => result rfl

/-- A lambda. -/
theorem lambda_follows (hg : GrammarFollows K g g') (hnm : K.Bounds n m) :
    FollowsTo K 0 a K.behind pre (lambda n g) (lambda m g') := by
  refine of_slack (here_bind fun start start' hstart => ?_)
  refine bind (lambdaParams_follows hg hnm) fun params params' hparams => ?_
  refine bind (acceptSymbol_follows (by decide)) fun arrow _ harrow => ?_
  obtain rfl := harrow
  extract_lets after after'
  have hafter {t t' : Node (.maybe .type)} (ht : K.like.Alike t t') :
      FollowsTo K 0 .firm K.behind (fun _ => True) (after t) (after' t') := by
    refine bind skipNewlines_follows fun _ _ _ => ?_
    refine bind (exprCall_follows hg) fun body body' hbody => newExpr_follows ?_ ?_ id
    · exact (congr (congr (congrArg Node.lambda hparams.ofList) ht) hbody :)
    · exact K.like.cover hstart hbody.exprSpan
  refine ite (fun _ => ?_) fun _ => hafter rfl
  exact bind (typeCall_follows hg) fun t t' ht => hafter (congrArg Node.present ht :)

/-- A block with the handler of its exceptions. -/
theorem tryCatch_follows (hg : GrammarFollows K g g')
    (hpre : ∀ s, pre s → s.kind = .keyword .try_) :
    FollowsTo K 0 a K.behind pre (tryCatch g) (tryCatch g') := by
  refine of_slack (here_bind fun start start' hstart => ?_)
  refine bind (advance_follows fun s hs => hpre s hs ▸ (by decide)) fun _ _ _ => ?_
  refine bind (block_follows hg) fun body body' hbody => ?_
  refine ahead_bind (· ≠ .keyword .else_) (absurd rfl) fun s₀ t₀ hseen => ?_
  extract_lets after after'
  have hafter : FollowsTo K 0 .slack K.behind (fun _ => True) (after ()) (after' ()) := by
    refine bind (discard expectKeyword_follows) fun _ _ _ => ?_
    refine bind expectIdent_follows fun binding binding' hbinding => ?_
    refine bind (block_follows hg) fun handling handling' hhandling => ?_
    refine bind freshId_follows fun id id' hid => ?_
    refine spanFrom_bind hstart fun span span' hspan => newExpr_follows ?_ hspan Grip.firm_elim
    have hhandler : K.like.Alike (Node.handler id binding handling)
        (Node.handler id' binding' handling') :=
      (congr (congr (congrArg Node.handler hid) hbinding) hhandling :)
    exact (congr (congrArg Node.tryCatch hbody) hhandler :)
  have hcatch := hseen (.keyword .catch_) rfl (by simp)
  by_cases h : s₀.kindAfterNewlines = .keyword .catch_
  · rw [if_pos h, if_pos (hcatch.1 h)]
    exact bind skipNewlines_follows fun _ _ _ => hafter
  · rw [if_neg h, if_neg (mt hcatch.2 h)]
    exact of_slack hafter.anywhere

/-- A value that may be left out. -/
theorem value_follows (hg : GrammarFollows K g g') :
    FollowsTo K 0 .firm K.behind pre (value? g) (value? g') := by
  refine kind_bind (fun k => ite (fun _ => ?_) fun _ => result_firm rfl) fun _ => result_firm rfl
  exact bind (exprCall_follows hg) fun e e' he => result_to (congrArg Node.present he :) id

/-- Literals are written inside a group. -/
theorem inner_of_literal {k : TokenKind} {value : Literal} (h : Literal.ofToken? k = some value) :
    k.Inner := by
  unfold Literal.ofToken? at h
  split at h
  all_goals first | exact ⟨rfl, rfl, (by simp)⟩ | cases h

/-- A form given by its first token alone. -/
theorem tokenForm_follows {b : Option ExprForm → Grip} {form : ExprForm}
    (hform : K.like.Alike form form) (hpre : ∀ s, pre s → s.kind.Inner) :
    FollowsTo K 0 a b pre (do advance; return some form) (do advance; return some form) :=
  bind (advance_follows hpre) fun _ _ _ => result_firm (congrArg some hform :)

/-- The grip behind a form, if there is one. -/
abbrev formGrip (K : Comparison) (form? : Option ExprForm) : Grip :=
  K.gripOf (form?.any (·.dangles))

/-- A form read behind its first token. -/
theorem formAfter_follows {c : Category} {b : Node c → Grip} {p q : Parser (Node c)}
    {make : Node c → ExprForm} (hpre : ∀ s, pre s → s.kind.Inner)
    (hp : FollowsTo K 0 .firm b (fun _ => True) p q)
    (hmake : ∀ x y, K.like.Alike x y → K.like.Alike (make x) (make y))
    (hgrip : ∀ x, b x = .slack → K.behind (make x) = .slack) :
    FollowsTo K 0 a (formGrip K) pre (do advance; return some (make (← p)))
      (do advance; return some (make (← q))) :=
  bind (advance_follows hpre) fun _ _ _ =>
    bind hp fun x y hxy => result_to (congrArg some (hmake x y hxy) :) (hgrip x)

/-- The forms given by their first token. -/
theorem simpleForm_follows (hg : GrammarFollows K g g') :
    FollowsTo K 0 .firm (formGrip K) pre (simpleForm? g) (simpleForm? g') := by
  refine kind_bind (fun k => ?_) fun _ => result_firm rfl
  split
  · rename_i value hvalue
    exact tokenForm_follows rfl fun s hs => hs.2 ▸ inner_of_literal hvalue
  · split
    · exact tokenForm_follows rfl fun s hs => hs.2 ▸ (by decide)
    · exact tokenForm_follows rfl fun s hs => hs.2 ▸ (by decide)
    · exact bind (block_follows hg) fun body body' hbody =>
        result_firm (congrArg (some ∘ Node.blockExpr) hbody :)
    · exact formAfter_follows (fun s hs => hs.2 ▸ (by decide)) (block_follows hg)
        (fun _ _ h => (congrArg Node.loop h :)) fun _ => Grip.firm_elim
    · exact formAfter_follows (fun s hs => hs.2 ▸ (by decide)) (value_follows hg)
        (fun _ _ h => (congrArg Node.break_ h :)) fun _ => id
    · exact tokenForm_follows rfl fun s hs => hs.2 ▸ (by decide)
    · exact formAfter_follows (fun s hs => hs.2 ▸ (by decide)) (value_follows hg)
        (fun _ _ h => (congrArg Node.return_ h :)) fun _ => id
    · exact formAfter_follows (fun s hs => hs.2 ▸ (by decide)) (exprCall_follows hg)
        (fun _ _ h => (congrArg Node.throw h :)) fun _ => id
    · exact formAfter_follows (fun s hs => hs.2 ▸ (by decide)) (operandCall_follows hg)
        (fun _ _ h => (congrArg Node.spread h :)) fun _ => id
    · exact result_firm rfl

/-- At the end of the text there is no form. -/
theorem simpleForm_eof {s s' : ParserState} {form? : Option ExprForm} (h : s.kind = .eof)
    (hrun : simpleForm? g s = .ok form? s') : form? = none := by
  obtain ⟨k, s₁, hkind, hform⟩ := bind_ok hrun
  obtain ⟨rfl, rfl⟩ : k = .eof ∧ s₁ = s := by
    cases hkind
    exact ⟨h, rfl⟩
  cases hform
  rfl

/-- An expression without operators. -/
theorem primary_follows (hg : GrammarFollows K g g') (hnm : K.Bounds n m) :
    FollowsTo K 0 a K.behind pre (primary n g) (primary m g') := by
  refine of_slack (kind_bind (fun k => ?_) (by simp))
  split
  · exact pathOrConstruct_follows hg hnm
  · exact pathOrConstruct_follows hg hnm
  · exact parenExpr_follows hg hnm fun _ hs => hs.2
  · exact listExpr_follows hg hnm fun _ hs => hs.2
  · exact (cond_follows hg).mono fun _ hs => Or.inl hs.2
  · exact select_follows hg hnm fun _ hs => hs.2
  · exact lambda_follows hg hnm
  · exact lambda_follows hg hnm
  · exact tryCatch_follows hg fun _ hs => hs.2
  · refine here_bind fun start start' hstart => ?_
    have hstub {c : Grip} {pre : ParserState → Prop} : FollowsTo K 0 c K.behind pre
        (reportExpected "expression" >>= fun _ => here >>= newExpr .errorExpr)
        (reportExpected "expression" >>= fun _ => here >>= newExpr .errorExpr) :=
      reportExpected_here_bind (fun _ => K.gaps (Or.inl rfl))
        fun _ _ hspan => newExpr_follows rfl hspan Grip.firm_elim
    by_cases heof : k = .eof
    · -- Only the stub is left, and at the end of the text it is none.
      refine bind_known (fun form? _ => form? = none) (slacken (simpleForm_follows hg)) ?_ ?_
      · exact fun s form? s' _ hs hrun => simpleForm_eof (hs.2.trans heof) hrun
      · intro form? form?' hform
        cases form? with
        | none =>
          obtain rfl := Option.map_eq_none_iff.1 hform.symm
          exact hstub
        | some form => exact of_false fun _ hs => Option.some_ne_none form hs
    · refine of_token (bind (simpleForm_follows hg) fun form? form?' hform => ?_)
        fun s hs hkind => heof (hs.2.symm.trans hkind)
      cases form? with
      | none =>
        obtain rfl := Option.map_eq_none_iff.1 hform.symm
        exact hstub
      | some form =>
        obtain ⟨form', rfl, hform'⟩ := Option.map_eq_some_iff.1 hform.symm
        exact spanFrom_bind hstart fun _ _ hspan => newExpr_follows hform'.symm hspan id

end Parse

end FrontEnd
