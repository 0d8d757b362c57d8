import FrontEnd.Proofs.Following.Steps

/-!
# Paths, types and generic parameters side by side

The parsers of the nonterminals are assumed to follow each other; every parser built from them then
does so too. The half of a `>>` that closes an inner list is part of the state on both sides.
-/

namespace FrontEnd

/-- How much is known after a nonterminal at the end of the left text: lists of statements and
members may end there, an expression may end with a condition. -/
def Nonterminal.grip (K : Comparison) : {c : Category} → Nonterminal c → Node c → Grip
  | _, .stmts, _ => .slack
  | _, .members _, _ => .slack
  | _, .type, _ => .firm
  | _, _, n => K.behind n

/-- Statements and members stand between braces. -/
def Nonterminal.view (K : Comparison) : {c : Category} → Nonterminal c → Comparison
  | _, .stmts => K.inside
  | _, .members _ => K.inside
  | _, _ => K

/-- The parsers of all nonterminals on the right follow those on the left. -/
def GrammarFollows (K : Comparison) (g g' : Grammar) : Prop :=
  ∀ {c : Category} (x : Nonterminal c),
    FollowsTo (x.view K) 0 .slack (x.grip K) x.Expected (g x) (g' x)

/-- They do so between braces. -/
theorem GrammarFollows.inside {K : Comparison} {g g' : Grammar} (hg : GrammarFollows K g g') :
    GrammarFollows K.inside g g'
  | _, .expr => (hg .expr).inside
  | _, .power => (hg .power).inside
  | _, .operand => (hg .operand).inside
  | _, .cond => (hg .cond).inside
  | _, .type => (hg .type).inside
  | _, .stmts => (hg .stmts).inside
  | _, .members inClass => (hg (.members inClass)).inside

namespace Parse

open FollowsTo

variable {K : Comparison} {a : Grip} {pre : ParserState → Prop} {g g' : Grammar} {n m : Nat}

/-- An expression. -/
theorem exprCall_follows (hg : GrammarFollows K g g') :
    FollowsTo K 0 a K.behind pre (g .expr) (g' .expr) :=
  anywhere (of_slack (hg .expr))

/-- An operand. -/
theorem operandCall_follows (hg : GrammarFollows K g g') :
    FollowsTo K 0 a K.behind pre (g .operand) (g' .operand) :=
  anywhere (of_slack (hg .operand))

/-- A chain of powers. -/
theorem powerCall_follows (hg : GrammarFollows K g g') :
    FollowsTo K 0 a K.behind pre (g .power) (g' .power) :=
  anywhere (of_slack (hg .power))

/-- A condition, where its first word is at hand. -/
theorem condCall_follows (hg : GrammarFollows K g g')
    (hpre : ∀ s, pre s → Nonterminal.cond.Expected s) :
    FollowsTo K 0 a K.behind pre (g .cond) (g' .cond) :=
  mono (of_slack (hg .cond)) hpre

/-- A type. -/
theorem typeCall_follows (hg : GrammarFollows K g g') :
    Follows K 0 a .firm pre (g .type) (g' .type) :=
  anywhere (of_slack (hg .type))

/-- A block of statements. -/
theorem block_follows (hg : GrammarFollows K g g') :
    Follows K 0 a .firm pre (block g) (block g') := by
  refine expect_brace fun start start' hstart => ?_
  refine bind (hg .stmts) fun stmts stmts' hstmts => ?_
  refine bind_leave (closeStrict_follows rfl) fun _ _ _ => ?_
  refine bind freshId_follows fun id id' hid => spanFrom_bind hstart fun span span' hspan => ?_
  exact result (congr (congrArg Node.block (congr (congrArg Origin.mk hid) hspan)) hstmts :)

/-- What a closing angle bracket depends on. -/
theorem closeAngle_eq : closeAngle =
    ((fun s : ParserState => (s.kind, s.halfShift)) <$> get) >>= fun v =>
      if v.1 = .symbol .rAngle then advance
      else if v.1 = .symbol .shr then
        if v.2 then modify ({ · with halfShift := false }) >>= fun _ => advance
        else modify ({ · with halfShift := true })
      else failExpected "'>'" := rfl

/-- The use of half a `>>` is noted on both sides. -/
theorem setHalf_follows (half : Bool) (hkind : ∀ s, pre s → s.kind = .symbol .shr) :
    Follows K 0 a .firm pre (modify fun s => { s with halfShift := half })
      (modify fun s => { s with halfShift := half }) := by
  refine update (fun s eof hs => ?_) fun _ _ hlinked _ _ _ _ =>
    Or.inr (Or.inr (K.setHalf half hlinked))
  refine ⟨⟨rfl, List.suffix_refl _, List.prefix_refl _⟩, rfl, rfl, fun hnil => ?_⟩
  exact absurd ((ParserState.kind_of_rest_nil eof hnil).symm.trans (hkind s hs)) (by simp)

/-- One closing angle bracket, or half of one token that is two of them. -/
theorem closeAngle_follows : Follows K 0 a .firm pre closeAngle closeAngle := by
  rw [closeAngle_eq]
  refine of_slack (peek _ (fun s t hlinked _ hgrip => ?_) fun v w hvw => ?_)
  · exact Likeness.Alike.pair (hlinked.kind (hgrip rfl)).symm (K.half hlinked).symm
  · obtain rfl : v = w := hvw
    have hkind : ∀ s, pre s ∧ (s.kind, s.halfShift) = v → s.kind = v.1 :=
      fun s hs => congrArg Prod.fst hs.2
    refine ite (fun h => ?_) fun _ => ite (fun h => ite (fun _ => ?_) fun _ => ?_)
      fun _ => failExpected_follows
    · refine advance_follows fun s hs => ?_
      rw [hkind s hs, h]
      decide
    · refine bind_known (fun _ s => s.kind = .symbol .shr)
        (setHalf_follows false fun s hs => (hkind s hs).trans h) ?_ fun _ _ _ => ?_
      · rintro s _ _ - hs ⟨⟩
        exact (hkind s hs).trans h
      · exact advance_follows fun s hs => hs ▸ (by decide)
    · exact setHalf_follows true fun s hs => (hkind s hs).trans h

/-- Type arguments between angle brackets. -/
theorem typeArgs_follows (hg : GrammarFollows K g g') (hnm : K.Bounds n m) :
    Follows K 0 a .firm pre (typeArgs n g) (typeArgs m g') := by
  refine bind (discard (expectSymbol_follows (by decide))) fun _ _ _ => ?_
  refine bind skipNewlines_follows fun _ _ _ => ?_
  refine bind (commaList_follows skipNewlines_follows (typeCall_follows hg) hnm false)
    fun r r' hr => ?_
  exact bind closeAngle_follows fun _ _ _ => result hr.fst

/-- The segments of a path. -/
theorem segments_follows (hg : GrammarFollows K g g') {bound bound' : Nat}
    (hbound : K.Bounds bound bound') (inType : Bool) (hnm : K.Bounds n m) :
    Follows K 0 a .firm pre (segments bound g inType n) (segments bound' g' inType m) := by
  refine of_slack ?_
  induction n generalizing m pre with
  | zero => exact stalled_follows (q := segments bound' g' inType) rfl hnm
  | succ n ih =>
    obtain ⟨m, rfl, hbounds⟩ := K.bounds_succ hnm
    unfold segments
    refine bind expectIdent_follows fun ident ident' hident => ?_
    refine atSymbol_bind fun angle => ?_
    extract_lets after after'
    have hafter {direct direct' : List TypeExpr} (hdirect : K.like.Alike direct direct') :
        Follows K 0 .firm .firm (fun _ => True) (after direct) (after' direct') := by
      refine bind (acceptSymbol_follows (by decide)) fun more _ hmore => ?_
      obtain rfl := hmore
      refine ite (fun _ => ?_) fun _ => ?_
      · have hsegment : K.like.Alike (Node.segment ident (.ofList direct))
            (Node.segment ident' (.ofList direct')) :=
          (congr (congrArg Node.segment hident) hdirect.ofList :)
        exact result (hsegment.cons Likeness.alike_nil)
      · refine atSymbol_bind fun angle' => ite (fun _ => ?_) fun _ => ?_
        · refine bind (typeArgs_follows hg hbound) fun args args' hargs => ?_
          have hsegment : K.like.Alike (Node.segment ident (.ofList args))
              (Node.segment ident' (.ofList args')) :=
            (congr (congrArg Node.segment hident) hargs.ofList :)
          refine bind (acceptSymbol_follows (by decide)) fun more' _ hmore' => ?_
          obtain rfl := hmore'
          refine ite (fun _ => ?_) fun _ => result (hsegment.cons Likeness.alike_nil)
          exact bind (of_slack (ih hbounds)) fun _ _ hnames => result (hsegment.cons hnames)
        · have hsegment : K.like.Alike (Node.segment ident (.ofList direct))
              (Node.segment ident' (.ofList direct')) :=
            (congr (congrArg Node.segment hident) hdirect.ofList :)
          exact bind (of_slack (ih hbounds)) fun _ _ hnames => result (hsegment.cons hnames)
    refine ite (fun _ => ?_) fun _ => (hafter Likeness.alike_nil).anywhere
    exact bind (typeArgs_follows hg hbound) fun _ _ hdirect => hafter hdirect

/-- A path of names. -/
theorem path_follows (hg : GrammarFollows K g g') (hnm : K.Bounds n m) (inType : Bool) :
    Follows K 0 a .firm pre (path n g inType) (path m g' inType) := by
  refine of_slack (here_bind fun start start' hstart => ?_)
  refine bind (acceptSymbol_follows (by decide)) fun global _ hglobal => ?_
  obtain rfl := hglobal
  refine bind (segments_follows hg hnm inType hnm) fun names names' hnames => ?_
  refine spanFrom_bind hstart fun span span' hspan => result ?_
  have hparts := congr (congrArg (Node.path global) hnames.ofList) hspan
  exact (congrFun hparts Slot.empty :)

/-- What types between parentheses form. -/
theorem alike_parenForm {l : Likeness} {items items' : List TypeExpr}
    (h : l.Alike items items') (trailing : Bool) :
    l.Alike (parenForm items trailing) (parenForm items' trailing) := by
  cases items with
  | nil =>
    obtain rfl : items' = [] := List.map_eq_nil_iff.1 h.symm
    rfl
  | cons x xs =>
    obtain ⟨y, ys, rfl, hx, hxs⟩ := List.map_eq_cons_iff.1 h.symm
    have htuple : l.Alike (Node.tupleType (.ofList (x :: xs))) (.tupleType (.ofList (y :: ys))) :=
      (congrArg Node.tupleType (Likeness.Alike.ofList h) :)
    cases xs with
    | nil =>
      obtain rfl : ys = [] := List.map_eq_nil_iff.1 hxs
      cases trailing with
      | true => exact htuple
      | false => exact (congrArg Node.parenType hx.symm :)
    | cons x' xs =>
      obtain ⟨y', ys, rfl, -, -⟩ := List.map_eq_cons_iff.1 hxs
      exact htuple

/-- A type in parentheses, a tuple of types or the type of functions. -/
theorem parenType_follows (hg : GrammarFollows K g g') (hnm : K.Bounds n m)
    (hpre : ∀ s, pre s → s.kind = .symbol .lParen) :
    Follows K 0 a .firm pre (parenType n g) (parenType m g') := by
  refine of_slack (here_bind fun start start' hstart => ?_)
  refine enter_bind (fun s hs => by rw [hpre s hs]; exact ⟨rfl, fun _ => rfl⟩) ?_
  refine bind (commaList_follows (result rfl) (typeCall_follows hg) hnm false)
    fun r r' hr => ?_
  refine bind_leave (close_follows rfl fun _ => K.gaps (Or.inl rfl)) fun closed _ hclosed => ?_
  obtain rfl := hclosed
  refine ite (fun _ => newType_follows rfl hstart) fun _ => ?_
  refine bind (acceptSymbol_follows (by decide)) fun arrow _ harrow => ?_
  obtain rfl := harrow
  refine ite (fun _ => ?_) fun _ => ?_
  · refine bind (typeCall_follows hg) fun t t' ht => newType_follows ?_ ?_
    · exact (congr (congrArg Node.funcType hr.fst.ofList) ht :)
    · exact K.like.cover hstart ht.typeSpan
  · refine spanFrom_bind hstart fun span span' hspan => newType_follows ?_ hspan
    rw [← show r.2 = r'.2 from hr.snd]
    exact alike_parenForm hr.fst r.2

/-- An array or a slice. -/
theorem bracketType_follows (hg : GrammarFollows K g g')
    (hpre : ∀ s, pre s → s.kind = .symbol .lBracket) :
    Follows K 0 a .firm pre (bracketType g) (bracketType g') := by
  refine of_slack (here_bind fun start start' hstart => ?_)
  refine enter_bind (fun s hs => by rw [hpre s hs]; exact ⟨rfl, fun _ => rfl⟩) ?_
  refine bind (typeCall_follows hg) fun item item' hitem => ?_
  refine bind (acceptSymbol_follows (by decide)) fun sized _ hsized => ?_
  obtain rfl := hsized
  extract_lets after after'
  have hafter {a : Grip} {form form' : TypeForm} (hform : K.like.Alike form form') :
      Follows K 1 a .firm (fun _ => True) (after form) (after' form') := by
    refine bind_leave (close_follows rfl fun _ => K.gaps (Or.inl rfl)) fun closed _ hclosed => ?_
    obtain rfl := hclosed
    refine ite (fun _ => newType_follows rfl hstart) fun _ => ?_
    exact spanFrom_bind hstart fun _ _ hspan => newType_follows hform hspan
  refine ite (fun _ => ?_) fun _ => hafter (congrArg Node.sliceType hitem :)
  refine bind (exprCall_follows hg) fun size size' hsize => ?_
  exact hafter (congr (congrArg Node.arrayType hitem) hsize :)

/-- A type. -/
theorem type_follows (hg : GrammarFollows K g g') (hnm : K.Bounds n m) :
    Follows K 0 a .firm pre (type n g) (type m g') := by
  have of_path : Follows K 0 .slack .firm (fun _ => True)
      (path n g true >>= fun p => newType (.pathType p) p.pathSpan)
      (path m g' true >>= fun p => newType (.pathType p) p.pathSpan) :=
    bind (path_follows hg hnm true) fun p p' hp =>
      newType_follows (congrArg Node.pathType hp :) hp.pathSpan
  refine of_slack (kind_bind (fun k => ?_) (by simp))
  split
  · exact of_path.anywhere
  · exact of_path.anywhere
  · exact parenType_follows hg hnm fun s hs => hs.2
  · exact bracketType_follows hg fun s hs => hs.2
  · exact reportExpected_here_bind (fun _ => K.gaps (Or.inl rfl)) fun _ _ hspan =>
      newType_follows rfl hspan

/-- A type after a colon, if there is one. -/
theorem typeAfterColon_follows (hg : GrammarFollows K g g') :
    Follows K 0 a a pre (typeAfterColon? g) (typeAfterColon? g') := by
  refine of_firm (bind (acceptSymbol_follows (by decide)) fun found _ hfound => ?_)
  obtain rfl := hfound
  refine ite (fun _ => ?_) fun _ => result rfl
  exact bind (typeCall_follows hg) fun t t' ht => result (congrArg Node.present ht :)

/-- A value after an equality sign, if there is one. -/
theorem defaultValue_follows (hg : GrammarFollows K g g') :
    Follows K 0 .firm K.tail pre (defaultValue? g) (defaultValue? g') := by
  refine bind (acceptSymbol_follows (by decide)) fun found _ hfound => ?_
  obtain rfl := hfound
  refine ite (fun _ => ?_) fun _ => result_firm rfl
  exact bind (exprCall_follows hg) fun e e' he =>
    result_to (congrArg Node.present he :) Comparison.gripOf_tail

/-- Name and form of a generic parameter. -/
theorem genericForm_follows (hg : GrammarFollows K g g') :
    Follows K 0 a K.tail pre (genericForm g) (genericForm g') := by
  refine of_slack (current_bind (fun x y hxy => ?_) (by simp))
  obtain ⟨kind, span⟩ := x
  obtain ⟨kind', span'⟩ := y
  obtain rfl : kind = kind' := hxy.kind
  have hspan : K.like.Alike span span' := hxy.span
  cases kind with
  | lifetime name =>
    refine bind (advance_follows fun s hs => ?_) fun _ _ _ => result_firm ?_
    · unfold ParserState.kind
      rw [hs.2]
      exact ⟨rfl, rfl, (by simp)⟩
    · have hname : K.like.Alike (Ident.mk name span) ⟨name, span'⟩ :=
        (congrArg (Ident.mk name) hspan :)
      exact hname.pair rfl
  | _ =>
    refine bind (accept_follows (by decide)) fun isConst _ hconst => ?_
    obtain rfl := hconst
    refine ite (fun _ => ?_) fun _ => ?_
    · refine bind expectIdent_follows fun name name' hname => ?_
      refine bind (discard (expectSymbol_follows (by decide))) fun _ _ _ => ?_
      refine bind (typeCall_follows hg) fun t t' ht => ?_
      refine bind (defaultValue_follows hg) fun value value' hvalue => result (hname.pair ?_)
      exact (congr (congrArg Node.constGeneric ht) hvalue :)
    · refine bind expectIdent_follows fun name name' hname => ?_
      refine bind (typeAfterColon_follows hg) fun bound bound' hbound =>
        result_firm (hname.pair ?_)
      exact (congrArg Node.typeGeneric hbound :)

/-- A generic parameter. -/
theorem generic_follows (hg : GrammarFollows K g g') :
    Follows K 0 a K.tail pre (generic g) (generic g') := by
  refine of_slack (here_bind fun start start' hstart => ?_)
  refine bind (genericForm_follows hg) fun r r' hr => ?_
  refine spanFrom_bind hstart fun span span' hspan => ?_
  refine bind (origin_follows hspan) fun o o' ho => result ?_
  exact (congr (congr (congrArg Node.generic ho) hr.fst) hr.snd :)

/-- Generic parameters between angle brackets, if there are any. -/
theorem generics_follows (hg : GrammarFollows K g g') (hnm : K.Bounds n m) :
    Follows K 0 a a pre (generics n g) (generics m g') := by
  refine of_firm (bind (acceptSymbol_follows (by decide)) fun found _ hfound => ?_)
  obtain rfl := hfound
  refine ite (fun _ => result rfl) fun _ => ?_
  refine bind skipNewlines_follows fun _ _ _ => ?_
  refine bind (commaList_follows skipNewlines_follows (generic_follows hg) hnm false)
    fun r r' hr => ?_
  exact bind closeAngle_follows fun _ _ _ => result hr.fst.ofList

end Parse

end FrontEnd
