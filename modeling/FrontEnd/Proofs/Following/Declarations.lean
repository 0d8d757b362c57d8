import FrontEnd.Proofs.Following.Operators

/-!
# Declarations and statements side by side

Lists of members and statements read one element after the other, each with its terminator, and
go on after errors; at the end of the left text their grip is slack. With them every nonterminal of
the grammar follows its counterpart, by induction on the bound of the left parsers.
-/

namespace FrontEnd

/-- Modifiers have neither numbers nor places. -/
theorem Likeness.alike_modifiers {l : Likeness} {xs ys : List Modifier} :
    l.Alike xs ys ↔ xs = ys := by
  change xs.map id = ys.map id ↔ xs = ys
  rw [List.map_id, List.map_id]

/-- The token of a modifier stands inside its group. -/
theorem Modifier.inner_of_ofToken {k : TokenKind} {m : Modifier}
    (h : Modifier.ofToken? k = some m) : k.Inner := by
  unfold Modifier.ofToken? at h
  split at h
  all_goals first | exact ⟨rfl, rfl, (by simp)⟩ | cases h

/-- So does the token of a variable. -/
theorem VarKind.inner_of_ofToken {k : TokenKind} {kind : VarKind}
    (h : VarKind.ofToken? k = some kind) : k.Inner := by
  unfold VarKind.ofToken? at h
  split at h
  all_goals first | exact ⟨rfl, rfl, (by simp)⟩ | cases h

namespace Parse

open FollowsTo

variable {K : Comparison} {a : Grip} {pre : ParserState → Prop} {g g' : Grammar} {n m : Nat}

/-- An attribute. -/
theorem attr_follows (hg : GrammarFollows K g g') (hnm : K.Bounds n m)
    (hpre : ∀ s, pre s → s.kind = .symbol .at_) :
    Follows K 0 a .firm pre (attr n g) (attr m g') := by
  refine of_slack (here_bind fun start start' hstart => ?_)
  refine bind (advance_follows fun s hs => hpre s hs ▸ (by decide)) fun _ _ _ => ?_
  refine bind expectIdent_follows fun name name' hname => ?_
  extract_lets after after'
  have hafter {args args' : Node (.many .argument)} (hargs : K.like.Alike args args') :
      Follows K 0 .firm .firm (fun _ => True) (after args) (after' args') := by
    refine spanFrom_bind hstart fun span span' hspan => result ?_
    exact (congr (congr (congrArg Node.attr hname) hargs) hspan :)
  have hnone : K.like.Alike (.nil : Node (.many .argument)) .nil := rfl
  unfold acceptSymbol
  rw [accept_bind_eq, accept_bind_eq]
  refine atSymbol_bind fun found => FollowsTo.ite (fun h => ?_) fun _ => (hafter hnone).anywhere
  refine enter_bind (fun s hs => ?_) ?_
  · rw [eq_of_beq (hs.2.trans h)]
    exact ⟨rfl, fun _ => rfl⟩
  · refine bind (arguments_follows hg hnm) fun args args' hargs => ?_
    exact bind_leave (closeStrict_follows rfl) fun _ _ _ => hafter hargs

/-- The attributes in front of a declaration. -/
theorem attrs_follows (hg : GrammarFollows K g g') {bound bound' : Nat}
    (hbound : K.Bounds bound bound')
    (hnm : K.Bounds n m) : Follows K 0 a .slack pre (attrs bound g n) (attrs bound' g' m) := by
  refine of_slack ?_
  induction n generalizing m pre with
  | zero => exact stalled_follows (q := attrs bound' g') rfl hnm
  | succ n ih =>
    obtain ⟨m, rfl, hbounds⟩ := K.bounds_succ hnm
    unfold attrs
    refine atSymbol_bind fun found => ite (fun _ => result rfl) fun h => ?_
    refine bind (attr_follows hg hbound fun s hs => ?_) fun x x' hx => ?_
    · exact eq_of_beq (hs.2.trans (by simpa using h))
    · refine bind skipTerminators_follows fun _ _ _ => ?_
      exact bind (ih hbounds) fun xs xs' hxs => result (hx.cons hxs)

/-- The modifiers in front of a declaration. -/
theorem modifiers_follows (hnm : K.Bounds n m) :
    Follows K 0 a a pre (modifiers n) (modifiers m) := by
  refine of_firm ?_
  induction n generalizing m pre with
  | zero => exact stalled_follows rfl hnm
  | succ n ih =>
    obtain ⟨m, rfl, hbounds⟩ := K.bounds_succ hnm
    unfold modifiers
    refine kind_bind (fun k => ?_) fun _ => result rfl
    split
    · rename_i word hword
      refine bind (advance_follows fun s hs => hs.2 ▸ Modifier.inner_of_ofToken hword)
        fun _ _ _ => ?_
      refine bind (ih hbounds) fun words words' hwords => result ?_
      exact Likeness.Alike.cons rfl hwords
    · exact result rfl

/-- A parameter of a function. -/
theorem param_follows (hg : GrammarFollows K g g') :
    Follows K 0 a K.tail pre (param g) (param g') := by
  refine of_slack (here_bind fun start start' hstart => ?_)
  refine bind expectIdent_follows fun name name' hname => ?_
  refine bind (discard (expectSymbol_follows (by decide))) fun _ _ _ => ?_
  refine bind (typeCall_follows hg) fun t t' ht => ?_
  refine bind (defaultValue_follows hg) fun default default' hdefault => ?_
  refine spanFrom_bind hstart fun span span' hspan => ?_
  refine bind (origin_follows hspan) fun o o' ho => result ?_
  exact (congr (congr (congr (congrArg Node.param ho) hname) ht) hdefault :)

/-- The parameters of a function between parentheses. -/
theorem params_follows (hg : GrammarFollows K g g') (hnm : K.Bounds n m) :
    Follows K 0 a .firm pre (params n g) (params m g') := by
  rw [params, params, discard_expect_bind, discard_expect_bind]
  refine expect_enter rfl (fun _ => rfl) fun _ _ _ => ?_
  refine bind (commaListTo_follows (param_follows hg) hnm) fun ps ps' hps => ?_
  exact bind_leave (closeStrict_follows rfl) fun _ _ _ => result hps.ofList

/-- The body of a function, if it has one. -/
theorem funcBody_follows (hg : GrammarFollows K g g') :
    Follows K 0 .firm K.tail pre (funcBody? g) (funcBody? g') := by
  refine kind_bind (fun k => ?_) fun _ => result_firm rfl
  split
  · refine bind (block_follows hg) fun body body' hbody => result_firm ?_
    exact (congrArg (Node.present ∘ Node.blockBody) hbody :)
  · refine bind (advance_follows fun s hs => hs.2 ▸ (by decide)) fun _ _ _ => ?_
    refine bind skipNewlines_follows fun _ _ _ => ?_
    refine bind (exprCall_follows hg) fun e e' he => result_to ?_ Comparison.gripOf_tail
    exact (congrArg (Node.present ∘ Node.exprBody) he :)
  · exact result_firm rfl

/-- A function. -/
theorem func_follows (hg : GrammarFollows K g g') (hnm : K.Bounds n m) :
    Follows K 0 a K.tail pre (func n g) (func m g') := by
  refine bind (discard expectKeyword_follows) fun _ _ _ => ?_
  refine bind expectIdent_follows fun name name' hname => ?_
  refine bind (generics_follows hg hnm) fun generics generics' hgenerics => ?_
  refine bind (params_follows hg hnm) fun params params' hparams => ?_
  refine bind (typeAfterColon_follows hg) fun result' result'' hresult => ?_
  refine bind (funcBody_follows hg) fun body body' hbody => result ?_
  exact (congr (congr (congr (congr (congrArg Node.funcItem hname) hgenerics) hparams) hresult)
    hbody :)

/-- Supertypes. -/
theorem superTypes_follows (hg : GrammarFollows K g g') (hnm : K.Bounds n m) :
    Follows K 0 a .firm pre (superTypes g n) (superTypes g' m) := by
  refine of_slack ?_
  induction n generalizing m pre with
  | zero => exact stalled_follows rfl hnm
  | succ n ih =>
    obtain ⟨m, rfl, hbounds⟩ := K.bounds_succ hnm
    unfold superTypes
    refine bind skipNewlines_follows fun _ _ _ => ?_
    refine bind (typeCall_follows hg) fun t t' ht => ?_
    refine bind (acceptSymbol_follows (by decide)) fun more _ hmore => ?_
    obtain rfl := hmore
    refine ite (fun _ => result (ht.cons Likeness.alike_nil)) fun _ => ?_
    exact bind (of_slack (ih hbounds)) fun ts ts' hts => result (ht.cons hts)

/-- Supertypes behind a colon, if there are any. -/
theorem supers_follows (hg : GrammarFollows K g g') (hnm : K.Bounds n m) :
    Follows K 0 a a pre (supers n g) (supers m g') := by
  refine of_firm (bind (acceptSymbol_follows (by decide)) fun found _ hfound => ?_)
  obtain rfl := hfound
  refine ite (fun _ => result rfl) fun _ => ?_
  exact bind (superTypes_follows hg hnm) fun ts ts' hts => result hts.ofList

/-- Members between braces. -/
theorem memberBlock_follows (hg : GrammarFollows K g g') (inClass : Bool) :
    Follows K 0 a .firm pre (memberBlock g inClass) (memberBlock g' inClass) := by
  rw [memberBlock, memberBlock, discard_expect_bind, discard_expect_bind]
  refine expect_brace fun _ _ _ => ?_
  refine bind (hg (.members inClass)) fun members members' hmembers => ?_
  exact bind_leave (closeStrict_follows rfl) fun _ _ _ => result hmembers

/-- A class or struct. -/
theorem classDecl_follows (hg : GrammarFollows K g g') (hnm : K.Bounds n m)
    (hpre : ∀ s, pre s → s.kind = .keyword .class_ ∨ s.kind = .keyword .struct) :
    Follows K 0 a .firm pre (classDecl n g) (classDecl m g') := by
  refine of_slack (at_bind (fun _ => rfl) fun isStruct => ?_)
  refine bind (advance_follows fun s hs => ?_) fun _ _ _ => ?_
  · rcases hpre s hs.1 with h | h
    · exact h ▸ (by decide)
    · exact h ▸ (by decide)
  refine bind expectIdent_follows fun name name' hname => ?_
  refine bind (generics_follows hg hnm) fun generics generics' hgenerics => ?_
  extract_lets after after'
  have hafter {supers supers' : Node (.many .type)} (hsupers : K.like.Alike supers supers') :
      Follows K 0 .firm .firm (fun _ => True) (after supers) (after' supers') := by
    refine bind (memberBlock_follows hg true) fun members members' hmembers => result ?_
    exact (congr (congr (congr (congrArg (Node.classItem isStruct) hname) hgenerics) hsupers)
      hmembers :)
  refine ite (fun _ => hafter rfl) fun _ => ?_
  exact bind (supers_follows hg hnm) fun _ _ hsupers => hafter hsupers

/-- A trait. -/
theorem traitDecl_follows (hg : GrammarFollows K g g') (hnm : K.Bounds n m) :
    Follows K 0 a .firm pre (traitDecl n g) (traitDecl m g') := by
  refine bind (discard expectKeyword_follows) fun _ _ _ => ?_
  refine bind expectIdent_follows fun name name' hname => ?_
  refine bind (generics_follows hg hnm) fun generics generics' hgenerics => ?_
  refine bind (supers_follows hg hnm) fun supers supers' hsupers => ?_
  refine bind (memberBlock_follows hg false) fun members members' hmembers => result ?_
  exact (congr (congr (congr (congrArg Node.traitItem hname) hgenerics) hsupers) hmembers :)

/-- An object. -/
theorem objectDecl_follows (hg : GrammarFollows K g g') (hnm : K.Bounds n m) :
    Follows K 0 a .firm pre (objectDecl n g) (objectDecl m g') := by
  refine bind (discard expectKeyword_follows) fun _ _ _ => ?_
  refine bind expectIdent_follows fun name name' hname => ?_
  refine bind (supers_follows hg hnm) fun supers supers' hsupers => ?_
  refine bind (memberBlock_follows hg false) fun members members' hmembers => result ?_
  exact (congr (congr (congrArg Node.objectItem hname) hsupers) hmembers :)

/-- A second name for a type. -/
theorem aliasDecl_follows (hg : GrammarFollows K g g') (hnm : K.Bounds n m) :
    Follows K 0 a .firm pre (aliasDecl n g) (aliasDecl m g') := by
  refine bind (discard expectKeyword_follows) fun _ _ _ => ?_
  refine bind expectIdent_follows fun name name' hname => ?_
  refine bind (generics_follows hg hnm) fun generics generics' hgenerics => ?_
  refine bind (discard (expectSymbol_follows (by decide))) fun _ _ _ => ?_
  refine bind skipNewlines_follows fun _ _ _ => ?_
  refine bind (typeCall_follows hg) fun t t' ht => result ?_
  exact (congr (congr (congrArg Node.aliasItem hname) hgenerics) ht :)

/-- A constructor. -/
theorem initDecl_follows (hg : GrammarFollows K g g') (hnm : K.Bounds n m) :
    Follows K 0 a .firm pre (initDecl n g) (initDecl m g') := by
  refine bind (discard expectKeyword_follows) fun _ _ _ => ?_
  refine bind (params_follows hg hnm) fun params params' hparams => ?_
  refine bind (block_follows hg) fun body body' hbody => result ?_
  exact (congr (congrArg Node.initItem hparams) hbody :)

/-- A named value of an entry of an enumeration. -/
theorem entryField_follows (hg : GrammarFollows K g g') :
    Follows K 0 a .firm pre (entryField g) (entryField g') := by
  refine bind expectIdent_follows fun name name' hname => ?_
  refine bind (discard (expectSymbol_follows (by decide))) fun _ _ _ => ?_
  refine bind (typeCall_follows hg) fun t t' ht => result ?_
  exact (congr (congrArg Node.entryField hname) ht :)

/-- What an entry of an enumeration holds. -/
theorem enumEntryForm_follows (hg : GrammarFollows K g g') (hnm : K.Bounds n m) :
    Follows K 0 .firm K.tail pre (enumEntryForm n g) (enumEntryForm m g') := by
  refine kind_bind (fun k => ?_) fun _ => result_firm rfl
  split
  · refine bind (advance_follows fun s hs => hs.2 ▸ (by decide)) fun _ _ _ => ?_
    refine bind (exprCall_follows hg) fun value value' hvalue =>
      result_to ?_ Comparison.gripOf_tail
    exact (congrArg Node.valueEntry hvalue :)
  · refine enter_bind (fun s hs => by rw [hs.2]; exact ⟨rfl, fun _ => rfl⟩) ?_
    refine bind (commaListTo_follows (typeCall_follows hg) hnm) fun types types' htypes => ?_
    refine bind_leave (closeStrict_follows rfl) fun _ _ _ => result_firm ?_
    exact (congrArg Node.tupleEntry htypes.ofList :)
  · refine enter_brace (fun s hs => hs.2) ?_
    refine bind (commaListTo_follows (entryField_follows hg.inside) hnm)
      fun fields fields' hfields => ?_
    refine bind_leave (closeStrict_follows rfl) fun _ _ _ => result_firm ?_
    exact (congrArg Node.structEntry hfields.ofList :)
  · exact result_firm rfl

/-- An entry of an enumeration. -/
theorem enumEntry_follows (hg : GrammarFollows K g g') (hnm : K.Bounds n m) :
    Follows K 0 a K.tail pre (enumEntry n g) (enumEntry m g') := by
  refine of_slack (here_bind fun start start' hstart => ?_)
  refine bind expectIdent_follows fun name name' hname => ?_
  refine bind (enumEntryForm_follows hg hnm) fun form form' hform => ?_
  refine spanFrom_bind hstart fun span span' hspan => ?_
  refine bind (origin_follows hspan) fun o o' ho => result ?_
  exact (congr (congr (congrArg Node.enumEntry ho) hname) hform :)

/-- The entries of an enumeration. -/
theorem enumEntries_follows (hg : GrammarFollows K g g') {bound bound' : Nat}
    (hbound : K.Bounds bound bound') (hnm : K.Bounds n m) :
    Follows K 0 a .slack pre (enumEntries bound g n) (enumEntries bound' g' m) := by
  have hskip : Follows K 0 .slack .slack (fun _ => True)
      (modify (ParserState.skipWhile separatesEntries))
      (modify (ParserState.skipWhile separatesEntries)) := by
    refine skipWhile_follows rfl fun k hk => ?_
    rcases of_decide_eq_true hk with rfl | rfl <;> exact ⟨rfl, rfl⟩
  refine of_slack ?_
  induction n generalizing m pre with
  | zero => exact stalled_follows (q := enumEntries bound' g') rfl hnm
  | succ n ih =>
    obtain ⟨m, rfl, hbounds⟩ := K.bounds_succ hnm
    unfold enumEntries
    refine kind_bind (fun k => ite (fun _ => result rfl) fun _ => ?_) (by simp)
    refine bind (slacken (enumEntry_follows (a := .slack) hg hbound)) fun entry entry' hentry => ?_
    refine kind_bind (fun k => ite (fun _ => ?_) fun _ => ?_) (by simp)
    · exact result (hentry.cons Likeness.alike_nil)
    · refine bind hskip.anywhere fun _ _ _ => ?_
      exact bind (ih hbounds) fun entries entries' hentries => result (hentry.cons hentries)

/-- The group of an enumeration may be closed before or after the last terminators. -/
theorem closeGroup_skipTerminators {β : Type} (f : Parser β) :
    (closeGroup >>= fun _ => skipTerminators >>= fun _ =>
        discard (expectSymbol .rBrace) >>= fun _ => f) =
      skipTerminators >>= fun _ => closeStrict .rBrace >>= fun _ => f := by
  have hcommute (p : TokenKind → Bool) (s : ParserState) :
      s.closeGroup.skipWhile p = (s.skipWhile p).closeGroup := by
    obtain ⟨_, _, _, groups, _⟩ := s
    cases groups <;> rfl
  funext s
  change EStateM.bind (discard (expectSymbol .rBrace)) _ (s.closeGroup.skipWhile _) =
    EStateM.bind (discard (expectSymbol .rBrace)) _ (s.skipWhile _).closeGroup
  rw [hcommute]

/-- An enumeration. -/
theorem enumDecl_follows (hg : GrammarFollows K g g') (hnm : K.Bounds n m) :
    Follows K 0 a .firm pre (enumDecl n g) (enumDecl m g') := by
  refine bind (discard expectKeyword_follows) fun _ _ _ => ?_
  refine bind expectIdent_follows fun name name' hname => ?_
  refine bind (generics_follows hg hnm) fun generics generics' hgenerics => ?_
  rw [discard_expect_bind, discard_expect_bind]
  refine expect_brace fun _ _ _ => ?_
  refine bind skipSeparators_follows fun _ _ _ => ?_
  refine bind (enumEntries_follows hg.inside hnm hnm) fun entries entries' hentries => ?_
  refine bind (acceptSymbol_follows (by decide)) fun found _ hfound => ?_
  obtain rfl := hfound
  extract_lets after after'
  have hafter {members members' : Node (.many .item)} (hmembers : K.like.Alike members members') :
      Follows K.inside 1 .slack .firm (fun _ => True) (after members) (after' members') := by
    change Follows K.inside 1 _ _ _ (closeGroup >>= fun _ => skipTerminators >>= fun _ =>
        discard (expectSymbol .rBrace) >>= fun _ => _)
      (closeGroup >>= fun _ => skipTerminators >>= fun _ =>
        discard (expectSymbol .rBrace) >>= fun _ => _)
    rw [closeGroup_skipTerminators, closeGroup_skipTerminators]
    refine bind skipTerminators_follows fun _ _ _ => ?_
    refine bind_leave (closeStrict_follows rfl) fun _ _ _ => result ?_
    exact (congr (congr (congr (congrArg Node.enumItem hname) hgenerics) hentries.ofList)
      hmembers :)
  refine ite (fun _ => ?_) fun _ => hafter rfl
  exact bind (hg (.members false)) fun _ _ hmembers => hafter hmembers

/-- The declaration after attributes and modifiers. -/
theorem itemForm_follows (hg : GrammarFollows K g g') (hnm : K.Bounds n m) (inClass : Bool) :
    Follows K 0 a K.tail pre (itemForm n g inClass) (itemForm m g' inClass) := by
  refine of_slack (kind_bind (fun k => ?_) (by simp))
  split
  · exact func_follows hg hnm
  · exact loosen (classDecl_follows hg hnm fun _ hs => Or.inl hs.2) fun _ => Grip.firm_elim
  · exact loosen (classDecl_follows hg hnm fun _ hs => Or.inr hs.2) fun _ => Grip.firm_elim
  · exact loosen (enumDecl_follows hg hnm) fun _ => Grip.firm_elim
  · exact loosen (traitDecl_follows hg hnm) fun _ => Grip.firm_elim
  · exact loosen (aliasDecl_follows hg hnm) fun _ => Grip.firm_elim
  · exact loosen (objectDecl_follows hg hnm) fun _ => Grip.firm_elim
  · refine loosen (ite (fun _ => ?_) fun _ => initDecl_follows hg hnm) fun _ => Grip.firm_elim
    refine here_bind fun span span' hspan => ?_
    exact bind (record_follows (K.gaps (Or.inl rfl)) hspan) fun _ _ _ => initDecl_follows hg hnm
  · exact failExpected_follows

/-- A declaration behind attributes and modifiers that were read before. -/
theorem itemAfter_follows (hg : GrammarFollows K g g') (hnm : K.Bounds n m) (inClass : Bool)
    {start start' : Span} (hstart : K.like.Alike start start')
    {earlier earlier' : List (Node .attr)}
    (hearlier : K.like.Alike earlier earlier') (words : List Modifier) :
    Follows K 0 a K.tail pre (itemAfter n g inClass start earlier words)
      (itemAfter m g' inClass start' earlier' words) := by
  refine bind (attrs_follows hg hnm hnm) fun attrs attrs' hattrs => ?_
  refine bind (modifiers_follows hnm) fun words₂ words₂' hwords => ?_
  obtain rfl := Likeness.alike_modifiers.1 hwords
  refine bind (itemForm_follows hg hnm inClass) fun form form' hform => ?_
  refine bind freshId_follows fun id id' hid => ?_
  refine spanFrom_bind hstart fun span span' hspan => result ?_
  have horigin : K.like.Alike (Origin.mk id span) ⟨id', span'⟩ :=
    (congr (congrArg Origin.mk hid) hspan :)
  have hall := congr (congrArg Node.item horigin) (hearlier.append hattrs).ofList
  exact (congr (congrFun hall (words ++ words₂)) hform :)

/-- A declaration. -/
theorem item_follows (hg : GrammarFollows K g g') (hnm : K.Bounds n m) :
    Follows K 0 a K.tail pre (item n g) (item m g') :=
  of_slack (here_bind fun _ _ hstart =>
    itemAfter_follows hg hnm false hstart Likeness.alike_nil [])

/-- A field. -/
theorem field_follows (hg : GrammarFollows K g g') :
    Follows K 0 a K.tail pre (field g) (field g') := by
  refine of_slack (kind_bind (fun k => ?_) (by simp))
  extract_lets kind? after after'
  have hafter : Follows K 0 .slack K.tail (fun _ => True) (after ()) (after' ()) := by
    refine bind expectIdent_follows fun name name' hname => ?_
    refine bind (discard (expectSymbol_follows (by decide))) fun _ _ _ => ?_
    refine bind skipNewlines_follows fun _ _ _ => ?_
    refine bind (typeCall_follows hg) fun t t' ht => ?_
    refine bind (acceptSymbol_follows (by decide)) fun found _ hfound => ?_
    obtain rfl := hfound
    have hparts := congr (congrArg (Node.fieldItem kind?) hname) ht
    refine ite (fun _ => ?_) fun _ => result_firm (congrFun hparts .absent :)
    refine bind skipNewlines_follows fun _ _ _ => ?_
    refine bind (exprCall_follows hg) fun value value' hvalue =>
      result_to ?_ Comparison.gripOf_tail
    exact (congr hparts (congrArg Node.present hvalue) :)
  refine ite (fun h => ?_) fun _ => hafter.anywhere
  obtain ⟨word, hword⟩ := Option.isSome_iff_exists.1 h
  exact bind (advance_follows fun s hs => hs.2 ▸ VarKind.inner_of_ofToken hword)
    fun _ _ _ => of_slack hafter

/-- A field or declaration inside another declaration. -/
theorem member_follows (hg : GrammarFollows K g g') (hnm : K.Bounds n m) (inClass : Bool) :
    Follows K 0 a K.tail pre (member n g inClass) (member m g' inClass) := by
  refine of_slack (here_bind fun start start' hstart => ?_)
  refine bind (attrs_follows hg hnm hnm) fun attrs attrs' hattrs => ?_
  refine bind (modifiers_follows hnm) fun words words' hwords => ?_
  obtain rfl := Likeness.alike_modifiers.1 hwords
  refine kind_bind (fun k => ite (fun _ => ?_) fun _ => ?_) (by simp)
  · refine bind (field_follows hg) fun form form' hform => ?_
    refine spanFrom_bind hstart fun span span' hspan => ?_
    refine bind (origin_follows hspan) fun o o' ho => result ?_
    exact (congr (congrFun (congr (congrArg Node.item ho) hattrs.ofList) words) hform :)
  · exact itemAfter_follows hg hnm inClass hstart hattrs words

/-- Members up to a closing brace. -/
theorem memberList_follows (hbraces : K.braces) (hg : GrammarFollows K g g') {bound bound' : Nat}
    (hbound : K.Bounds bound bound') (inClass : Bool) (hnm : K.Bounds n m) :
    Follows K 0 a .slack pre (memberList bound g inClass n) (memberList bound' g' inClass m) := by
  refine of_slack ?_
  induction n generalizing m pre with
  | zero => exact stalled_follows (q := memberList bound' g' inClass) rfl hnm
  | succ n ih =>
    obtain ⟨m, rfl, hbounds⟩ := K.bounds_succ hnm
    unfold memberList
    refine atSymbol_bind fun closes => at_bind (fun _ => rfl) fun ends => ?_
    refine ite (fun _ => result rfl) fun _ => ?_
    refine bind (recovering_follows hbraces (member_follows hg hbound inClass)) fun x? x?' hx => ?_
    refine bind skipTerminators_follows fun _ _ _ => ?_
    refine bind (ih hbounds) fun xs xs' hxs => result (Likeness.Alike.append ?_ hxs)
    change x?.toList.map _ = x?'.toList.map _
    rw [← Option.toList_map, ← Option.toList_map]
    exact congrArg Option.toList hx

/-- Members up to a closing brace, after any terminators. -/
theorem members_follows (hbraces : K.braces) (hg : GrammarFollows K g g') (hnm : K.Bounds n m)
    (inClass : Bool) : Follows K 0 a .slack pre (members n g inClass) (members m g' inClass) := by
  refine bind skipTerminators_follows fun _ _ _ => ?_
  exact bind (memberList_follows hbraces hg hnm inClass hnm) fun xs xs' hxs => result hxs.ofList

/-- A part of a variable behind its mark, if there is one. -/
theorem clause_follows {c : Category} {mark : Symbol} {d : Grip} {r : Node c → Grip}
    {p q : Parser (Node c)} {α : Type} [Labeled α] {b : α → Grip}
    (next next' : Node (.maybe c) → Parser α) (hmark : (TokenKind.symbol mark).Inner)
    (hp : FollowsTo K 0 .slack r (fun _ => True) p q) (hr : ∀ x, r x = .slack → d = .slack)
    (hnext : ∀ x y, K.like.Alike x y → FollowsTo K 0 d b (fun _ => True) (next x) (next' y)) :
    FollowsTo K 0 .firm b (fun _ => True)
      (do
        if ← acceptSymbol mark then
          skipNewlines
          next (.present (← p))
        else next .absent)
      (do
        if ← acceptSymbol mark then
          skipNewlines
          next' (.present (← q))
        else next' .absent) := by
  refine bind (acceptSymbol_follows hmark) fun found _ hfound => ?_
  obtain rfl := hfound
  refine ite (fun _ => ?_) fun _ => with_firm (hnext _ _ rfl)
  refine bind skipNewlines_follows fun _ _ _ => ?_
  exact bind hp fun x y hxy => tighten (hnext _ _ (congrArg Node.present hxy :)) (hr x)

/-- A variable. -/
theorem variableDecl_follows (hg : GrammarFollows K g g') {kind : VarKind}
    (hpre : ∀ s, pre s → s.kind.Inner) :
    Follows K 0 a K.tail pre (variableDecl g kind) (variableDecl g' kind) := by
  have hcolon : (TokenKind.symbol .colon).Inner := by decide
  have hassign : (TokenKind.symbol .assign).Inner := by decide
  refine bind (advance_follows hpre) fun _ _ _ => ?_
  refine bind expectIdent_follows fun name name' hname => ?_
  extract_lets after after'
  refine clause_follows after after' hcolon (typeCall_follows hg) (fun _ => id) fun t t' ht => ?_
  refine clause_follows (fun e => Pure.pure (Node.varStmt kind name t e))
    (fun e => Pure.pure (Node.varStmt kind name' t' e)) hassign (exprCall_follows hg)
    (fun _ => Comparison.gripOf_tail) fun e e' he => result ?_
  exact (congr (congr (congrArg (Node.varStmt kind) hname) ht) he :)

/-- A loop over the elements of a value. -/
theorem forLoop_follows (hg : GrammarFollows K g g') :
    Follows K 0 a .firm pre (forLoop g) (forLoop g') := by
  refine bind (discard expectKeyword_follows) fun _ _ _ => ?_
  refine bind expectIdent_follows fun binding binding' hbinding => ?_
  refine bind (discard expectKeyword_follows) fun _ _ _ => ?_
  refine bind (headExpr_follows hg) fun source source' hsource => ?_
  refine bind (block_follows hg) fun body body' hbody => result ?_
  exact (congr (congr (congrArg Node.forStmt hbinding) hsource) hbody :)

/-- A loop as long as a condition holds. -/
theorem whileLoop_follows (hg : GrammarFollows K g g') :
    Follows K 0 a .firm pre (whileLoop g) (whileLoop g') := by
  refine bind (discard expectKeyword_follows) fun _ _ _ => ?_
  refine bind (headExpr_follows hg) fun condition condition' hcondition => ?_
  refine bind (block_follows hg) fun body body' hbody => result ?_
  exact (congr (congrArg Node.whileStmt hcondition) hbody :)

/-- What a statement says. -/
theorem stmtForm_follows (hg : GrammarFollows K g g') (hnm : K.Bounds n m) :
    Follows K 0 a K.tail pre (stmtForm n g) (stmtForm m g') := by
  refine of_slack (kind_bind (fun k => ?_) (by simp))
  split
  · rename_i kind hkind
    exact variableDecl_follows hg fun s hs => hs.2 ▸ VarKind.inner_of_ofToken hkind
  · refine ite (fun _ => loosen (forLoop_follows hg) fun _ => Grip.firm_elim) fun _ => ?_
    refine ite (fun _ => loosen (whileLoop_follows hg) fun _ => Grip.firm_elim) fun _ => ?_
    refine ite (fun _ => ?_) fun _ => ?_
    · exact bind (item_follows hg hnm) fun i i' hi => result (congrArg Node.itemStmt hi :)
    · exact bind (expr_follows hg hnm) fun e e' he =>
        result_to (congrArg Node.exprStmt he :) Comparison.gripOf_tail

/-- A statement. -/
theorem stmt_follows (hg : GrammarFollows K g g') (hnm : K.Bounds n m) :
    Follows K 0 a K.tail pre (stmt n g) (stmt m g') := by
  refine of_slack (here_bind fun start start' hstart => ?_)
  refine bind (stmtForm_follows hg hnm) fun form form' hform => ?_
  refine bind freshId_follows fun id id' hid => spanFrom_bind hstart fun span span' hspan => ?_
  exact result (congr (congrArg Node.stmt (congr (congrArg Origin.mk hid) hspan)) hform :)

/-- A statement with its terminator, or an error stub in its place. -/
theorem stmtOrStub_follows (hbraces : K.braces) (hg : GrammarFollows K g g') (hnm : K.Bounds n m) :
    Follows K 0 a .slack pre (stmtOrStub n g) (stmtOrStub m g') := by
  refine of_slack (here_bind fun start start' hstart => ?_)
  refine bind (recovering_follows hbraces (stmt_follows hg hnm)) fun x? x?' hx => ?_
  cases x? with
  | some x =>
    obtain ⟨x', rfl, hx'⟩ := Option.map_eq_some_iff.1 hx.symm
    exact result hx'.symm
  | none =>
    obtain rfl := Option.map_eq_none_iff.1 hx.symm
    refine spanFrom_bind hstart fun span span' hspan => ?_
    refine bind (origin_follows hspan) fun o o' ho => result ?_
    exact (congrFun (congrArg Node.stmt ho) .errorStmt :)

/-- Statements up to a closing brace. -/
theorem stmtList_follows (hbraces : K.braces) (hg : GrammarFollows K g g') {bound bound' : Nat}
    (hbound : K.Bounds bound bound') (hnm : K.Bounds n m) :
    Follows K 0 a .slack pre (stmtList bound g n) (stmtList bound' g' m) := by
  refine of_slack ?_
  induction n generalizing m pre with
  | zero => exact stalled_follows (q := stmtList bound' g') rfl hnm
  | succ n ih =>
    obtain ⟨m, rfl, hbounds⟩ := K.bounds_succ hnm
    unfold stmtList
    refine atSymbol_bind fun closes => at_bind (fun _ => rfl) fun ends => ?_
    refine ite (fun _ => result rfl) fun _ => ?_
    refine bind (stmtOrStub_follows hbraces hg hbound) fun x x' hx => ?_
    refine bind skipTerminators_follows fun _ _ _ => ?_
    exact bind (ih hbounds) fun xs xs' hxs => result (hx.cons hxs)

/-- Statements up to a closing brace, after any terminators. -/
theorem stmts_follows (hbraces : K.braces) (hg : GrammarFollows K g g') (hnm : K.Bounds n m) :
    Follows K 0 a .slack pre (stmts n g) (stmts m g') := by
  refine bind skipTerminators_follows fun _ _ _ => ?_
  exact bind (stmtList_follows hbraces hg hnm hnm) fun xs xs' hxs => result hxs.ofList

/-- The parser of each nonterminal follows its counterpart, if the parsers it is given do. -/
theorem rule_follows (hg : GrammarFollows K g g') (hnm : K.Bounds n m) {c : Category}
    (x : Nonterminal c) :
    FollowsTo (x.view K) 0 .slack (x.grip K) x.Expected (rule n g x) (rule m g' x) := by
  cases x with
  | expr => exact expr_follows hg hnm
  | power => exact power_follows hg hnm
  | operand => exact operand_follows hg hnm
  | cond => exact cond_follows hg
  | type => exact type_follows hg hnm
  | stmts => exact stmts_follows (K := K.inside) trivial hg.inside hnm
  | members inClass => exact members_follows (K := K.inside) trivial hg.inside hnm inClass

/-- So all of them do. -/
theorem grammar_follows (hnm : K.Bounds n m) : GrammarFollows K (grammar n) (grammar m) := by
  induction n generalizing m with
  | zero =>
    intro c x
    cases x <;> exact stalled_follows (q := fun m => grammar m _) rfl hnm
  | succ n ih =>
    obtain ⟨m, rfl, hbounds⟩ := K.bounds_succ hnm
    exact fun x => rule_follows (ih hbounds) hnm x

end Parse

end FrontEnd
