import FrontEnd.Grammar.Expr
import FrontEnd.Proofs.Placing.Steps

/-!
# Where blocks, paths and types stand

Provided the parsers of the nonterminals place their results among the tokens, those of blocks,
paths, types and generic parameters do. A path may end in front of a `>>` that closes the type
arguments around it, behind line breaks that were stepped over there.
-/

namespace FrontEnd

/-- The parsers of all nonterminals place their results. A name in front of a comma or a closing
brace is an expression. -/
structure GrammarPlaces (K : TokenStream) (g : Grammar) : Prop where
  expr : ∀ {G i}, Places K G G i (g .expr) fun j e => K.Whole (ignored G) i j e
  name : ∀ {s e s'} {ident : Ident}, g .expr s = .ok e s' →
    s.current = ⟨.ident ident.name, ident.span⟩ →
      s.advance.kind = .symbol .comma ∨ s.advance.kind = .symbol .rBrace →
        ∃ o, e = .expr o (.name ident .empty)
  power : ∀ {G i}, Places K G G i (g .power) fun j e => K.Whole (ignored G) i j e
  operand : ∀ {G i}, Places K G G i (g .operand) fun j e => K.Whole (ignored G) i j e
  cond : ∀ {G i}, Places K G G i (g .cond) fun j e => K.Whole (ignored G) i j e
  type : ∀ {G i}, Places K G G i (g .type) fun j t => K.Whole (ignored G) i j t
  stmts : ∀ {G i}, Places K G G i (g .stmts) fun j xs => K.Lies (ignored G) i j xs
  members : ∀ {inClass G i},
    Places K G G i (g (.members inClass)) fun j xs => K.Lies (ignored G) i j xs

/-- The names of a path: the first one is at its beginning. Outside of types it is the only token of
the path, perhaps with line breaks behind it, or there is a separator. -/
structure TokenStream.Names (K : TokenStream) (ignores inType : Bool) (i j : Nat)
    (names : List (Node .segment)) : Prop where
  whole : K.Whole ignores i j (.ofList names)
  first : ∀ name ∈ names.head?, ∃ ident generics, name = .segment ident generics ∧
    K.tokenAt i = ⟨.ident ident.name, ident.span⟩
  single : inType = false →
    K.Steps ignores i j ∨ ∃ m, i < m ∧ m < j ∧ K.kindAt m = .symbol .path

namespace Parse

open TokenStream

variable {K : TokenStream} {G : List Bool} {i : Nat} {g : Grammar}

/-- A block covers its braces. -/
theorem block_places (hg : GrammarPlaces K g) :
    Places K G G i (block g) fun j b => K.Tight (ignored G) i j b := by
  refine (expect_places (by nofun)).bind fun j₁ start => (openGroup_places false).bind
    fun j₂ _ => ?_
  refine hg.stmts.bind fun j₃ stmts => (closeStrict_places .rBrace).bind fun j₄ _ => ?_
  refine freshId_places fun id => .spanFrom fun span => .pure ?_
  rintro hspan ⟨hclose, hlast⟩ hstmts hopen ⟨_, hfirst, hstart⟩
  have hlt : i < j₃ := (hfirst.lt.trans_le hopen).trans_le hstmts.le
  refine tight_spanned rfl (hspan.token hstart.symm (hlt.trans hlast.lt) hlast.le)
    (hlast.ends (by rw [hclose]; nofun)) ?_ (List.forall_mem_nil _) trivial
  exact .cons hstmts (hfirst.lt.le.trans hopen) (.nil hlast.lt.le hlast.le)

section Types

/-- Half of a token is used up. -/
theorem halfShift_places (half : Bool) :
    Places K G G i (modify fun s => { s with halfShift := half }) fun j _ => j = i :=
  .update (fun _ => rfl) fun _ hs => ⟨i, hs.congr rfl rfl rfl rfl, rfl⟩

/-- A closing angle bracket is stepped over, or a `>>` is left at hand. -/
theorem closeAngle_places : Places K G G i closeAngle fun j _ =>
    j = i ∧ K.kindAt i = .symbol .shr ∨ i < j ∧ K.Ends (ignored G) j := by
  have closed (i : Nat) (mark : Symbol) : Places K G G i advance fun j _ =>
      K.kindAt i = .symbol mark → i < j ∧ K.Ends (ignored G) j := by
    refine advance_places.mono fun j _ ⟨_, hsteps⟩ hkind => ?_
    have steps := hsteps (by rw [hkind]; nofun)
    exact ⟨steps.lt, steps.ends (by rw [hkind]; nofun)⟩
  refine .state fun s => .ite ?_ (.ite (.ite ?_ ?_) (failExpected_places _))
  · exact (closed i .rAngle).mono fun _ _ h hkind hs => .inr (h (hs.kind.symm.trans hkind))
  · refine (halfShift_places false).bind fun j _ => (closed j .shr).mono ?_
    intro k _ h hj _ hkind _ hs
    obtain rfl := hj
    exact .inr (h (hs.kind.symm.trans hkind))
  · refine (halfShift_places true).mono fun j _ hj _ hkind _ hs => ?_
    exact .inl ⟨hj, hs.kind.symm.trans hkind⟩

/-- Behind a list in angle brackets something may end. -/
theorem angles_places {c : Category} {element : Parser (Node c)}
    (helement : ∀ i, Places K G G i element fun j x => K.Whole (ignored G) i j x) (n : Nat)
    {α : Type} (make : List (Node c) → α) : Places K G G i (do
      skipNewlines
      let (xs, _) ← commaList closesAngles skipNewlines element n false
      closeAngle
      return make xs) fun j a => ∃ xs, a = make xs ∧ ∀ {i₀}, i₀ < i → K.Ends (ignored G) i →
        K.Whole (ignored G) i₀ j (.ofList xs) := by
  refine skipNewlines_places.bind fun j₁ _ => ?_
  refine (commaList_places (fun _ => skipNewlines_places) helement n false).bind fun j₂ xs => ?_
  refine closeAngle_places.bind fun j₃ _ => .pure ?_
  rintro hclose ⟨hlies, hshr⟩ hbreaks
  refine ⟨_, rfl, fun {i₀} hlt hends => ?_⟩
  have hle : i₀ < j₂ := (hlt.trans_le hbreaks.le).trans_le hlies.le
  rcases hclose with ⟨rfl, hkind⟩ | ⟨hlast, hends'⟩
  · -- Half of the `>>` at hand closes the list, maybe behind line breaks.
    refine (hlies.mono (hlt.le.trans hbreaks.le) (Nat.le_refl _) hlies.inside).whole
      (Node.span?_many _) hle ?_
    rcases hshr hkind with rfl | hends'
    · exact hends.behind hbreaks hkind
    · exact hends'
  · exact (hlies.mono (hlt.le.trans hbreaks.le) hlast.le hends'.le).whole (Node.span?_many _)
      (hle.trans hlast) hends'

/-- Type arguments begin behind the opening angle bracket and may share the closing one. -/
theorem typeArgs_places (hg : GrammarPlaces K g) (n : Nat) :
    Places K G G i (typeArgs n g) fun j args => K.Whole (ignored G) i j (.ofList args) := by
  refine (expectSymbol_places .lAngle).bind fun j _ => ?_
  refine (angles_places (fun _ => hg.type) n id).mono fun k args h ⟨hopen, hfirst⟩ => ?_
  obtain ⟨_, rfl, hargs⟩ := h
  exact hargs hfirst.lt (hfirst.ends (by rw [hopen]; nofun))

/-- A name with its type arguments, and the names behind it. -/
theorem names_segment {inType : Bool} {j₁ a b j : Nat} {ident : Ident} {generics : List TypeExpr}
    {others : List (Node .segment)} (hname : K.Named (ignored G) i j₁ ident)
    (hgenerics : K.Lies (ignored G) a b (.ofList generics))
    (hothers : K.Lies (ignored G) b j (.ofList others)) (ha : j₁ ≤ a) (hends : K.Ends (ignored G) j)
    (hsingle : inType = false →
      K.Steps (ignored G) i j ∨ ∃ m, i < m ∧ m < j ∧ K.kindAt m = .symbol .path) :
    K.Names (ignored G) inType i j (.segment ident (.ofList generics) :: others) := by
  have hle : i ≤ a := hname.lt.le.trans ha
  have hsegment : K.Lies (ignored G) i b (.segment ident (.ofList generics)) := by
    refine lies_bare rfl (.cons hgenerics hle (.nil (Nat.le_refl b) hgenerics.inside))
      (List.forall_mem_singleton.2 ?_) trivial
    exact hname.within (Nat.le_refl i) (ha.trans hgenerics.le)
  refine ⟨(lies_cons hsegment hothers (Nat.le_refl b)).whole rfl ?_ hends, ?_, hsingle⟩
  · exact (hname.lt.trans_le (ha.trans hgenerics.le)).trans_le hothers.le
  · rintro _ ⟨⟩
    exact ⟨ident, _, rfl, hname.token⟩

/-- The names of a path with their type arguments. -/
theorem segments_places (hg : GrammarPlaces K g) (bound : Nat) (inType : Bool) (n : Nat) :
    Places K G G i (segments bound g inType n) fun j names =>
      K.Names (ignored G) inType i j names := by
  induction n generalizing i with
  | zero => exact stalled_places
  | succ n ih =>
    unfold segments
    refine expectIdent_places.bind fun j₁ ident => .atKind fun angle => ?_
    extract_lets after
    have after_places (direct : List TypeExpr) (j₂ : Nat) :
        Places K G G j₂ (after direct) fun j names => K.Named (ignored G) i j₁ ident →
          K.Perhaps (ignored G) j₁ j₂ (.ofList direct) → (inType = false → j₂ = j₁) →
            K.Names (ignored G) inType i j names := by
      refine (acceptSymbol_places .path).bind fun j₃ more => .ite (.pure ?_)
        (.atKind fun angle' => ?_)
      · intro hno hmore hname hdirect hsame
        obtain rfl := hmore.no (by simpa using hno)
        refine names_segment hname hdirect.lies (lies_nil (Nat.le_refl j₃) hdirect.lies.inside)
          (Nat.le_refl j₁) (hdirect.ends hname.ends) fun hexpr => .inl ?_
        rw [hsame hexpr]
        exact hname.steps
      · -- The separator stands behind the name and its arguments.
        have separated {j : Nat} {inside : Prop} (hname : K.Named (ignored G) i j₁ ident)
            (hdirect : K.Perhaps (ignored G) j₁ j₂ (.ofList direct))
            (hmore : K.Accepted (ignored G) (.symbol .path) j₂ j₃ more) (hyes : ¬(!more) = true)
            (hj : j₃ ≤ j) :
            j₂ ≤ j₃ ∧ (inside ∨ ∃ m, i < m ∧ m < j ∧ K.kindAt m = .symbol .path) := by
          obtain ⟨hpath, hsteps⟩ := hmore.yes (by simpa using hyes)
          exact ⟨hsteps.lt.le, .inr ⟨j₂, hname.lt.trans_le hdirect.lies.le,
            hsteps.lt.trans_le hj, hpath⟩⟩
        refine .ite ?_ ?_
        · refine (typeArgs_places hg bound).bind fun j₄ args => ?_
          refine (acceptSymbol_places .path).bind fun j₅ again => .ite ?_ (.pure ?_)
          · refine ih.bind fun j₆ others => .pure ?_
            intro hothers _ hagain hargs _ _ hmore' hmore hname hdirect _
            have hle := hagain.le
            have hbehind := hothers.whole.lies
            obtain ⟨hmoved, hsingle⟩ := separated hname hdirect hmore hmore'
              ((hargs.lt.le.trans hle).trans hbehind.le)
            exact names_segment hname hargs.lies (hbehind.mono hle (Nat.le_refl j₆) hbehind.inside)
              (hdirect.lies.le.trans hmoved) hothers.whole.ends fun _ => hsingle
          · intro hno hagain hargs _ _ hmore' hmore hname hdirect _
            obtain rfl := hagain.no hno
            obtain ⟨hmoved, hsingle⟩ := separated hname hdirect hmore hmore' hargs.lt.le
            exact names_segment hname hargs.lies (lies_nil (Nat.le_refl j₅) hargs.inside)
              (hdirect.lies.le.trans hmoved) hargs.ends fun _ => hsingle
        · refine ih.bind fun j₄ others => .pure ?_
          intro hothers _ _ hmore' hmore hname hdirect _
          have hbehind := hothers.whole.lies
          obtain ⟨hmoved, hsingle⟩ := separated hname hdirect hmore hmore' hbehind.le
          exact names_segment hname hdirect.lies
            (hbehind.mono hmoved (Nat.le_refl j₄) hbehind.inside)
            (Nat.le_refl j₁) hothers.whole.ends fun _ => hsingle
    refine .ite ?_ ?_
    · refine (typeArgs_places hg bound).bind fun j₂ args => (after_places args j₂).mono ?_
      intro j names h hargs hangle _ hname
      refine h hname hargs.perhaps fun hexpr => ?_
      rw [hexpr] at hangle
      cases hangle.1
    · refine (after_places [] j₁).mono fun j names h _ _ hname => h hname ?_ fun _ => rfl
      exact ⟨lies_nil (Nat.le_refl j₁) hname.le, id⟩

/-- A path covers its names; a path that is nothing but a name is the token at its start, unless
names were left out behind `::`. -/
theorem path_places (hg : GrammarPlaces K g) (n : Nat) (inType : Bool) :
    Places K G G i (path n g inType) fun j p => K.Tight (ignored G) i j p ∧
      (inType = false → ∀ ident ∈ p.simpleName?, K.tokenAt i = ⟨.ident ident.name, ident.span⟩ ∧
        (K.Steps (ignored G) i j ∨ ∃ m, i < m ∧ m < j ∧ K.kindAt m = .symbol .path)) := by
  refine .here fun start => (acceptSymbol_places .path).bind fun j₁ global => ?_
  refine (segments_places hg n inType n).bind fun j₂ names => .spanFrom fun span => .pure ?_
  intro hspan hnames hglobal hstart
  have hle := hglobal.le
  have hlies := hnames.whole.lies
  refine ⟨tight_spanned rfl (hspan.token hstart (hle.trans_lt hnames.whole.lt) hlies.inside)
    hnames.whole.ends (.cons hlies hle (.nil (Nat.le_refl j₂) hlies.inside))
    (List.forall_mem_nil _) trivial, fun hexpr ident hident => ?_⟩
  -- A simple path is not global, so it starts with its name.
  unfold Node.simpleName? at hident
  dsimp only at hident
  rw [Node.toList_ofList] at hident
  split at hident
  · rename_i name
    obtain rfl := hglobal.no nofun
    obtain ⟨ident', generics, rfl, htoken⟩ := hnames.first name rfl
    unfold Node.plainName? at hident
    dsimp only at hident
    split at hident
    · cases hident
      exact ⟨htoken, hnames.single hexpr⟩
    · cases hident
  · cases hident

/-- Types between parentheses, whatever they form. -/
theorem parenForm_lies {ignores : Bool} {items : List TypeExpr} {j : Nat} (trailing : Bool)
    (h : K.Lies true i j (.ofList items)) : K.Lies ignores i j (parenForm items trailing) := by
  have row {c : Category} {n : Node c} (hn : K.Lies true i j n) : K.Row i j [(⟨c, n⟩, true)] :=
    .cons hn (Nat.le_refl i) (.nil (Nat.le_refl j) h.inside)
  unfold parenForm
  split
  · exact lies_bare rfl (.nil h.le h.inside) (List.forall_mem_nil _) trivial
  · exact lies_bare rfl (row (h.parts _ List.mem_cons_self)) (List.forall_mem_nil _) trivial
  · exact lies_bare rfl (row h) (List.forall_mem_nil _) trivial

/-- Types in parentheses cover these, and a function type its result, too. -/
theorem parenType_places (hg : GrammarPlaces K g) (n : Nat) :
    Places K G G i (parenType n g) fun j t => K.Whole (ignored G) i j t := by
  refine .here fun start => advance_places.bind fun j₁ _ => ?_
  refine (openGroup_places true).bind fun j₂ _ => ?_
  have hgap (i : Nat) : Places K (true :: G) (true :: G) i (pure () : Parser Unit) fun j _ =>
      K.Breaks i j :=
    .stay fun hi => ⟨Nat.le_refl i, hi, fun m _ _ => by omega⟩
  refine (commaList_places hgap (fun _ => hg.type) n false).bind fun j₃ r => ?_
  obtain ⟨items, trailing⟩ := r
  refine closeThen_places (fun _ => newType_places fun _ _ => trivial) fun j₄ => ?_
  refine (acceptSymbol_places .arrow).bind fun j₅ arrow => .ite ?_ (.spanFrom fun span => ?_)
  · refine hg.type.bind fun j₆ result => newType_places fun o ho => ?_
    rintro hresult _ harrow _ hlast ⟨hitems, _⟩ hopen ⟨hfirst, _⟩ hstart
    obtain ⟨m, hm, tight⟩ := hresult.tight
    have hle := hlast.lt.le.trans harrow.le
    have hbefore : i ≤ j₃ := (hfirst.trans hopen).trans hitems.le
    have covers : K.Covers i m (start.cover result.typeSpan) := by
      rw [← hstart]
      exact (covers_token (hbefore.trans_lt (hlast.lt.trans_le hlast.le))).cover tight.typeSpan
        (hbefore.trans hle) ((hbefore.trans hle).trans_lt tight.lt)
    have lies : K.Lies (ignored G) i m (.funcType (.ofList items) result) :=
      lies_bare rfl (.cons hitems (hfirst.trans hopen)
        (.cons tight.lies hle (.nil (Nat.le_refl m) tight.lies.inside))) (List.forall_mem_nil _)
        trivial
    exact ⟨hresult.ends, m, hm, tight_type (ho ▸ covers) tight.ends lies⟩
  · refine newType_places fun o ho => ?_
    rintro hspan harrow' harrow hclose hlast ⟨hitems, _⟩ hopen ⟨hfirst, _⟩ hstart
    obtain rfl := harrow.no harrow'
    have hbefore : i ≤ j₃ := (hfirst.trans hopen).trans hitems.le
    have covers := hspan.token hstart (hbefore.trans_lt hlast.lt) hlast.le
    refine (tight_type (ho ▸ covers) (hlast.ends (by rw [hclose]; nofun)) ?_).whole
    exact (parenForm_lies trailing hitems).mono (hfirst.trans hopen) hlast.lt.le hlast.le

/-- A slice or an array covers its brackets. -/
theorem bracketType_places (hg : GrammarPlaces K g) :
    Places K G G i (bracketType g) fun j t => K.Whole (ignored G) i j t := by
  refine .here fun start => advance_places.bind fun j₁ _ => ?_
  refine (openGroup_places true).bind fun j₂ _ => hg.type.bind fun j₃ item => ?_
  refine (acceptSymbol_places .semi).bind fun j₄ sized => ?_
  extract_lets after
  have after_places (form : TypeForm) (j : Nat) : Places K (true :: G) G j (after form) fun k t =>
      K.Lies (ignored G) i j form → (K.tokenAt i).span = start → K.Whole (ignored G) i k t := by
    refine closeThen_places (fun _ => newType_places fun _ _ => trivial) fun k => ?_
    refine .spanFrom fun span => newType_places fun o ho => ?_
    intro hspan hclose hlast hform hstart
    have covers := hspan.token hstart (hform.le.trans_lt hlast.lt) hlast.le
    exact (tight_type (ho ▸ covers) (hlast.ends (by rw [hclose]; nofun))
      (hform.mono (Nat.le_refl i) hlast.lt.le hlast.le)).whole
  refine .ite ?_ ?_
  · refine hg.expr.bind fun j₅ size => (after_places _ j₅).mono ?_
    rintro k t h hsize _ hsized hitem hopen ⟨hfirst, _⟩ hstart
    exact h (lies_bare rfl (.cons hitem.lies (hfirst.trans hopen) (.cons hsize.lies
      hsized.le (.nil (Nat.le_refl _) hsize.inside))) (List.forall_mem_nil _) trivial) hstart
  · refine (after_places _ j₄).mono ?_
    rintro k t h hno hsized hitem hopen ⟨hfirst, _⟩ hstart
    obtain rfl := hsized.no hno
    exact h (lies_bare rfl (.cons hitem.lies (hfirst.trans hopen)
      (.nil (Nat.le_refl _) hitem.inside)) (List.forall_mem_nil _) trivial) hstart

/-- A type covers its parts. -/
theorem type_places (hg : GrammarPlaces K g) (n : Nat) :
    Places K G G i (type n g) fun j t => K.Whole (ignored G) i j t := by
  have named : Places K G G i (do
      let p ← path n g true
      newType (.pathType p) p.pathSpan) fun j t => K.Whole (ignored G) i j t := by
    refine (path_places hg n true).bind fun j p => newType_places fun o ho ⟨tight, _⟩ => ?_
    refine (tight_type (ho ▸ tight.pathSpan) tight.ends ?_).whole
    exact lies_bare rfl (.cons tight.lies (Nat.le_refl i) (.nil (Nat.le_refl j) tight.lies.inside))
      (List.forall_mem_nil _) trivial
  refine .kind fun k => ?_
  split
  · exact named.mono fun _ _ h _ => h
  · exact named.mono fun _ _ h _ => h
  · exact (parenType_places hg n).mono fun _ _ h _ => h
  · exact (bracketType_places hg).mono fun _ _ h _ => h
  · refine (reportExpected_places _).bind fun j _ => .here fun span => ?_
    exact newType_places fun _ _ _ h => h.elim

end Types

section Generics

/-- A part behind a mark, if it is there. -/
theorem behindMark_places {c : Category} {p : Parser (Node c)} (mark : Symbol)
    (hp : ∀ i, Places K G G i p fun j x => K.Whole (ignored G) i j x) :
    Places K G G i (do
      if ← acceptSymbol mark then return Node.present (← p)
      return .absent) fun j x => K.Perhaps (ignored G) i j x := by
  refine (acceptSymbol_places mark).bind fun j found => .ite ((hp j).bind fun k x => .pure ?_)
    (.stay fun hj hmissing haccept => ?_)
  · exact fun hx _ haccept => perhaps_present hx haccept.le
  · obtain rfl := haccept.no hmissing
    exact perhaps_absent hj

/-- A type behind a colon that may be there. -/
theorem typeAfterColon_places (hg : GrammarPlaces K g) :
    Places K G G i (typeAfterColon? g) fun j t => K.Perhaps (ignored G) i j t :=
  behindMark_places .colon fun _ => hg.type

/-- A value behind an equals sign that may be there. -/
theorem defaultValue_places (hg : GrammarPlaces K g) :
    Places K G G i (defaultValue? g) fun j e => K.Perhaps (ignored G) i j e :=
  behindMark_places .assign fun _ => hg.expr

/-- Name and form of a generic parameter. -/
theorem genericForm_places (hg : GrammarPlaces K g) :
    Places K G G i (genericForm g) fun j r =>
      K.Whole (ignored G) i j r.2 ∧ K.Within i j r.1.span := by
  have typed (i : Nat) : Places K G G i (do
      let name ← expectIdent
      return (name, Node.typeGeneric (← typeAfterColon? g))) fun j r =>
        K.Whole (ignored G) i j r.2 ∧ K.Within i j r.1.span := by
    refine expectIdent_places.bind fun j₁ name => (typeAfterColon_places hg).bind fun j₂ bound => ?_
    refine .pure fun hbound hname => ⟨?_, hname.within (Nat.le_refl i) hbound.lies.le⟩
    exact whole_bare rfl (hname.lt.trans_le hbound.lies.le) (hbound.ends hname.ends)
      (.cons hbound.lies hname.lt.le (.nil (Nat.le_refl j₂) hbound.lies.inside))
      (List.forall_mem_nil _) trivial
  refine .current fun t => ?_
  split
  · rename_i name span
    refine advance_places.bind fun j _ => .pure fun ⟨_, hsteps⟩ htoken => ?_
    have hkind : K.kindAt i = .lifetime name := congrArg Token.kind htoken
    have steps := hsteps (by rw [hkind]; nofun)
    refine ⟨whole_bare rfl steps.lt (steps.ends (by rw [hkind]; nofun)) (.nil steps.lt.le steps.le)
      (List.forall_mem_nil _) trivial, i, i + 1, Nat.le_refl i, steps.lt, ?_⟩
    have covers := covers_token (steps.lt.trans_le steps.le)
    rwa [htoken] at covers
  · refine (accept_places (by nofun)).bind fun j₁ const => .ite ?_ ?_
    · refine expectIdent_places.bind fun j₂ name => (expectSymbol_places .colon).bind fun j₃ _ => ?_
      refine hg.type.bind fun j₄ t => (defaultValue_places hg).bind fun j₅ default => .pure ?_
      rintro hdefault ht ⟨_, hcolon⟩ hname _ hconst _
      have hle : i ≤ j₃ := (hconst.le.trans hname.lt.le).trans hcolon.lt.le
      refine ⟨whole_bare rfl ((hle.trans_lt ht.lt).trans_le hdefault.lies.le)
        (hdefault.ends ht.ends) (.cons ht.lies hle (.cons hdefault.lies (Nat.le_refl j₄)
          (.nil (Nat.le_refl j₅) hdefault.lies.inside))) (List.forall_mem_nil _) trivial,
        hname.within hconst.le ?_⟩
      exact (hcolon.lt.trans ht.lt).le.trans hdefault.lies.le
    · refine (typed j₁).mono fun j r h hmissing hconst _ => ?_
      obtain rfl := hconst.no hmissing
      exact h

/-- A generic parameter covers what it is. -/
theorem generic_places (hg : GrammarPlaces K g) :
    Places K G G i (generic g) fun j p => K.Whole (ignored G) i j p := by
  refine .here fun start => (genericForm_places hg).bind fun j r => ?_
  obtain ⟨name, form⟩ := r
  refine .spanFrom fun span => origin_places fun o => .pure fun ho hspan ⟨hform, hname⟩ hstart => ?_
  have covers := hspan.token hstart hform.lt hform.inside
  refine Tight.whole (tight_spanned rfl (ho ▸ covers) hform.ends (.cons hform.lies (Nat.le_refl i)
    (.nil (Nat.le_refl j) hform.inside)) (List.forall_mem_singleton.2 hname) trivial)

/-- Generic parameters stand between angle brackets. -/
theorem generics_places (hg : GrammarPlaces K g) (n : Nat) :
    Places K G G i (generics n g) fun j ps => K.Perhaps (ignored G) i j ps := by
  refine (acceptSymbol_places .lAngle).bind fun j found => .ite (.stay ?_) ?_
  · intro hj hmissing haccept
    obtain rfl := haccept.no (by simpa using hmissing)
    exact ⟨lies_nil (Nat.le_refl j) hj, id⟩
  · refine (angles_places (fun _ => generic_places hg) n Node.ofList).mono ?_
    intro k ps h hfound haccept
    obtain ⟨_, rfl, hparams⟩ := h
    obtain ⟨hopen, hfirst⟩ := haccept.yes (by simpa using hfound)
    exact (hparams hfirst.lt (hfirst.ends (by rw [hopen]; nofun))).perhaps

end Generics

end Parse

end FrontEnd
