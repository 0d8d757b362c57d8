import FrontEnd.Proofs.Placing.Types
import FrontEnd.Proofs.Tracing.Operators

/-!
# Where expressions stand

Provided the parsers of the nonterminals place their results among the tokens, those of all
expressions do. Where line breaks are ignored, the span of an expression takes in those behind its
last token, unless it is made from the spans of its parts.
-/

namespace FrontEnd.Parse

open TokenStream

variable {K : TokenStream} {G : List Bool} {i : Nat} {g : Grammar}

section Lists

/-- Whether a brace starts a struct value does not matter. -/
theorem headExpr_places (hg : GrammarPlaces K g) :
    Places K G G i (headExpr g) fun j e => K.Whole (ignored G) i j e where
  free s e s' hrun free := by
    unfold headExpr at hrun
    split at hrun
    · rename_i e' s₁ hexpr
      cases hrun
      have before := (hg.expr (G := G) (i := i)).free hexpr free
      exact before
    · cases hrun
  runs s e s' hs hrun free := by
    unfold headExpr at hrun
    split at hrun
    · rename_i e' s₁ hexpr
      cases hrun
      have inside : K.At i G { s with allowsBrace := false } := hs.congr rfl rfl rfl rfl
      obtain ⟨j, there, hwhole⟩ := hg.expr.runs inside hexpr free
      exact ⟨j, there.congr rfl rfl rfl rfl, hwhole⟩
    · cases hrun

/-- A name and a colon from one place up to another, if both are there. -/
structure LabelRead (K : TokenStream) (i j : Nat) (name? : Option Ident) : Prop where
  le : i ≤ j
  within : ∀ name ∈ name?, K.Within i j name.span
  none : name? = none → j = i ∧ ∀ ident : Ident, K.tokenAt i = ⟨.ident ident.name, ident.span⟩ →
    K.kindAt (i + 1) ≠ .symbol .colon

/-- A label is a name and a colon behind it. -/
theorem label_places : Places K G G i label? fun j name? => LabelRead K i j name? := by
  refine .state fun s => .ite ?_ (.pure fun hno hs => ⟨Nat.le_refl i, nofun, fun _ => ⟨rfl, ?_⟩⟩)
  · refine expectIdent_places.bind fun j₁ name => advance_places.bind fun j₂ _ => .pure ?_
    rintro ⟨hcolon, _⟩ hname _ _
    refine ⟨hname.lt.le.trans hcolon, ?_, nofun⟩
    rintro _ ⟨⟩
    exact hname.within (Nat.le_refl i) hcolon
  · intro ident htoken hcolon
    refine hno ⟨?_, hs.nextKind.trans hcolon⟩
    rw [hs.kind, TokenStream.kindAt, htoken]
    rfl

/-- An argument begins with its label. -/
theorem argument_places (hg : GrammarPlaces K g) :
    Places K G G i (argument g) fun j a => K.Whole (ignored G) i j a := by
  refine .here fun start => label_places.bind fun j₁ name? => hg.expr.bind fun j₂ value => .pure ?_
  rintro hvalue ⟨hlabel, hname, -⟩ hstart
  obtain ⟨m, hm, tight⟩ := hvalue.tight
  have hlt : i < m := hlabel.trans_lt tight.lt
  have covers : K.Covers i m (start.cover value.span) := by
    rw [← hstart]
    exact (covers_token (hlt.trans_le tight.lies.inside)).cover tight.exprSpan hlabel hlt
  refine ⟨hvalue.ends, m, hm, tight_spanned rfl covers tight.ends
    (row_single tight.lies hlabel (Nat.le_refl m) tight.lies.inside) (fun name hmem => ?_) trivial⟩
  exact (hname name (Option.mem_toList.1 hmem)).mono (Nat.le_refl i) tight.lt.le

/-- The arguments of a call stand in a row. -/
theorem arguments_places (hg : GrammarPlaces K g) (n : Nat) :
    Places K G G i (arguments n g) fun j args => K.Lies (ignored G) i j args :=
  .map (commaListTo_places (fun _ => argument_places hg) n)

/-- So do the expressions of a list. -/
theorem items_places (hg : GrammarPlaces K g) (n : Nat) :
    Places K G G i (items n g) fun j xs => K.Lies (ignored G) i j xs :=
  .map (commaListTo_places (fun _ => hg.expr) n)

/-- Between braces, where line breaks are ignored, a name in front of a comma or the closing brace
is an expression. -/
theorem name_places (hg : GrammarPlaces K g) :
    Places K (true :: G) (true :: G) i (g .expr) fun j e => K.Whole true i j e ∧
      ∀ ident : Ident, K.tokenAt i = ⟨.ident ident.name, ident.span⟩ → ∀ k, K.Steps true i k →
        K.kindAt k = .symbol .comma ∨ K.kindAt k = .symbol .rBrace →
          ∃ o, e = .expr o (.name ident .empty) := by
  refine hg.expr.known fun s e s' hs hrun ident htoken k hsteps hkind => ?_
  obtain ⟨j, there, hsteps'⟩ := hs.advance (hsteps.lt.trans_le hsteps.le)
  obtain rfl := hsteps'.unique hsteps
  refine hg.name hrun (hs.current.trans htoken) ?_
  rwa [there.kind]

/-- A field of a struct value begins with its name or with the dots of a base. -/
theorem fieldInit_places (hg : GrammarPlaces K g) :
    Places K (true :: G) (true :: G) i (fieldInit g) fun j f => K.Whole true i j f := by
  -- A field around its value, which may come behind a name or a mark.
  have made {n : Node .fieldInit} {value : Expr} {a j : Nat} (hvalue : K.Whole true a j value)
      (hle : i ≤ a) (hspan : n.span? = none) (hparts : n.settings true = [(⟨_, value⟩, true)])
      (hidents : ∀ ident ∈ n.idents, K.Within i a ident.span) (hsingle : K.Single true n) :
      K.Whole true i j n :=
    whole_bare hspan (hle.trans_lt hvalue.lt) hvalue.ends
      (hparts ▸ row_single hvalue.lies hle (Nat.le_refl j) hvalue.inside)
      (fun ident hmem => (hidents ident hmem).mono (Nat.le_refl i) hvalue.lt.le) hsingle
  refine (acceptSymbol_places .spread).bind fun j₁ base =>
    .ite ?_ (label_places.bind fun j₂ name? => ?_)
  · refine hg.expr.bind fun j₂ value => .pure fun hvalue _ hbase => ?_
    exact made hvalue hbase.le rfl rfl (List.forall_mem_nil _) trivial
  · split
    · rename_i name
      refine hg.expr.bind fun j₃ value => .pure fun hvalue ⟨hle, hname, _⟩ _ hbase => ?_
      refine made hvalue (hbase.le.trans hle) rfl rfl (List.forall_mem_singleton.2 ?_) trivial
      exact (hname name rfl).mono hbase.le (Nat.le_refl j₂)
    · refine (name_places hg).bind fun j₃ value => .pure fun ⟨hvalue, hread⟩ hlabel hno hbase => ?_
      -- nothing is stepped over in front of the value
      obtain ⟨rfl, hcolon⟩ := hlabel.none rfl
      obtain rfl := hbase.no hno
      obtain ⟨m, hm, tight⟩ := hvalue.tight
      have hsingle : K.Single true (.shorthandField value) :=
        ⟨_, m, tight.exprSpan, hbase.missing hno, fun ident htoken =>
          ⟨hcolon ident htoken, hread ident htoken⟩⟩
      exact made hvalue (Nat.le_refl _) rfl rfl (List.forall_mem_nil _) hsingle

end Lists

section Primary

/-- A struct value begins with its path and ends with its brace. -/
theorem construct_places (hg : GrammarPlaces K g) (n i₀ : Nat) (p : Path) :
    Places K G G i (construct n g p) fun j e => K.Tight (ignored G) i₀ i p →
      K.Whole (ignored G) i₀ j e := by
  refine advance_places.bind fun j₁ _ => (openGroup_places true).bind fun j₂ _ => ?_
  refine (commaListTo_places (fun _ => fieldInit_places hg) n).bind fun j₃ fields => ?_
  refine closeThen_places (fun _ => newExpr_places fun _ _ => trivial) fun j₄ => ?_
  refine .spanFrom fun span => newExpr_places fun o ho => ?_
  rintro hspan hclose hlast hfields hopen ⟨hfirst, _⟩ hp
  have hle : i ≤ j₂ := hfirst.trans hopen
  have covers := hspan _ _ hp.pathSpan ((hle.trans hfields.le).trans hlast.lt.le)
  refine Tight.whole (tight_expr (ho ▸ covers) (hlast.ends (by rw [hclose]; nofun)) ?_ trivial)
  exact lies_bare rfl (.cons hp.lies (Nat.le_refl i₀) (row_single hfields hle hlast.lt.le hlast.le))
    (List.forall_mem_nil _) trivial

/-- A name, a path or a struct value. -/
theorem pathOrConstruct_places (hg : GrammarPlaces K g) (n : Nat) :
    Places K G G i (pathOrConstruct n g) fun j e => K.Whole (ignored G) i j e := by
  refine (path_places hg n false).bind fun j p => .state fun s => .atKind fun brace => .ite ?_ ?_
  · exact (construct_places hg n i p).mono fun _ _ h _ _ _ ⟨tight, _⟩ => h tight
  · split
    · rename_i ident hident
      refine newExpr_places fun o ho _ _ _ ⟨tight, hsimple⟩ => ?_
      obtain ⟨htoken, hsingle⟩ := hsimple rfl ident hident
      have covers : K.Covers i j o.span := ho ▸ tight.pathSpan
      have hplace : K.Within i j ident.span := by
        have := covers_token (tight.lt.trans_le tight.lies.inside)
        rw [htoken] at this
        exact ⟨i, i + 1, Nat.le_refl i, tight.lt, this⟩
      have single : K.Single (ignored G) (.expr o (.name ident .empty)) :=
        ⟨i, j, covers, htoken, hsingle⟩
      exact Tight.whole (tight_expr covers tight.ends (lies_bare rfl
        (.nil tight.lt.le tight.lies.inside) (List.forall_mem_singleton.2 hplace) trivial) single)
    · refine newExpr_places fun o ho _ _ _ ⟨tight, _⟩ => ?_
      exact Tight.whole (tight_expr (ho ▸ tight.pathSpan) tight.ends (lies_bare rfl
        (row_single tight.lies (Nat.le_refl i) (Nat.le_refl j) tight.lies.inside)
        (List.forall_mem_nil _) trivial) trivial)

/-- The elements of a tuple after its first one. -/
theorem tupleRest_places (hg : GrammarPlaces K g) (n : Nat) :
    Places K G G i (tupleRest g n) fun j xs => K.Lies (ignored G) i j (.ofList xs) := by
  induction n generalizing i with
  | zero => exact stalled_places
  | succ n ih =>
    unfold tupleRest
    refine (acceptSymbol_places .comma).bind fun j₁ found => .ite ?_ (.atKind fun closes =>
      .ite ?_ ?_)
    · exact .stay fun hj _ hcomma => lies_nil hcomma.le hj
    · exact .stay fun hj _ _ _ hcomma => lies_nil hcomma.le hj
    · refine (argument_places hg).bind fun j₂ x => ih.bind fun j₃ xs => .pure ?_
      intro hxs hx _ _ _ hcomma
      exact lies_cons (hx.lies.mono hcomma.le (Nat.le_refl j₂) hx.inside) hxs (Nat.le_refl j₂)

/-- A warning is no error. -/
theorem checkParens_places (inner : Expr) (span : Span) :
    Places K G G i (checkParens inner span) fun j _ => j = i := by
  unfold checkParens
  split
  · rename_i text _
    refine ⟨fun s x s' hrun free => ?_, fun s x s' hs hrun _ => ?_⟩
    · cases hrun
      simpa [ParserState.ErrorFree, ParserState.report, Diagnostic.anyError, Diagnostic.isError,
        Diagnostic.warning, Diagnostic.severity] using free
    · cases hrun
      exact ⟨i, hs.congr rfl rfl rfl rfl, rfl⟩
  · exact .pure rfl

/-- Unit, an expression in parentheses, or a tuple. -/
theorem parenExpr_places (hg : GrammarPlaces K g) (n : Nat) :
    Places K G G i (parenExpr n g) fun j e => K.Whole (ignored G) i j e := by
  -- An expression that ends with the group around its form.
  have made {form : ExprForm} {o : Origin} {start span : Span} {b j : Nat} {k : TokenKind}
      (hspan : K.Since start j span) (ho : o.span = span) (hstart : (K.tokenAt i).span = start)
      (lies : K.Lies (ignored G) i b form) (hlast : K.Steps (ignored G) b j)
      (hclose : K.kindAt b = k) (hk : k ≠ .newline) (hsingle : K.Single (ignored G)
      (.expr o form)) : K.Whole (ignored G) i j (.expr o form) := by
    have covers := hspan.token hstart (lies.le.trans_lt hlast.lt) hlast.le
    exact Tight.whole (tight_expr (ho ▸ covers) (hlast.ends (hclose ▸ hk))
      (lies.mono (Nat.le_refl i) hlast.lt.le hlast.le) hsingle)
  refine .here fun start => advance_places.bind fun j₁ _ => ?_
  refine (openGroup_places true).bind fun j₂ _ => .atKind fun isUnit => .ite ?_ ?_
  · refine closeGroup_places.bind fun j₃ _ => advance_places.bind fun j₄ _ =>
      .spanFrom fun span => ?_
    refine newExpr_places fun o ho hspan ⟨_, hsteps⟩ hj₃ hunit hat hopen ⟨hfirst, _⟩ hstart => ?_
    obtain rfl := hj₃
    have hclose := hat.1 hunit
    have hlast := hsteps (by rw [hclose]; nofun)
    exact made hspan ho hstart (lies_bare rfl (.nil (hfirst.trans hopen)
      (hlast.lt.le.trans hlast.le)) (List.forall_mem_nil _) trivial) hlast hclose nofun trivial
  · refine (argument_places hg).bind fun j₃ first => ?_
    extract_lets after
    have after_places : Places K (true :: G) G j₃ (after ()) fun j e => i ≤ j₂ →
        (K.tokenAt i).span = start → K.Whole true j₂ j₃ first → K.Whole (ignored G) i j e := by
      refine (tupleRest_places hg n).bind fun j₄ others => ?_
      refine closeThen_places (fun _ => newExpr_places fun _ _ => trivial) fun j₅ => ?_
      refine .spanFrom fun span =>
        newExpr_places fun o ho hspan hclose hlast hothers hle hstart hx => ?_
      refine made hspan ho hstart ?_ hlast hclose nofun trivial
      exact lies_bare rfl (row_single (lies_cons hx.lies hothers (Nat.le_refl j₃)) hle
        (Nat.le_refl j₄) hothers.inside) (List.forall_mem_nil _) trivial
    split
    · rename_i inner span
      refine .atKind fun comma => .ite ?_ ?_
      · refine closeThen_places (fun _ => newExpr_places fun _ _ => trivial) fun j₄ => ?_
        refine .spanFrom fun span => (checkParens_places inner span).bind fun j₅ _ => ?_
        refine newExpr_places fun o ho => ?_
        rintro hj₅ hspan hclose hlast _ _ hfirst _ _ hopen ⟨hopening, _⟩ hstart
        obtain rfl := hj₅
        refine made hspan ho hstart ?_ hlast hclose nofun trivial
        have hinner := hfirst.lies.parts _ (List.mem_cons_self)
        exact lies_bare rfl (row_single hinner (hopening.trans hopen) (Nat.le_refl j₃)
          hinner.inside) (List.forall_mem_nil _) trivial
      · refine after_places.mono ?_
        exact fun j e h _ _ hfirst _ _ hopen ⟨hopening, _⟩ hstart =>
          h (hopening.trans hopen) hstart hfirst
    · refine after_places.mono ?_
      exact fun j e h hfirst _ _ hopen ⟨hopening, _⟩ hstart =>
        h (hopening.trans hopen) hstart hfirst

/-- A list of values. -/
theorem listExpr_places (hg : GrammarPlaces K g) (n : Nat) :
    Places K G G i (listExpr n g) fun j e => K.Whole (ignored G) i j e := by
  refine .here fun start => advance_places.bind fun j₁ _ => ?_
  refine (openGroup_places true).bind fun j₂ _ => (items_places hg n).bind fun j₃ values => ?_
  refine closeThen_places (fun _ => newExpr_places fun _ _ => trivial) fun j₄ => ?_
  refine .spanFrom fun span => newExpr_places fun o ho => ?_
  rintro hspan hclose hlast hvalues hopen ⟨hfirst, _⟩ hstart
  have hle : i ≤ j₂ := hfirst.trans hopen
  have covers := hspan.token hstart ((hle.trans hvalues.le).trans_lt hlast.lt) hlast.le
  exact Tight.whole (tight_expr (ho ▸ covers) (hlast.ends (by rw [hclose]; nofun))
    (lies_bare rfl (row_single hvalues hle hlast.lt.le hlast.le) (List.forall_mem_nil _) trivial)
    trivial)

end Primary

section Branches

/-- A second branch stands behind its keyword. -/
theorem elseBranch_places (hg : GrammarPlaces K g) :
    Places K G G i (elseBranch? g) fun j e => K.Perhaps (ignored G) i j e := by
  refine .state fun s => ?_
  split
  · refine skipNewlines_places.bind fun j₁ _ => hg.cond.bind fun j₂ e => .pure ?_
    exact fun he hbreaks _ => perhaps_present he hbreaks.le
  · refine skipNewlines_places.bind fun j₁ _ => advance_places.bind fun j₂ _ => ?_
    refine .atKind fun chained => .ite (hg.cond.bind fun j₃ e => .pure ?_) (.here fun start => ?_)
    · exact fun he _ _ ⟨hword, _⟩ hbreaks _ => perhaps_present he (hbreaks.le.trans hword)
    · refine (block_places hg).bind fun j₃ body => .spanFrom fun span => ?_
      refine newExprThen_places fun o => .pure fun ho hspan hbody hstart _ _ ⟨hword, _⟩
        hbreaks _ => ?_
      have covers := hspan.token hstart hbody.lt hbody.lies.inside
      refine perhaps_present (Tight.whole ?_) (hbreaks.le.trans hword)
      exact tight_expr (ho ▸ covers) hbody.ends (lies_bare rfl (row_single hbody.lies
        (Nat.le_refl j₂) (Nat.le_refl j₃) hbody.lies.inside) (List.forall_mem_nil _)
        trivial) trivial
  · exact .stay fun hi _ => perhaps_absent hi

/-- A condition begins with its keyword and ends with its last branch. -/
theorem cond_places (hg : GrammarPlaces K g) :
    Places K G G i (cond g) fun j e => K.Whole (ignored G) i j e := by
  refine .here fun start => advance_places.bind fun j₁ _ =>
    (headExpr_places hg).bind fun j₂ head => ?_
  refine (block_places hg).bind fun j₃ positive => (elseBranch_places hg).bind fun j₄ negative => ?_
  refine .spanFrom fun span => newExpr_places fun o ho => ?_
  rintro hspan hnegative hpositive hhead ⟨hfirst, _⟩ hstart
  have hbody := hpositive.lt.le.trans hnegative.lies.le
  have covers := hspan.token hstart (hfirst.trans_lt (hhead.lt.trans_le hbody))
    hnegative.lies.inside
  exact Tight.whole (tight_expr (ho ▸ covers) (hnegative.ends hpositive.ends)
    (lies_bare rfl (.cons hhead.lies hfirst (.cons hpositive.lies (Nat.le_refl j₂)
      (row_single hnegative.lies (Nat.le_refl j₃) (Nat.le_refl j₄) hnegative.lies.inside)))
      (List.forall_mem_nil _) trivial) trivial)

/-- The conditions of an entry stand in a row. -/
theorem entryConditions_places (hg : GrammarPlaces K g) (n : Nat) :
    Places K G G i (entryConditions g n) fun j xs => K.Lies (ignored G) i j (.ofList xs) := by
  induction n generalizing i with
  | zero => exact stalled_places
  | succ n ih =>
    unfold entryConditions
    refine hg.expr.bind fun j₁ x => (acceptSymbol_places .comma).bind fun j₂ found => .ite ?_ ?_
    · exact .stay fun hj _ hcomma hx => lies_cons hx.lies (lies_nil (Nat.le_refl j₂) hj) hcomma.le
    · refine skipNewlines_places.bind fun j₃ _ => ih.bind fun j₄ xs => .pure ?_
      exact fun hxs hbreaks _ hcomma hx => lies_cons hx.lies hxs (hcomma.le.trans hbreaks.le)

/-- An entry of a choice ends with its body. -/
theorem selectEntry_places (hg : GrammarPlaces K g) (n : Nat) :
    Places K G G i (selectEntry n g) fun j e => K.Whole (ignored G) i j e := by
  refine .here fun start => (accept_places (by nofun)).bind fun j₁ isElse => ?_
  extract_lets after
  have after_places (conditions : List Expr) (j₂ : Nat) : Places K G G j₂ (after conditions)
      fun j e => (K.tokenAt i).span = start →
        K.Lies (ignored G) i j₂ (.ofList conditions) → K.Whole (ignored G) i j e := by
    refine (expectSymbol_places .doubleArrow).bind fun j₃ _ => skipNewlines_places.bind
      fun j₄ _ => ?_
    refine hg.expr.bind fun j₅ body => .spanFrom fun span => origin_places fun o => .pure ?_
    rintro ho hspan hbody hbreaks ⟨_, harrow⟩ hstart hconditions
    have hle : j₂ ≤ j₄ := harrow.lt.le.trans hbreaks.le
    have covers := hspan.token hstart ((hconditions.le.trans hle).trans_lt hbody.lt) hbody.inside
    exact Tight.whole (tight_spanned rfl (ho ▸ covers) hbody.ends
      (.cons hconditions (Nat.le_refl i) (row_single hbody.lies hle (Nat.le_refl j₅) hbody.inside))
      (List.forall_mem_nil _) trivial)
  refine .ite ((after_places [] j₁).mono fun j e h _ helse hstart => ?_) ?_
  · obtain ⟨_, hsteps⟩ := helse.yes ‹_›
    exact h hstart (lies_nil helse.le hsteps.le)
  · refine (entryConditions_places hg n).bind fun j₂ conditions =>
      (after_places conditions j₂).mono ?_
    exact fun j e h hconditions _ helse hstart =>
      h hstart (hconditions.mono helse.le (Nat.le_refl j₂) hconditions.inside)

/-- Entries stand in a row. -/
theorem selectEntries_places (hg : GrammarPlaces K g) (bound n : Nat) :
    Places K G G i (selectEntries bound g n) fun j xs => K.Lies (ignored G) i j (.ofList xs) := by
  induction n generalizing i with
  | zero => exact stalled_places
  | succ n ih =>
    unfold selectEntries
    refine .atKind fun closes => .atKind fun ends => .ite ?_ ?_
    · exact .stay fun hi _ _ _ => lies_nil (Nat.le_refl i) hi
    · refine (selectEntry_places hg bound).bind fun j₁ x => skipSeparators_places.bind
        fun j₂ _ => ?_
      exact ih.bind fun j₃ xs => .pure fun hxs hskip hx _ _ _ => lies_cons hx.lies hxs hskip

/-- A choice begins with its keyword and ends with its brace. -/
theorem select_places (hg : GrammarPlaces K g) (n : Nat) :
    Places K G G i (select n g) fun j e => K.Whole (ignored G) i j e := by
  refine .here fun start => advance_places.bind fun j₁ _ => ?_
  refine (headExpr_places hg).bind fun j₂ subject => (expectSymbol_places .lBrace).bind
    fun j₃ _ => ?_
  refine (openGroup_places false).bind fun j₄ _ => skipSeparators_places.bind fun j₅ _ => ?_
  refine (selectEntries_places hg n n).bind fun j₆ entries => ?_
  refine (closeStrict_places .rBrace).bind fun j₇ _ => .spanFrom fun span => ?_
  refine newExpr_places fun o ho hspan ⟨hclose, hlast⟩ hentries hskip hopen ⟨_, hbrace⟩
    hsubject => ?_
  rintro ⟨hfirst, _⟩ hstart
  have hle : j₂ ≤ j₅ := (hbrace.lt.le.trans hopen).trans hskip
  have hlt : i < j₆ := ((hfirst.trans_lt hsubject.lt).trans_le hle).trans_le hentries.le
  have covers := hspan.token hstart (hlt.trans hlast.lt) hlast.le
  exact Tight.whole (tight_expr (ho ▸ covers) (hlast.ends (by rw [hclose]; nofun))
    (lies_bare rfl (.cons hsubject.lies hfirst (row_single hentries hle hlast.lt.le hlast.le))
      (List.forall_mem_nil _) trivial) trivial)

/-- A parameter of a lambda begins with its name. -/
theorem lambdaParam_places (hg : GrammarPlaces K g) :
    Places K G G i (lambdaParam g) fun j p => K.Whole (ignored G) i j p := by
  refine expectIdent_places.bind fun j₁ name => (acceptSymbol_places .colon).bind fun j₂ typed => ?_
  extract_lets after
  have after_places (t : Node (.maybe .type)) (j₃ : Nat) : Places K G G j₃ (after t) fun j p =>
      K.Named (ignored G) i j₁ name → K.Perhaps (ignored G) j₁ j₃ t →
      K.Whole (ignored G) i j p := by
    refine freshId_places fun id => .pure fun hname ht => ?_
    exact whole_bare rfl (hname.lt.trans_le ht.lies.le) (ht.ends hname.ends)
      (row_single ht.lies hname.lt.le (Nat.le_refl j₃) ht.lies.inside)
      (List.forall_mem_singleton.2 (hname.within (Nat.le_refl i) ht.lies.le)) trivial
  refine .ite (skipNewlines_places.bind fun j₃ _ => hg.type.bind fun j₄ t => ?_) ?_
  · refine (after_places (.present t) j₄).mono fun j p h ht hbreaks _ hcolon hname => ?_
    exact h hname (perhaps_present ht (hcolon.le.trans hbreaks.le))
  · refine (after_places .absent j₂).mono fun j p h hno hcolon hname => ?_
    obtain rfl := hcolon.no hno
    exact h hname (perhaps_absent hname.le)

/-- The parameters of a lambda between bars. -/
theorem lambdaParams_places (hg : GrammarPlaces K g) (n : Nat) :
    Places K G G i (lambdaParams n g) fun j ps => K.Lies (ignored G) i j (.ofList ps) := by
  refine (acceptSymbol_places .bitOr).bind fun j₁ bar => .ite ?_ ?_
  · refine skipNewlines_places.bind fun j₂ _ => ?_
    refine (commaList_places (fun _ => skipNewlines_places) (fun _ => lambdaParam_places hg) n
      false).bind fun j₃ r => ?_
    obtain ⟨params, trailing⟩ := r
    refine (expectSymbol_places .bitOr).bind fun j₄ _ => .pure ?_
    rintro ⟨_, hlast⟩ ⟨hparams, _⟩ hbreaks _ hbar
    exact hparams.mono (hbar.le.trans hbreaks.le) hlast.lt.le hlast.le
  · refine (expectSymbol_places .or).bind fun j₂ _ => .pure fun ⟨_, hlast⟩ hno hbar => ?_
    exact lies_nil (hbar.le.trans hlast.lt.le) hlast.le

/-- A lambda begins with its bar and ends with its body. -/
theorem lambda_places (hg : GrammarPlaces K g) (n : Nat) :
    Places K G G i (lambda n g) fun j e => K.Whole (ignored G) i j e := by
  refine .here fun start => (lambdaParams_places hg n).bind fun j₁ params => ?_
  refine (acceptSymbol_places .arrow).bind fun j₂ arrow => ?_
  extract_lets after
  have after_places (result : Node (.maybe .type)) (j₃ : Nat) : Places K G G j₃ (after result)
      fun j e => (K.tokenAt i).span = start → K.Lies (ignored G) i j₁ (.ofList params) →
        K.Lies (ignored G) j₁ j₃ result → K.Whole (ignored G) i j e := by
    refine skipNewlines_places.bind fun j₄ _ => hg.expr.bind fun j₅ body => ?_
    refine newExpr_places fun o ho hbody hbreaks hstart hparams hresult => ?_
    obtain ⟨m, hm, tight⟩ := hbody.tight
    have hle : i ≤ j₄ := (hparams.le.trans hresult.le).trans hbreaks.le
    have covers : K.Covers i m (start.cover body.span) := by
      rw [← hstart]
      exact (covers_token ((hle.trans_lt tight.lt).trans_le tight.lies.inside)).cover
        tight.exprSpan hle (hle.trans_lt tight.lt)
    exact ⟨hbody.ends, m, hm, tight_expr (ho ▸ covers) tight.ends (lies_bare rfl
      (.cons hparams (Nat.le_refl i) (.cons hresult (Nat.le_refl j₁)
        (row_single tight.lies hbreaks.le (Nat.le_refl m) tight.lies.inside)))
      (List.forall_mem_nil _) trivial) trivial⟩
  refine .ite (hg.type.bind fun j₃ t => ?_) ?_
  · refine (after_places (.present t) j₃).mono fun j e h ht _ harrow hparams hstart => ?_
    exact h hstart hparams (perhaps_present ht harrow.le).lies
  · refine (after_places .absent j₂).mono fun j e h hno harrow hparams hstart => ?_
    obtain rfl := harrow.no hno
    exact h hstart hparams (perhaps_absent hparams.inside).lies

/-- A handled block begins with its keyword and ends with that of the handler. -/
theorem tryCatch_places (hg : GrammarPlaces K g) :
    Places K G G i (tryCatch g) fun j e => K.Whole (ignored G) i j e := by
  refine .here fun start => advance_places.bind fun j₁ _ => (block_places hg).bind fun j₂ body => ?_
  refine .state fun s => ?_
  extract_lets after
  have after_places (j₃ : Nat) : Places K G G j₃ (after ()) fun j e =>
      (K.tokenAt i).span = start → i ≤ j₁ → K.Tight (ignored G) j₁ j₂ body → j₂ ≤ j₃ →
        K.Whole (ignored G) i j e := by
    refine (expectKeyword_places .catch_).bind fun j₄ _ => expectIdent_places.bind fun j₅ name => ?_
    refine (block_places hg).bind fun j₆ handling => freshId_places fun id => ?_
    refine .spanFrom fun span => newExpr_places fun o ho => ?_
    rintro hspan hhandling hname ⟨_, hword⟩ hstart hfirst hbody hskip
    have hle : j₂ ≤ j₄ := hskip.trans hword.lt.le
    have hhandler : K.Lies (ignored G) j₄ j₆ (.handler id name handling) :=
      lies_bare rfl (row_single hhandling.lies hname.lt.le (Nat.le_refl j₆) hhandling.lies.inside)
        (List.forall_mem_singleton.2 (hname.within (Nat.le_refl j₄) hhandling.lt.le)) trivial
    have covers := hspan.token hstart (hfirst.trans_lt (hbody.lt.trans_le (hle.trans hhandler.le)))
      hhandler.inside
    exact Tight.whole (tight_expr (ho ▸ covers) hhandling.ends (lies_bare rfl
      (.cons hbody.lies hfirst (row_single hhandler hle (Nat.le_refl j₆) hhandler.inside))
      (List.forall_mem_nil _) trivial) trivial)
  refine .ite (skipNewlines_places.bind fun j₃ _ => ?_) ?_
  · refine (after_places j₃).mono fun j e h hbreaks _ _ hbody ⟨hfirst, _⟩ hstart => ?_
    exact h hstart hfirst hbody hbreaks.le
  · refine (after_places j₂).mono fun j e h _ _ hbody ⟨hfirst, _⟩ hstart => ?_
    exact h hstart hfirst hbody (Nat.le_refl j₂)

/-- A value that may be missing. -/
theorem value_places (hg : GrammarPlaces K g) :
    Places K G G i (value? g) fun j e => K.Perhaps (ignored G) i j e :=
  .kind fun _ => .ite
    (hg.expr.bind fun _ _ => .pure fun he _ _ => perhaps_present he (Nat.le_refl i))
    (.stay fun hi _ _ => perhaps_absent hi)

/-- What a simple expression says stands behind its first token. -/
theorem simpleForm_places (hg : GrammarPlaces K g) :
    Places K G G i (simpleForm? g) fun j form? => ∀ form ∈ form?, K.Whole (ignored G) i j form ∧
      ∀ o, K.Covers i j o.span → K.Single (ignored G) (.expr o form) := by
  -- A form that is given by its word.
  have alone {form : ExprForm} {word : TokenKind} (hword : word ≠ .eof ∧ word ≠ .newline)
      (hspan : form.span? = none) (hparts : form.settings (ignored G) = [])
      (hidents : form.idents = []) (hform : K.Single (ignored G) form)
      (hsingle : ∀ j, K.kindAt i = word → K.Steps (ignored G) i j → ∀ o, K.Covers i j o.span →
        K.Single (ignored G) (.expr o form)) :
      Places K G G i (do advance; return some form) fun j form? => K.kindAt i = word →
        ∀ form ∈ form?, K.Whole (ignored G) i j form ∧
          ∀ o, K.Covers i j o.span → K.Single (ignored G) (.expr o form) := by
    refine advance_places.bind fun j _ => .pure fun ⟨_, hsteps⟩ hkind => ?_
    have steps := hsteps (hkind ▸ hword.1)
    rintro _ ⟨⟩
    refine ⟨whole_bare hspan steps.lt (steps.ends (hkind ▸ hword.2))
      (hparts ▸ .nil steps.lt.le steps.le) ?_ hform, hsingle j hkind steps⟩
    rw [hidents]
    exact List.forall_mem_nil _
  -- A form around what stands behind its word.
  have around {c : Category} {x : Node c} {form : ExprForm} {word : TokenKind} {j k : Nat}
      (hkind : K.kindAt i = word) (hword : word ≠ .eof ∧ word ≠ .newline)
      (hfirst : i ≤ j ∧ (K.kindAt i ≠ .eof → K.Steps (ignored G) i j))
      (hx : K.Perhaps (ignored G) j k x) (hspan : form.span? = none)
      (hparts : form.settings (ignored G) = [(⟨c, x⟩, ignored G)]) (hidents : form.idents = [])
      (hform : K.Single (ignored G) form) : K.Whole (ignored G) i k form := by
    have steps := hfirst.2 (hkind ▸ hword.1)
    refine whole_bare hspan (steps.lt.trans_le hx.lies.le) (hx.ends (steps.ends (hkind ▸ hword.2)))
      (hparts ▸ row_single hx.lies steps.lt.le (Nat.le_refl k) hx.lies.inside) ?_ hform
    rw [hidents]
    exact List.forall_mem_nil _
  refine .kind fun k => ?_
  split
  · rename_i l hl
    have hword : k ≠ .eof ∧ k ≠ .newline := by
      constructor <;> rintro rfl <;> cases hl
    exact alone hword rfl rfl rfl trivial fun j hkind steps o covers =>
      ⟨i, j, covers, hkind ▸ hl, steps⟩
  · split
    · exact alone ⟨nofun, nofun⟩ rfl rfl rfl trivial fun _ _ _ _ _ => trivial
    · exact alone ⟨nofun, nofun⟩ rfl rfl rfl trivial fun _ _ _ _ _ => trivial
    · refine (block_places hg).bind fun j body => .pure fun hbody _ => ?_
      rintro _ ⟨⟩
      exact ⟨whole_bare rfl hbody.lt hbody.ends (row_single hbody.lies (Nat.le_refl i)
        (Nat.le_refl j) hbody.lies.inside) (List.forall_mem_nil _) trivial, fun _ _ => trivial⟩
    · refine advance_places.bind fun j _ => (block_places hg).bind fun k body => .pure ?_
      intro hbody hfirst hkind
      rintro _ ⟨⟩
      exact ⟨around hkind ⟨nofun, nofun⟩ hfirst hbody.whole.perhaps rfl rfl rfl trivial,
        fun _ _ => trivial⟩
    · refine advance_places.bind fun j _ => (value_places hg).bind fun k value => .pure ?_
      intro hvalue hfirst hkind
      rintro _ ⟨⟩
      have steps := hfirst.2 (hkind ▸ nofun)
      exact ⟨around hkind ⟨nofun, nofun⟩ hfirst hvalue rfl rfl rfl trivial, fun o covers =>
        ⟨i, k, covers, hvalue.lies.holds.mono steps.lt (Nat.le_refl k)⟩⟩
    · exact alone ⟨nofun, nofun⟩ rfl rfl rfl trivial fun _ _ _ _ _ => trivial
    · refine advance_places.bind fun j _ => (value_places hg).bind fun k value => .pure ?_
      intro hvalue hfirst hkind
      rintro _ ⟨⟩
      have steps := hfirst.2 (hkind ▸ nofun)
      exact ⟨around hkind ⟨nofun, nofun⟩ hfirst hvalue rfl rfl rfl trivial, fun o covers =>
        ⟨i, k, covers, hvalue.lies.holds.mono steps.lt (Nat.le_refl k)⟩⟩
    · refine advance_places.bind fun j _ => hg.expr.bind fun k value => .pure ?_
      intro hvalue hfirst hkind
      rintro _ ⟨⟩
      exact ⟨around hkind ⟨nofun, nofun⟩ hfirst hvalue.perhaps rfl rfl rfl trivial,
        fun _ _ => trivial⟩
    · refine advance_places.bind fun j _ => hg.operand.bind fun k inner => .pure ?_
      intro hinner hfirst hkind
      rintro _ ⟨⟩
      exact ⟨around hkind ⟨nofun, nofun⟩ hfirst hinner.perhaps rfl rfl rfl trivial,
        fun _ _ => trivial⟩
    · exact .pure fun _ => nofun

/-- An operand without what stands around it. -/
theorem primary_places (hg : GrammarPlaces K g) (n : Nat) :
    Places K G G i (primary n g) fun j e => K.Whole (ignored G) i j e := by
  refine .kind fun k => ?_
  split
  · exact (pathOrConstruct_places hg n).mono fun _ _ h _ => h
  · exact (pathOrConstruct_places hg n).mono fun _ _ h _ => h
  · exact (parenExpr_places hg n).mono fun _ _ h _ => h
  · exact (listExpr_places hg n).mono fun _ _ h _ => h
  · exact (cond_places hg).mono fun _ _ h _ => h
  · exact (select_places hg n).mono fun _ _ h _ => h
  · exact (lambda_places hg n).mono fun _ _ h _ => h
  · exact (lambda_places hg n).mono fun _ _ h _ => h
  · exact (tryCatch_places hg).mono fun _ _ h _ => h
  · refine .here fun start => (simpleForm_places hg).bind fun j form? => ?_
    split
    · rename_i form
      refine .spanFrom fun span => newExpr_places fun o ho hspan hform hstart _ => ?_
      obtain ⟨hwhole, hsingle⟩ := hform form rfl
      have covers : K.Covers i j o.span := ho ▸ hspan.token hstart hwhole.lt hwhole.inside
      exact Tight.whole (tight_expr covers hwhole.ends hwhole.lies (hsingle o covers))
    · refine (reportExpected_places _).bind fun j _ => .here fun span => ?_
      exact newExpr_places fun _ _ _ h => h.elim

end Branches

section Operators

section Suffixes

variable {next : Expr → Parser Expr} {i₀ j₁ : Nat}

/-- A dot and a field behind an operand. -/
theorem memberSuffix_places (hnext : ∀ i e, Places K G G i (next e) fun j e' =>
      K.Whole (ignored G) i₀ i e → K.Whole (ignored G) i₀ j e') (e : Expr) (safe : Bool) :
    Places K G G j₁ (do
      advance
      skipNewlines
      let field ← expectIdent
      next (← newExpr (.member e field safe) (e.span.cover field.span))) fun j e' =>
        K.Whole (ignored G) i₀ i e → i ≤ j₁ → K.Whole (ignored G) i₀ j e' := by
  refine advance_places.bind fun j₂ _ => skipNewlines_places.bind fun j₃ _ => ?_
  refine expectIdent_places.bind fun j₄ field => newExprThen_places fun o => (hnext _ _).mono ?_
  rintro j e' h ho hfield hbreaks ⟨hdot, _⟩ he hle
  obtain ⟨m, hm, tight⟩ := he.tight
  have hm₃ : m ≤ j₃ := ((hm.trans hle).trans hdot).trans hbreaks.le
  have covers : K.Covers i₀ (j₃ + 1) (e.span.cover field.span) :=
    tight.exprSpan.cover hfield.covers (tight.lt.le.trans hm₃) (hm₃.trans (Nat.le_succ j₃))
  refine h ⟨hfield.ends, j₃ + 1, hfield.lt, tight_expr (ho ▸ covers)
    (ends_token covers.le (by rw [hfield.kind]; rintro ⟨⟩)) (lies_bare rfl
      (row_single tight.lies (Nat.le_refl i₀) (hm₃.trans (Nat.le_succ j₃)) covers.le)
      (List.forall_mem_singleton.2 ?_) trivial) trivial⟩
  exact ⟨j₃, j₃ + 1, (tight.lt.le.trans hm₃), Nat.le_refl _, hfield.covers⟩

/-- A group behind an operand. -/
theorem groupSuffix_places (hnext : ∀ i e, Places K G G i (next e) fun j e' =>
      K.Whole (ignored G) i₀ i e → K.Whole (ignored G) i₀ j e') {e : Expr} {c : Category}
    {p : Parser (Node c)} (make : Node c → ExprForm) {mark : Symbol}
    (hp : ∀ i, Places K (true :: G) (true :: G) i p fun j x => K.Lies true i j x)
    (hmake : ∀ x, (make x).span? = none ∧ (make x).idents = [] ∧
      (make x).settings (ignored G) = [(⟨_, e⟩, ignored G), (⟨_, x⟩, true)])
    (hsingle : ∀ x o, K.Single (ignored G) (make x) ∧ K.Single (ignored G) (.expr o (make x))) :
    Places K G G j₁ (do
      advance
      openGroup true
      let x ← p
      if !(← close mark) then newExpr .errorExpr e.span
      else next (← newExpr (make x) (← spanFrom e.span))) fun j e' =>
        K.Whole (ignored G) i₀ i e → i ≤ j₁ → K.Whole (ignored G) i₀ j e' := by
  refine advance_places.bind fun j₂ _ => (openGroup_places true).bind fun j₃ _ => ?_
  refine (hp j₃).bind fun j₄ x => ?_
  refine closeThen_places (fun _ => newExpr_places fun _ _ => trivial) fun j₅ => ?_
  refine .spanFrom fun span => newExprThen_places fun o => (hnext _ _).mono ?_
  rintro j e' h ho hspan hclose hlast hx hopen ⟨hfirst, _⟩ he hle
  obtain ⟨m, hm, tight⟩ := he.tight
  have hm₃ : m ≤ j₃ := ((hm.trans hle).trans hfirst).trans hopen
  have covers := hspan _ _ tight.exprSpan ((hm₃.trans hx.le).trans hlast.lt.le)
  obtain ⟨hplain, hidents, hsettings⟩ := hmake x
  refine h (Tight.whole (tight_expr (ho ▸ covers) (hlast.ends (by rw [hclose]; rintro ⟨⟩))
    (lies_bare hplain ?_ ?_ (hsingle x o).1) (hsingle x o).2))
  · rw [hsettings]
    exact .cons tight.lies (Nat.le_refl i₀) (row_single hx hm₃ hlast.lt.le hlast.le)
  · rw [hidents]
    exact List.forall_mem_nil _

/-- An operator behind its operand. -/
theorem operatorSuffix_places (hnext : ∀ i e, Places K G G i (next e) fun j e' =>
      K.Whole (ignored G) i₀ i e → K.Whole (ignored G) i₀ j e') (e : Expr) {op : PostfixOp}
    {k : TokenKind} (hop : PostfixOp.ofToken? k = some op) :
    Places K G G j₁ (do
      let span := e.span.cover (← here)
      advance
      next (← newExpr (.suffixed op e) span)) fun j e' =>
        K.kindAt j₁ = k → K.Whole (ignored G) i₀ i e → i ≤ j₁ → K.Whole (ignored G) i₀ j e' := by
  refine .here fun mark => advance_places.bind fun j₂ _ => newExprThen_places fun o => ?_
  refine (hnext _ _).mono fun j e' h ho ⟨_, hsteps⟩ hmark hkind he hle => ?_
  obtain ⟨m, hm, tight⟩ := he.tight
  have hword : k ≠ .eof ∧ k ≠ .newline := by
    constructor <;> rintro rfl <;> cases hop
  have steps := hsteps (hkind ▸ hword.1)
  have hm₁ : m ≤ j₁ + 1 := (hm.trans hle).trans (Nat.le_succ j₁)
  have covers : K.Covers i₀ (j₁ + 1) (e.span.cover mark) := by
    rw [← hmark]
    exact tight.exprSpan.cover (covers_token (steps.lt.trans_le steps.le))
      (tight.lt.le.trans (hm.trans hle)) hm₁
  exact h ⟨steps.ends (hkind ▸ hword.2), j₁ + 1, steps.lt, tight_expr (ho ▸ covers)
    (ends_token covers.le (hkind ▸ hword.2)) (lies_bare rfl (row_single tight.lies
      (Nat.le_refl i₀) hm₁ covers.le) (List.forall_mem_nil _) trivial) trivial⟩

end Suffixes

/-- What stands behind an operand. -/
theorem suffixes_places (hg : GrammarPlaces K g) (bound n i₀ : Nat) (e : Expr) :
    Places K G G i (suffixes bound g n e) fun j e' => K.Whole (ignored G) i₀ i e →
      K.Whole (ignored G) i₀ j e' := by
  induction n generalizing i e with
  | zero => exact stalled_places
  | succ n ih =>
    unfold suffixes
    refine .state fun s => ?_
    extract_lets behind start after
    have after_places (j₁ : Nat) : Places K G G j₁ (after ()) fun j e' =>
        K.Whole (ignored G) i₀ i e → i ≤ j₁ → (behind = .symbol .dot ∨ behind = .symbol .safeCall →
          K.kindAt j₁ = behind) → (¬(behind = .symbol .dot ∨ behind = .symbol .safeCall) → j₁ = i) →
            K.Whole (ignored G) i₀ j e' := by
      refine .kind fun k => ?_
      split
      · refine (groupSuffix_places (i := i) (@ih) (.call e) (fun _ => arguments_places hg bound)
          (fun _ => ⟨rfl, rfl, rfl⟩) fun _ _ => ⟨trivial, trivial⟩).mono ?_
        exact fun _ _ h _ he hle _ _ => h he hle
      · refine (groupSuffix_places (i := i) (@ih) (.index e) (fun _ => items_places hg bound)
          (fun _ => ⟨rfl, rfl, rfl⟩) fun _ _ => ⟨trivial, trivial⟩).mono ?_
        exact fun _ _ h _ he hle _ _ => h he hle
      · exact (memberSuffix_places (i := i) (@ih) e _).mono fun _ _ h _ he hle _ _ => h he hle
      · exact (memberSuffix_places (i := i) (@ih) e _).mono fun _ _ h _ he hle _ _ => h he hle
      · split
        · rename_i op hop
          refine (operatorSuffix_places (i := i) (@ih) e hop).mono ?_
          exact fun _ _ h hkind he hle _ _ => h hkind he hle
        · rename_i hdot hsafe _ _
          refine .pure fun hkind he hle hmember hplain => ?_
          obtain rfl := hplain fun hbehind => by
            have hk := hkind.symm.trans (hmember hbehind)
            rcases hbehind with h | h
            · exact hdot (hk.trans h)
            · exact hsafe (hk.trans h)
          exact he
    refine .ite ?_ ?_
    · refine skipTo_places.bind fun j₁ _ => (after_places j₁).mono ?_
      rintro j e' h ⟨hle, hkind⟩ hmember hs he
      exact h he hle (fun _ => (hkind s hs).symm) fun hno => absurd hmember hno
    · refine (after_places i).mono fun j e' h hno hs he => ?_
      exact h he (Nat.le_refl i) (fun hmember => absurd hmember hno) fun _ => rfl

/-- An operand with what stands in front of it and behind it. -/
theorem operand_places (hg : GrammarPlaces K g) (n : Nat) :
    Places K G G i (operand n g) fun j e => K.Whole (ignored G) i j e := by
  refine .state fun s => ?_
  dsimp only
  split
  · rename_i op _
    have prefixed (j₁ : Nat) : Places K G G j₁ (do
        advance
        let inner ← g .operand
        newExpr (.unary op inner) (s.current.span.cover inner.span)) fun j e =>
          i ≤ j₁ → K.At i G s → K.Whole (ignored G) i j e := by
      refine advance_places.bind fun j₂ _ => hg.operand.bind fun j₃ inner => ?_
      refine newExpr_places fun o ho hinner ⟨hfirst, _⟩ hle hs => ?_
      obtain ⟨m, hm, tight⟩ := hinner.tight
      have hlt : i < m := (hle.trans hfirst).trans_lt tight.lt
      have covers : K.Covers i m (s.current.span.cover inner.span) := by
        rw [hs.current]
        exact (covers_token (hlt.trans_le tight.lies.inside)).cover tight.exprSpan
          (hle.trans hfirst) hlt
      exact ⟨hinner.ends, m, hm, tight_expr (ho ▸ covers) tight.ends (lies_bare rfl
        (row_single tight.lies (hle.trans hfirst) (Nat.le_refl m) tight.lies.inside)
        (List.forall_mem_nil _) trivial) trivial⟩
    refine .ite (advance_places.bind fun j₁ _ => ?_) ?_
    · exact (prefixed j₁).mono fun _ _ h ⟨hfirst, _⟩ _ hs => h hfirst hs
    · exact (prefixed i).mono fun _ _ h _ hs => h (Nat.le_refl i) hs
  · refine (primary_places hg n).bind fun j₁ e => (suffixes_places hg n n i e).mono ?_
    exact fun _ _ h he _ => h he

/-- Two operands with an operator between them. -/
theorem whole_between {ignores : Bool} {i₀ i k j : Nat} {left right : Expr} {form : ExprForm}
    {o : Origin} (hleft : K.Whole ignores i₀ i left) (hright : K.Whole ignores k j right)
    (hle : i ≤ k) (ho : o.span = left.span.cover right.span) (hspan : form.span? = none)
    (hidents : form.idents = [])
    (hparts : form.settings ignores = [(⟨_, left⟩, ignores), (⟨_, right⟩, ignores)])
    (hform : K.Single ignores form) (hsingle : K.Single ignores (.expr o form)) :
    K.Whole ignores i₀ j (.expr o form) := by
  obtain ⟨m, hm, tight⟩ := hleft.tight
  obtain ⟨m', hm', tight'⟩ := hright.tight
  have hbefore : m ≤ k := hm.trans hle
  have covers : K.Covers i₀ m' o.span :=
    ho ▸ tight.exprSpan.cover tight'.exprSpan (tight.lt.le.trans hbefore)
      (hbefore.trans tight'.lt.le)
  refine ⟨hright.ends, m', hm', tight_expr covers tight'.ends (lies_bare hspan ?_ ?_ hform) hsingle⟩
  · rw [hparts]
    exact .cons tight.lies (Nat.le_refl i₀) (row_single tight'.lies hbefore (Nat.le_refl m')
      tight'.lies.inside)
  · rw [hidents]
    exact List.forall_mem_nil _

/-- A cast begins where its operand does. -/
theorem casts_places (hg : GrammarPlaces K g) (n i₀ : Nat) (e : Expr) :
    Places K G G i (casts g n e) fun j e' => K.Whole (ignored G) i₀ i e →
      K.Whole (ignored G) i₀ j e' := by
  induction n generalizing i e with
  | zero => exact stalled_places
  | succ n ih =>
    unfold casts
    refine .kind fun k => .ite ?_ (.pure fun _ _ he => he)
    refine advance_places.bind fun j₁ _ => hg.type.bind fun j₂ t => newExprThen_places fun o => ?_
    refine (ih _).mono fun j e' h ho ht hnext _ _ he => h ?_
    obtain ⟨hfirst, -⟩ := hnext
    obtain ⟨m, hm, tight⟩ := he.tight
    obtain ⟨m', hm', tight'⟩ := ht.tight
    have hbefore : m ≤ j₁ := hm.trans hfirst
    have covers := tight.exprSpan.cover tight'.typeSpan (tight.lt.le.trans hbefore)
      (hbefore.trans tight'.lt.le)
    exact ⟨ht.ends, m', hm', tight_expr (ho ▸ covers) tight'.ends (lies_bare rfl
      (.cons tight.lies (Nat.le_refl i₀) (row_single tight'.lies hbefore (Nat.le_refl m')
        tight'.lies.inside)) (List.forall_mem_nil _) trivial) trivial⟩

/-- A power covers both sides. -/
theorem power_places (hg : GrammarPlaces K g) (n : Nat) :
    Places K G G i (power n g) fun j e => K.Whole (ignored G) i j e := by
  refine (operand_places hg n).bind fun j₁ e => (casts_places hg n i e).bind fun j₂ left => ?_
  refine (acceptSymbol_places .power).bind fun j₃ found => .ite (.pure ?_) ?_
  · intro hno hpower hleft he
    obtain rfl := hpower.no (by simpa using hno)
    exact hleft he
  · refine skipNewlines_places.bind fun j₄ _ => hg.power.bind fun j₅ right => ?_
    refine newExpr_places fun o ho hright hbreaks _ hpower hleft he => ?_
    exact whole_between (hleft he) hright (hpower.le.trans hbreaks.le) ho rfl rfl rfl
      trivial trivial

/-- Only a custom operator is written with a name. -/
theorem idents_binary {op : BinaryOp} (h : op.leaves = []) (left right : Expr) :
    (Node.binary left op right).idents = [] := by
  cases op with
  | custom ident => cases h
  | _ => rfl

/-- An operation begins where its left side does. -/
theorem chain_places {level : Level} (hlevel : level.Plain) {tighter : Parser Expr}
    (htighter : ∀ i, Places K G G i tighter fun j e => K.Whole (ignored G) i j e)
    (n i₀ : Nat) (left : Expr) :
    Places K G G i (chain level tighter n left) fun j e => K.Whole (ignored G) i₀ i left →
      K.Whole (ignored G) i₀ j e := by
  induction n generalizing i left with
  | zero => exact stalled_places
  | succ n ih =>
    unfold chain
    refine .current fun t => ?_
    split
    · exact .pure fun _ he => he
    · rename_i op hop
      refine advance_places.bind fun j₁ _ => skipNewlines_places.bind fun j₂ _ => ?_
      extract_lets after
      have after_places : Places K G G j₂ (after ()) fun j e => op.leaves = [] →
          K.Whole (ignored G) i₀ i left → i ≤ j₂ → K.Whole (ignored G) i₀ j e := by
        refine (htighter j₂).bind fun j₃ right => newExprThen_places fun o => (ih _).mono ?_
        intro j e h ho hright hnames hleft hle
        exact h (whole_between hleft hright hle ho rfl (idents_binary hnames left right) rfl trivial
          trivial)
      cases level with
      | customNames => exact recordThen_places after_places
      | operators ops =>
        refine after_places.mono fun j e h hbreaks ⟨hfirst, _⟩ _ hleft => ?_
        exact h (hlevel op (List.mem_of_find?_eq_some hop)).1 hleft (hfirst.trans hbreaks.le)

/-- The operations of several levels. -/
theorem binary_places (hg : GrammarPlaces K g) (n : Nat) (levels : List Level)
    (hlevels : ∀ level ∈ levels, level.Plain) :
    Places K G G i (binary n g levels) fun j e => K.Whole (ignored G) i j e := by
  induction levels generalizing i with
  | nil => exact power_places hg n
  | cons level levels ih =>
    obtain ⟨hlevel, hothers⟩ := List.forall_mem_cons.1 hlevels
    refine (ih hothers).bind fun j e => ?_
    exact (chain_places hlevel (fun _ => ih hothers) n i e).mono fun _ _ h he => h he

/-- An assignment covers both sides, and any other expression itself. -/
theorem expr_places (hg : GrammarPlaces K g) (n : Nat) :
    Places K G G i (expr n g) fun j e => K.Whole (ignored G) i j e := by
  refine (binary_places hg n Level.all Level.all_plain).bind fun j₁ target => .kind fun k => ?_
  split
  · exact .pure fun _ htarget => htarget
  · refine advance_places.bind fun j₂ _ => skipNewlines_places.bind fun j₃ _ => ?_
    refine hg.expr.bind fun j₄ value => newExpr_places fun o ho hvalue hbreaks ⟨hop, _⟩ _
      htarget => ?_
    exact whole_between htarget hvalue (hop.trans hbreaks.le) ho rfl rfl rfl trivial trivial

end Operators

end FrontEnd.Parse
