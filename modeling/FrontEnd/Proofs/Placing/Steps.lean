import FrontEnd.Proofs.Placing.Calculus

/-!
# Where the single steps of the parser lead

A step over a token leads to the place behind it, and over the line breaks there where they are
ignored. A parser that records an error, or fails, has no runs that are looked at. Lists between
commas stand in a row; where such a list ends in front of a `>>`, something may end.
-/

namespace FrontEnd.Parse

open TokenStream

variable {α : Type} {K : TokenStream} {G G' : List Bool} {i : Nat} {Q : Nat → α → Prop}

section Failing

/-- Where something is missing there is no run to look at. -/
theorem failExpected_places (what : String) : Places K G G' i (failExpected what : Parser α) Q :=
  .broken fun _ _ _ hrun => nomatch hrun

/-- There is none where the parser is stuck. -/
theorem stalled_places : Places K G G' i (stalled : Parser α) Q :=
  .broken fun _ _ _ hrun => nomatch hrun

/-- Behind an error it does not matter what else is read. -/
theorem recordThen_places {e : SyntaxError} {f : Unit → Parser α} {R : Nat → α → Prop}
    (hf : Places K G G' i (f ()) R) : Places K G G' i (record e >>= f) Q :=
  .broken fun s _ _ hrun free => s.record_not_errorFree e (hf.free hrun free)

/-- There is none behind an error. -/
theorem reportExpected_places (what : String) :
    Places K G G i (reportExpected what) fun _ _ => False := by
  refine .broken fun s x s' hrun free => ?_
  obtain ⟨s₀, s₁, h₀, h₁⟩ := bind_ok hrun
  cases h₀
  dsimp only at h₁
  split at h₁
  · cases h₁
  · cases h₁
    exact ParserState.record_not_errorFree _ _ free

end Failing

section Moving

/-- Tokens are stepped over. -/
theorem skipWhile_places (p : TokenKind → Bool) :
    Places K G G i (modify (ParserState.skipWhile p)) fun j _ => i ≤ j :=
  .update (fun _ => rfl) fun _ hs =>
    let ⟨j, hij, there, _⟩ := hs.skipWhile p
    ⟨j, there, hij⟩

/-- The ends of statements are stepped over. -/
theorem skipTerminators_places : Places K G G i skipTerminators fun j _ => i ≤ j :=
  skipWhile_places _

/-- So is what stands between the entries of a list. -/
theorem skipSeparators_places : Places K G G i skipSeparators fun j _ => i ≤ j :=
  skipWhile_places _

/-- Only line breaks are stepped over. -/
theorem skipNewlines_places : Places K G G i skipNewlines fun j _ => K.Breaks i j :=
  .update (fun _ => rfl) fun _ hs =>
    let ⟨j, hij, there, hall, _⟩ := hs.skipWhile (· = .newline)
    ⟨j, there, hij, there.le, fun m hm hmj => of_decide_eq_true (hall m hm hmj)⟩

/-- Behind line breaks is the token that was seen there. -/
theorem skipTo_places : Places K G G i skipNewlines fun j _ =>
    i ≤ j ∧ ∀ s, K.At i G s → s.kindAfterNewlines = K.kindAt j := by
  refine .update (fun _ => rfl) fun s hs => ?_
  obtain ⟨j, hij, there, -⟩ := hs.skipWhile (· = .newline)
  refine ⟨j, there, hij, fun s' hs' => ?_⟩
  rw [← there.kind]
  unfold ParserState.kindAfterNewlines
  rw [hs'.rest, hs'.final, ← hs.rest, ← hs.final]
  rfl

/-- A group is entered, and line breaks behind its symbol may be stepped over. -/
theorem openGroup_places (ignores : Bool) :
    Places K G (ignores :: G) i (openGroup ignores) fun j _ => i ≤ j :=
  .update (fun s => by cases ignores <;> rfl) fun _ hs =>
    let ⟨j, hij, there⟩ := hs.openGroup ignores
    ⟨j, there, hij⟩

/-- A group is left where it is. -/
theorem closeGroup_places {ignores : Bool} :
    Places K (ignores :: G) G i closeGroup fun j _ => j = i :=
  .update (fun s => s.closeGroup_kept.2.2) fun _ hs => ⟨i, hs.closeGroup, rfl⟩

/-- A step over a token, if there is one. -/
theorem advance_places : Places K G G i advance fun j _ =>
    i ≤ j ∧ (K.kindAt i ≠ .eof → K.Steps (ignored G) i j) := by
  refine .update (fun s => s.advance_kept.2) fun s hs => ?_
  rcases Nat.lt_or_ge i K.tokens.length with hi | hi
  · obtain ⟨j, there, steps⟩ := hs.advance hi
    exact ⟨j, there, steps.lt.le, fun _ => steps⟩
  · exact ⟨i, hs.advance_end hi, Nat.le_refl i, fun hkind => absurd (kindAt_eof hi) hkind⟩

/-- A token that may be there. -/
theorem accept_places {k : TokenKind} (hk : k ≠ .eof) :
    Places K G G i (accept k) fun j found => K.Accepted (ignored G) k i j found := by
  refine .atKind fun found => .ite ?_ (.pure fun hno hat => ?_)
  · refine advance_places.bind fun j _ => .pure fun ⟨_, hsteps⟩ hfound hat => ?_
    have hkind := hat.1 hfound
    have hsteps := hsteps (by rw [hkind]; exact hk)
    exact ⟨fun _ => ⟨hkind, hsteps⟩, fun hno => absurd rfl hno, fun hno => absurd rfl hno⟩
  · exact ⟨nofun, fun _ => rfl, fun _ hkind => hno (hat.2 hkind)⟩

/-- A symbol that may be there. -/
theorem acceptSymbol_places (mark : Symbol) :
    Places K G G i (acceptSymbol mark) fun j found =>
      K.Accepted (ignored G) (.symbol mark) i j found :=
  accept_places (by nofun)

/-- A token that has to be there gives its span. -/
theorem expect_places {k : TokenKind} (hk : k ≠ .eof) :
    Places K G G i (expect k) fun j span =>
      K.kindAt i = k ∧ K.Steps (ignored G) i j ∧ span = (K.tokenAt i).span := by
  refine .atKind fun found => .ite (.here fun span => ?_) (failExpected_places _)
  refine advance_places.bind fun j _ => .pure fun ⟨_, hsteps⟩ hspan hfound hat => ?_
  have hkind := hat.1 hfound
  exact ⟨hkind, hsteps (by rw [hkind]; exact hk), hspan.symm⟩

/-- A symbol that has to be there. -/
theorem expectSymbol_places (mark : Symbol) :
    Places K G G i (discard (expectSymbol mark)) fun j _ =>
      K.kindAt i = .symbol mark ∧ K.Steps (ignored G) i j :=
  .map ((expect_places (by nofun)).mono fun _ _ h => ⟨h.1, h.2.1⟩)

/-- A keyword that has to be there. -/
theorem expectKeyword_places (word : Keyword) :
    Places K G G i (discard (expectKeyword word)) fun j _ =>
      K.kindAt i = .keyword word ∧ K.Steps (ignored G) i j :=
  .map ((expect_places (by nofun)).mono fun _ _ h => ⟨h.1, h.2.1⟩)

/-- A name is the token at its place. -/
theorem expectIdent_places :
    Places K G G i expectIdent fun j ident => K.Named (ignored G) i j ident := by
  refine .current fun t => ?_
  obtain ⟨kind, span⟩ := t
  cases kind with
  | ident name =>
    refine advance_places.bind fun j _ => .pure fun ⟨_, hsteps⟩ htoken => ⟨htoken, hsteps ?_⟩
    rw [kindAt, htoken]
    nofun
  | _ => exact failExpected_places _

/-- A group is left through its closing symbol, or an error is recorded. -/
theorem close_places {ignores : Bool} (mark : Symbol) :
    Places K (ignores :: G) G i (close mark) fun j closed =>
      closed = true ∧ K.kindAt i = .symbol mark ∧ K.Steps (ignored G) i j := by
  refine closeGroup_places.bind fun j _ => (acceptSymbol_places mark).bind fun k found => ?_
  refine .ite (.pure fun hfound haccept hj => ?_)
    ((reportExpected_places _).bind fun k _ => .pure False.elim)
  obtain rfl := hj
  exact ⟨rfl, haccept.yes hfound⟩

/-- What is done behind a group. Where its closing symbol is missing, an error is there. -/
theorem closeThen_places {ignores : Bool} {mark : Symbol} {lost p : Parser α}
    (hlost : ∀ j, Places K G G' j lost fun _ _ => True)
    (hp : ∀ j, Places K G G' j p fun k x =>
      K.kindAt i = .symbol mark → K.Steps (ignored G) i j → Q k x) :
    Places K (ignores :: G) G' i (do if !(← close mark) then lost else p) Q := by
  refine (close_places mark).bind fun j closed => .ite ?_ ?_
  · refine (hlost j).mono fun _ _ _ hmissing hclosed => ?_
    rw [hclosed.1] at hmissing
    cases hmissing
  · exact (hp j).mono fun _ _ h _ ⟨_, hkind, hsteps⟩ => h hkind hsteps

/-- A group is closed by its symbol. -/
theorem closeStrict_places {ignores : Bool} (mark : Symbol) :
    Places K (ignores :: G) G i (closeStrict mark) fun j _ =>
      K.kindAt i = .symbol mark ∧ K.Steps (ignored G) i j := by
  refine closeGroup_places.bind fun j _ => (expectSymbol_places mark).mono fun k _ h hj => ?_
  obtain rfl := hj
  exact h

end Moving

section Making

/-- A number is given out. -/
theorem freshId_places {f : NodeId → Parser α} (hf : ∀ id, Places K G G' i (f id) Q) :
    Places K G G' i (freshId >>= f) Q where
  free s x s' hrun free := by
    change f ⟨s.nextId⟩ { s with nextId := s.nextId + 1 } = _ at hrun
    have before := (hf ⟨s.nextId⟩).free hrun free
    exact before
  runs s x s' hs hrun free := by
    change f ⟨s.nextId⟩ { s with nextId := s.nextId + 1 } = _ at hrun
    have numbered : K.At i G { s with nextId := s.nextId + 1 } := hs.congr rfl rfl rfl rfl
    exact (hf ⟨s.nextId⟩).runs numbered hrun free

/-- A new node has the span it is given. -/
theorem origin_places {span : Span} {f : Origin → Parser α}
    (hf : ∀ o, Places K G G' i (f o) fun j x => o.span = span → Q j x) :
    Places K G G' i (origin span >>= f) Q := by
  unfold origin
  simp only [bind_assoc, pure_bind]
  exact freshId_places fun id => (hf ⟨id, span⟩).mono fun _ _ h => h rfl

/-- A new expression around its form. -/
theorem newExpr_places {form : ExprForm} {span : Span} {Q : Nat → Expr → Prop}
    (h : ∀ o, o.span = span → Q i (.expr o form)) : Places K G G i (newExpr form span) Q :=
  origin_places fun o => .pure (h o)

/-- A new type around its form. -/
theorem newType_places {form : TypeForm} {span : Span} {Q : Nat → TypeExpr → Prop}
    (h : ∀ o, o.span = span → Q i (.type o form)) : Places K G G i (newType form span) Q :=
  origin_places fun o => .pure (h o)

/-- A new expression that something is done with. -/
theorem newExprThen_places {form : ExprForm} {span : Span} {f : Expr → Parser α}
    (hf : ∀ o, Places K G G' i (f (.expr o form)) fun j x => o.span = span → Q j x) :
    Places K G G' i (newExpr form span >>= f) Q := by
  unfold newExpr
  simp only [bind_assoc, pure_bind]
  exact origin_places hf

end Making

section Lists

variable {c : Category}

/-- Elements between commas stand in a row. In front of a `>>` something may end behind them, or
there are none. -/
theorem commaList_places {closes : TokenKind → Bool} {gap : Parser Unit}
    {element : Parser (Node c)} (hgap : ∀ i, Places K G G i gap fun j _ => K.Breaks i j)
    (helement : ∀ i, Places K G G i element fun j x => K.Whole (ignored G) i j x) (n : Nat)
    (afterComma : Bool) :
    Places K G G i (commaList closes gap element n afterComma) fun j r =>
      K.Lies (ignored G) i j (.ofList r.1) ∧
        (K.kindAt j = .symbol .shr → i = j ∨ K.Ends (ignored G) j) := by
  induction n generalizing i afterComma with
  | zero => exact stalled_places
  | succ n ih =>
    refine .kind fun k => .ite (.stay fun hi _ _ => ⟨lies_nil (Nat.le_refl i) hi, fun _ =>
      .inl rfl⟩)
      ?_
    refine (helement i).bind fun j₁ x => (acceptSymbol_places .comma).bind fun j₂ found =>
      .ite ?_ ?_
    · refine (hgap j₂).bind fun j₃ _ => (ih true).bind fun j₄ r => .pure ?_
      rintro ⟨hlies, hends⟩ hbreaks hfound haccept hx _ _
      obtain ⟨hcomma, hsteps⟩ := haccept.yes hfound
      refine ⟨lies_cons hx.lies hlies (hsteps.lt.le.trans hbreaks.le), fun hshr => .inr ?_⟩
      rcases hends hshr with rfl | hends
      · exact (hsteps.ends (by rw [hcomma]; nofun)).behind hbreaks hshr
      · exact hends
    · refine .pure fun hmissing haccept hx _ _ => ?_
      obtain rfl := haccept.no hmissing
      exact ⟨lies_cons hx.lies (lies_nil (Nat.le_refl j₂) hx.inside) (Nat.le_refl j₂),
        fun _ => .inr hx.ends⟩

/-- Elements up to a closing symbol. -/
theorem commaListTo_places {mark : Symbol} {element : Parser (Node c)}
    (helement : ∀ i, Places K G G i element fun j x => K.Whole (ignored G) i j x) (n : Nat) :
    Places K G G i (commaListTo n mark element) fun j xs => K.Lies (ignored G) i j
    (.ofList xs) := by
  have hgap (i : Nat) : Places K G G i (pure () : Parser Unit) fun j _ => K.Breaks i j :=
    .stay fun hi => ⟨Nat.le_refl i, hi, fun m _ _ => by omega⟩
  exact .map ((commaList_places hgap helement n false).mono fun _ _ h => h.1)

end Lists

end FrontEnd.Parse
