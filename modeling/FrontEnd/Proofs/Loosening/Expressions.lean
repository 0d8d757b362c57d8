import FrontEnd.Proofs.Following.Operators
import FrontEnd.Proofs.Loosening.Steps

/-!
# Types and expressions on tokens with more line breaks

The parsers of types and expressions pass over line breaks behind their commas, their operators and
most colons, provided the parsers of the nonterminals do. Behind the colons of generic parameters
they do not, and no joint is there.
-/

namespace FrontEnd

/-- What is known where a nonterminal begins. A condition begins with a keyword of its own. -/
def Nonterminal.stance : {c : Category} → Nonterminal c → Stance
  | _, cond => .apart
  | _, _ => .firm

/-- The parsers of all nonterminals read more line breaks alike, and those behind which there are
joints show in their results where they start. -/
structure GrammarLoosens (K : Loosening) (g : Grammar) : Prop where
  runs : ∀ {c : Category} (x : Nonterminal c) {G : List Bool} {js : List FileId},
    Loosens K x.stance G G js (g x) fun a => a.jointsAfter js
  expr : Opens (g .expr)
  power : Opens (g .power)
  type : Opens (g .type)

namespace Parse

variable {K : Loosening} {G : List Bool} {js : List FileId} {g : Grammar}

/-- A block: line breaks between its statements have a meaning already. -/
theorem block_loosens (hg : GrammarLoosens K g) :
    Loosens K .firm G G js (block g) fun b => b.jointsAfter js := by
  refine (expect_loosens (by nofun)).bind fun start => (openGroup_loosens _).bind fun _ => ?_
  refine (hg.runs .stmts).bind fun stmts => (closeStrict_loosens (by nofun)).bind fun _ => ?_
  exact freshId_loosens.bind fun id => spanFrom_loosens fun span => .pure (Nat.le_refl _)

section Types

/-- Half of a token is used up. -/
theorem halfShift_moves (half : Bool) {a : Stance} :
    K.Moves a a G G fun s => { s with halfShift := half } where
  diagnostics _ := rfl
  stands _ hs := ⟨hs.final, hs.flat, hs.last, hs.groups_eq, by
    have holds := hs.holds
    cases a <;> exact holds⟩
  weight _ _ := Nat.le_refl _
  follows _ _ _ ys last fits hlast := ⟨ys, last, rfl, fits, hlast⟩

/-- A closing angle bracket, or half of a `>>`. -/
theorem closeAngle_loosens : Loosens K .firm G G js closeAngle fun _ => js := by
  refine .state (fun s ys last spread => ?_) fun s => ?_
  · rw [Loosening.Spread.kind spread]
    rfl
  · split
    · rename_i hkind
      exact hkind ▸ advance_loosens (by nofun)
    · split
      · rename_i hkind
        rw [hkind]
        refine .ite (.step (halfShift_moves false) (advance_loosens (by nofun))) ?_
        exact .known (.update (halfShift_moves true))
      · exact failExpected_loosens _

/-- Type arguments, where line breaks are stepped over behind the bracket and the commas. -/
theorem typeArgs_loosens (hg : GrammarLoosens K g) (n : Nat) :
    Loosens K .firm G G js (typeArgs n g) fun args => (Node.ofList args).jointsAfter js := by
  refine (expectSymbol_loosens (by nofun)).bind fun _ => skipNewlines_loosens.bind fun _ => ?_
  refine (commaList_loosens (Loosening.advance_loose ⟨nofun, nofun⟩) skipLoose_loosens
    (hg.runs .type) n false).bind fun args => ?_
  exact closeAngle_loosens.bind fun _ => .pure (Nat.le_refl _)

/-- The names of a path with their type arguments. -/
theorem segments_loosens (hg : GrammarLoosens K g) (bound : Nat) (inType : Bool) (n : Nat) :
    Loosens K .firm G G js (segments bound g inType n) fun names =>
      (Node.ofList names).jointsAfter js := by
  induction n generalizing js with
  | zero => exact stalled_loosens
  | succ n ih =>
    unfold segments
    refine expectIdent_loosens.bind fun ident => peek_loosens fun angle => ?_
    extract_lets after
    have after_loosens (direct : List TypeExpr) :
        Loosens K .firm G G ((Node.ofList direct).jointsAfter js) (after direct) fun names =>
          (Node.ofList names).jointsAfter js := by
      refine (acceptSymbol_loosens (by simp)).bind fun more => .ite (.pure (Nat.le_refl _)) ?_
      refine peek_loosens fun angle' => .ite ?_ (ih.bind fun names => .pure (Nat.le_refl _))
      refine .drop (Loosening.le_tally_jointsAfter (Node.ofList direct) js) ?_
      refine (typeArgs_loosens hg bound).bind fun args => ?_
      refine (acceptSymbol_loosens (by simp)).bind fun more => .ite ?_ (.pure (Nat.le_refl _))
      exact ih.bind fun names => .pure (Nat.le_refl _)
    refine .ite ?_ (after_loosens [])
    exact (typeArgs_loosens hg bound).bind after_loosens

/-- A path with its type arguments. -/
theorem path_loosens (hg : GrammarLoosens K g) (n : Nat) (inType : Bool) :
    Loosens K .firm G G js (path n g inType) fun p => p.jointsAfter js := by
  refine here_loosens (by nofun) fun start => ?_
  refine (acceptSymbol_loosens (by nofun)).bind fun global => ?_
  refine (segments_loosens hg n inType n).bind fun names => ?_
  exact spanFrom_loosens fun span => .pure (Nat.le_refl _)

/-- Types between parentheses have the same joints, whatever they form. -/
theorem jointsAfter_parenForm (items : List TypeExpr) (trailing : Bool) (js : List FileId) :
    (parenForm items trailing).jointsAfter js = (Node.ofList items).jointsAfter js := by
  unfold parenForm
  split <;> rfl

/-- An opening delimiter is stepped over, and a group is entered. -/
theorem enter_loosens {α : Type} {G' : List Bool} {k : TokenKind} {after : α → List FileId}
    {f : Parser α} (hk : k ≠ .symbol .comma) (ignored : Bool)
    (hf : Loosens K .firm (ignored :: G) G' js f after) :
    Loosens K (.known k) G G' js (do advance; openGroup ignored; f) after :=
  (advance_loosens hk).bind fun _ => (openGroup_loosens ignored).bind fun _ => hf

/-- Types in parentheses, or a function type; its arrow joins nothing. -/
theorem parenType_loosens (hg : GrammarLoosens K g) (n : Nat) :
    Loosens K (.known (.symbol .lParen)) G G js (parenType n g) fun t => t.jointsAfter js := by
  refine here_loosens (by nofun) fun start => enter_loosens (by nofun) true ?_
  refine (commaList_loosens (Loosening.advance_poised ⟨nofun, nofun⟩)
    (.poised (.pure (Nat.le_refl _))) (hg.runs .type) n false).bind fun r => ?_
  refine (close_loosens (by nofun)).bind fun closed => .ite ?_ ?_
  · exact newType_loosens (Loosening.le_tally_jointsAfter _ js)
  · refine (acceptSymbol_loosens (by nofun)).bind fun arrow => .ite ?_ ?_
    · exact (hg.runs .type).bind fun result => newType_loosens (Nat.le_refl _)
    · refine spanFrom_loosens fun span => newType_loosens (Nat.le_of_eq ?_)
      rw [jointsAfter_parenForm]

/-- A slice or an array. -/
theorem bracketType_loosens (hg : GrammarLoosens K g) :
    Loosens K (.known (.symbol .lBracket)) G G js (bracketType g) fun t => t.jointsAfter js := by
  refine here_loosens (by nofun) fun start => enter_loosens (by nofun) true ?_
  refine (hg.runs .type).bind fun item => (acceptSymbol_loosens (by nofun)).bind fun sized => ?_
  extract_lets after
  have after_loosens (form : TypeForm) :
      Loosens K .firm (true :: G) G (form.jointsAfter js) (after form) fun t =>
        t.jointsAfter js := by
    refine (close_loosens (by nofun)).bind fun closed => .ite ?_ ?_
    · exact newType_loosens (Loosening.le_tally_jointsAfter form js)
    · exact spanFrom_loosens fun span => newType_loosens (Nat.le_refl _)
  refine .ite ?_ (after_loosens (.sliceType item))
  exact (hg.runs .expr).bind fun size => after_loosens (.arrayType item size)

/-- A type. -/
theorem type_loosens (hg : GrammarLoosens K g) (n : Nat) :
    Loosens K .firm G G js (type n g) fun t => t.jointsAfter js := by
  have of_path : Loosens K .firm G G js (do let p ← path n g true; newType (.pathType p) p.pathSpan)
      fun t => t.jointsAfter js :=
    (path_loosens hg n true).bind fun p => newType_loosens (Nat.le_refl _)
  refine .kind fun k => ?_
  split
  · exact of_path.known
  · exact of_path.known
  · exact parenType_loosens hg n
  · exact bracketType_loosens hg
  · refine (reportExpected_loosens _).bind fun _ => here_loosens (by nofun) fun _ => ?_
    exact newType_loosens (Nat.le_refl _)

/-- A type behind a colon, behind which no line break is stepped over. -/
theorem typeAfterColon_loosens (hg : GrammarLoosens K g) :
    Loosens K .firm G G js (typeAfterColon? g) fun t => t.jointsAfter js :=
  (acceptSymbol_loosens (by nofun)).bind fun _ =>
    .ite ((hg.runs .type).bind fun _ => .pure (Nat.le_refl _)) (.pure (Nat.le_refl _))

/-- A value behind an equals sign that may be there. -/
theorem defaultValue_loosens (hg : GrammarLoosens K g) :
    Loosens K .firm G G js (defaultValue? g) fun e => e.jointsAfter js :=
  (acceptSymbol_loosens (by nofun)).bind fun _ =>
    .ite ((hg.runs .expr).bind fun _ => .pure (Nat.le_refl _)) (.pure (Nat.le_refl _))

/-- What a generic parameter is: a lifetime, a constant or a type. -/
theorem genericForm_loosens (hg : GrammarLoosens K g) :
    Loosens K .firm G G js (genericForm g) fun r => r.2.jointsAfter js := by
  refine current_loosens fun t => ?_
  split
  · exact (advance_loosens (by nofun)).bind fun _ => .pure (Nat.le_refl _)
  · refine .known ((accept_loosens (by nofun)).bind fun isConst => .ite ?_ ?_)
    · refine expectIdent_loosens.bind fun name => (expectSymbol_loosens (by nofun)).bind fun _ => ?_
      refine (hg.runs .type).bind fun t => (defaultValue_loosens hg).bind fun default => ?_
      exact .pure (Nat.le_refl _)
    · refine expectIdent_loosens.bind fun name => ?_
      exact (typeAfterColon_loosens hg).bind fun bound => .pure (Nat.le_refl _)

/-- A generic parameter. -/
theorem generic_loosens (hg : GrammarLoosens K g) :
    Loosens K .firm G G js (generic g) fun p => p.jointsAfter js := by
  refine here_loosens (by nofun) fun start => (genericForm_loosens hg).bind fun r => ?_
  exact spanFrom_loosens fun span => (origin_loosens span).bind fun o => .pure (Nat.le_refl _)

/-- Generic parameters between angle brackets. -/
theorem generics_loosens (hg : GrammarLoosens K g) (n : Nat) :
    Loosens K .firm G G js (generics n g) fun ps => ps.jointsAfter js := by
  refine (acceptSymbol_loosens (by nofun)).bind fun found => .ite (.pure (Nat.le_refl _)) ?_
  refine skipNewlines_loosens.bind fun _ => ?_
  refine (commaList_loosens (Loosening.advance_loose ⟨nofun, nofun⟩) skipLoose_loosens
    (generic_loosens hg) n false).bind fun r => ?_
  exact closeAngle_loosens.bind fun _ => .pure (Nat.le_refl _)

end Types

section Expressions

/-- Something that is joined, where it may be. -/
theorem joinedExpr_loosens (hg : GrammarLoosens K g) :
    Loosens K .poised G G js (g .expr) fun e => e.joinedAfter js :=
  (hg.runs .expr).joint hg.expr

/-- A type that may be joined to what was read last. -/
theorem joinedType_loosens (hg : GrammarLoosens K g) :
    Loosens K .poised G G js (g .type) fun t => t.joinedAfter js :=
  (hg.runs .type).joint hg.type

/-- How an expression in front of a body is read. -/
theorem headExpr_run {s s' : ParserState} {e : Expr}
    (h : g .expr { s with allowsBrace := false } = .ok e s') :
    headExpr g s = .ok e { s' with allowsBrace := s.allowsBrace } := by
  unfold headExpr
  dsimp only at h ⊢
  rw [h]

/-- Whether a brace may follow does not matter. -/
theorem headExpr_loosens (hg : GrammarLoosens K g) :
    Loosens K .firm G G js (headExpr g) fun e => e.jointsAfter js := by
  have inner : Loosens K .firm G G js (g .expr) fun e => e.jointsAfter js := hg.runs .expr
  refine ⟨fun s x s' hrun free => ?_, fun s x s' hs hrun free => ?_⟩
  all_goals
    unfold headExpr at hrun
    split at hrun
    swap
    · cases hrun
    rename_i e s₁ hexpr
    cases hrun
  · have free' := inner.free hexpr free
    exact free'
  · have inside : K.Stands .firm G { s with allowsBrace := false } :=
      ⟨hs.final, hs.flat, hs.last, hs.groups_eq, trivial⟩
    obtain ⟨stands, weight, follows⟩ := inner.runs inside hexpr free
    refine ⟨⟨stands.final, stands.flat, stands.last, stands.groups_eq, trivial⟩, weight,
      fun hall ys last fits hlast => ?_⟩
    obtain ⟨ys', last', hrun', spread, hlast'⟩ := follows hall fits hlast
    have hover := headExpr_run (s := s.over ys last) hrun'
    exact ⟨ys', last', hover, spread, hlast'⟩

/-- Behind a label and its colon, line breaks are passed over. -/
theorem label_loosens {α : Type} {G' : List Bool} {after : α → List FileId}
    {f : Option Ident → Parser α}
    (hsome : ∀ name, Loosens K .poised (true :: G) G' js (f (some name)) after)
    (hnone : Loosens K .firm (true :: G) G' js (f none) after) :
    Loosens K .firm (true :: G) G' js (label? >>= f) after := by
  unfold label?
  rw [bind_assoc]
  refine ahead_loosens (fun s ys last spread hnext => ?_) fun s => ?_
  · rw [Loosening.Spread.kind spread, hnext]
  by_cases hlabel : s.kind.isIdent = true ∧ s.nextKind = .symbol .colon
  · obtain ⟨name, span, hcurrent⟩ : ∃ name span, s.current = ⟨.ident name, span⟩ := by
      obtain ⟨hident, -⟩ := hlabel
      unfold ParserState.kind at hident
      generalize s.current = t at hident ⊢
      obtain ⟨kind, span⟩ := t
      cases kind with
      | ident name => exact ⟨name, span, rfl⟩
      | _ => exact absurd hident Bool.false_ne_true
    rw [if_pos hlabel, hlabel.2]
    refine Or.inr ⟨?_, by simp, by simp, advance >>= fun _ => f (some ⟨name, span⟩), ?_, ?_⟩
    · simp [ParserState.kind, hcurrent]
    · exact .step (Loosening.advance_poised (by simp)) (hsome _)
    · intro u hu
      exact bind_run (bind_run (expectIdent_run (hu.trans hcurrent)))
  · rw [if_neg hlabel]
    refine Or.inl ⟨fun ys last spread hnext => ?_, .known hnone⟩
    rw [Loosening.Spread.kind spread, if_neg]
    rintro ⟨-, hcolon⟩
    rw [hnext] at hcolon
    cases hcolon

/-- An argument; the colon of a label joins the value. -/
theorem argument_loosens (hg : GrammarLoosens K g) :
    Loosens K .firm (true :: G) (true :: G) js (argument g) fun a => a.jointsAfter js :=
  here_loosens (by nofun) fun _ => label_loosens
    (fun _ => (joinedExpr_loosens hg).bind fun _ => .pure (Nat.le_refl _))
    ((hg.runs .expr).bind fun _ => .pure (Nat.le_refl _))

/-- The arguments of a call. -/
theorem arguments_loosens (hg : GrammarLoosens K g) (n : Nat) :
    Loosens K .firm (true :: G) (true :: G) js (arguments n g) fun args => args.jointsAfter js :=
  .map (commaListTo_loosens (argument_loosens hg) n)

/-- The expressions of a list. -/
theorem items_loosens (hg : GrammarLoosens K g) (n : Nat) :
    Loosens K .firm (true :: G) (true :: G) js (items n g) fun es => es.jointsAfter js :=
  .map (commaListTo_loosens (hg.runs .expr) n)

/-- A field of a struct value; the colon behind its name joins the value. -/
theorem fieldInit_loosens (hg : GrammarLoosens K g) :
    Loosens K .firm (true :: G) (true :: G) js (fieldInit g) fun f => f.jointsAfter js := by
  refine (acceptSymbol_loosens (by nofun)).bind fun isBase => .ite ?_ ?_
  · exact (hg.runs .expr).bind fun value => .pure (Nat.le_refl _)
  · refine label_loosens (fun name => ?_) ?_
    · exact (joinedExpr_loosens hg).bind fun value => .pure (Nat.le_refl _)
    · exact (hg.runs .expr).bind fun value => .pure (Nat.le_refl _)

/-- A struct value, behind its path. -/
theorem construct_loosens (hg : GrammarLoosens K g) (n : Nat) (p : Path) :
    Loosens K (.known (.symbol .lBrace)) G G (p.jointsAfter js) (construct n g p) fun e =>
      e.jointsAfter js := by
  refine enter_loosens (by nofun) true ?_
  refine (commaListTo_loosens (fieldInit_loosens hg) n).bind fun fields => ?_
  refine (close_loosens (by nofun)).bind fun closed => .ite ?_ ?_
  · exact newExpr_loosens ((Loosening.le_tally_jointsAfter p js).trans
      (Loosening.le_tally_jointsAfter (Node.ofList fields) _))
  · exact spanFrom_loosens fun span => newExpr_loosens (Nat.le_refl _)

/-- A name, a path or a struct value. -/
theorem pathOrConstruct_loosens (hg : GrammarLoosens K g) (n : Nat) :
    Loosens K .firm G G js (pathOrConstruct n g) fun e => e.jointsAfter js := by
  refine (path_loosens hg n false).bind fun p => ?_
  refine .state (fun _ _ _ _ => rfl) fun s => .known ?_
  refine at_loosens (by nofun) (.ite (construct_loosens hg n p) (.known ?_)) ?_
  rotate_left
  rw [if_neg fun h => Bool.false_ne_true h.2]
  all_goals
    split
    · exact newExpr_loosens (Loosening.le_tally_jointsAfter p js)
    · exact newExpr_loosens (Nat.le_refl _)

/-- The elements of a tuple behind the first one. -/
theorem tupleRest_loosens (hg : GrammarLoosens K g) (n : Nat) :
    Loosens K .firm (true :: G) (true :: G) js (tupleRest g n) fun xs =>
      (Node.ofList xs).jointsAfter js := by
  induction n generalizing js with
  | zero => exact stalled_loosens
  | succ n ih =>
    unfold tupleRest
    refine accept_moves (Loosening.advance_poised (by simp)) (.poised ?_)
      (.pure (Nat.le_refl _))
    refine peek_loosens fun closes => .ite (.pure (Nat.le_refl _)) ?_
    exact (argument_loosens hg).bind fun x => ih.bind fun xs => .pure (Nat.le_refl _)

/-- A warning is no error. -/
theorem checkParens_loosens (inner : Expr) (span : Span) :
    Loosens K .firm G G js (checkParens inner span) fun _ => js := by
  unfold checkParens
  split
  · refine ⟨fun s x s' hrun free => ?_, fun s x s' hs hrun _ => ?_⟩
    · cases hrun
      simpa [ParserState.ErrorFree, ParserState.report, Diagnostic.anyError, Diagnostic.isError,
        Diagnostic.warning, Diagnostic.severity] using free
    · cases hrun
      exact ⟨⟨hs.final, hs.flat, hs.last, hs.groups_eq, trivial⟩, Nat.le_refl _,
        fun _ ys last fits hlast => ⟨ys, last, rfl, fits, hlast⟩⟩
  · exact .pure (Nat.le_refl _)

/-- A unit, an expression in parentheses or a tuple. -/
theorem parenExpr_loosens (hg : GrammarLoosens K g) (n : Nat) :
    Loosens K (.known (.symbol .lParen)) G G js (parenExpr n g) fun e => e.jointsAfter js := by
  refine here_loosens (by nofun) fun start => enter_loosens (by nofun) true ?_
  refine at_loosens (by nofun) ?_ ?_
  · refine closeGroup_loosens ((advance_loosens (by nofun)).bind fun _ => ?_)
    exact spanFrom_loosens fun span => newExpr_loosens (Nat.le_refl _)
  · refine (argument_loosens hg).bind fun first => ?_
    extract_lets after
    have after_loosens : Loosens K .firm (true :: G) G (first.jointsAfter js) (after ()) fun e =>
        e.jointsAfter js := by
      refine (tupleRest_loosens hg n).bind fun others => ?_
      refine (close_loosens (by nofun)).bind fun closed => .ite ?_ ?_
      · exact newExpr_loosens ((Loosening.le_tally_jointsAfter first js).trans
          (Loosening.le_tally_jointsAfter (Node.ofList others) _))
      · exact spanFrom_loosens fun span => newExpr_loosens (Nat.le_refl _)
    split
    · rename_i inner span
      refine peek_loosens fun comma => .ite ?_ after_loosens
      refine (close_loosens (by nofun)).bind fun closed => .ite ?_ ?_
      · exact newExpr_loosens (Loosening.le_tally_jointsAfter inner js)
      · refine spanFrom_loosens fun span => (checkParens_loosens inner span).bind fun _ => ?_
        exact newExpr_loosens (Nat.le_refl _)
    · exact after_loosens

/-- A list. -/
theorem listExpr_loosens (hg : GrammarLoosens K g) (n : Nat) :
    Loosens K (.known (.symbol .lBracket)) G G js (listExpr n g) fun e => e.jointsAfter js := by
  refine here_loosens (by nofun) fun start => enter_loosens (by nofun) true ?_
  refine (items_loosens hg n).bind fun values => ?_
  refine (close_loosens (by nofun)).bind fun closed => .ite ?_ ?_
  · exact newExpr_loosens (Loosening.le_tally_jointsAfter values js)
  · exact spanFrom_loosens fun span => newExpr_loosens (Nat.le_refl _)

/-- A second branch, found behind line breaks. -/
theorem elseBranch_loosens (hg : GrammarLoosens K g) :
    Loosens K .firm G G js (elseBranch? g) fun e => e.jointsAfter js := by
  have chained {k : TokenKind} (hk : k ≠ .symbol .comma) : Loosens K (.known k) G G js
      (do return .present (← g .cond)) fun e : Node (.maybe .expr) => e.jointsAfter js :=
    ((hg.runs .cond).apart hk).bind fun e => .pure (Nat.le_refl _)
  refine .statePast (fun s ys last spread => ?_) fun s => ?_
  · rw [Loosening.Spread.kindAfterNewlines spread]
  · split
    · rename_i hkind
      rw [hkind]
      exact .step Loosening.skipPast_moves (chained (by nofun))
    · rename_i hkind
      rw [hkind]
      refine .step Loosening.skipPast_moves ((advance_loosens (by nofun)).bind fun _ => ?_)
      refine at_loosens (by nofun) (chained (by nofun)) (here_loosens (by nofun) fun start => ?_)
      · refine (block_loosens hg).bind fun body => spanFrom_loosens fun span => ?_
        have made : Loosens K .firm G G (body.jointsAfter js) (newExpr (.blockExpr body) span)
            fun e => e.jointsAfter js := newExpr_loosens (Nat.le_refl _)
        exact made.bind fun e => .pure (Nat.le_refl _)
    · exact .past (.pure (Nat.le_refl _))

/-- A condition. -/
theorem cond_loosens (hg : GrammarLoosens K g) :
    Loosens K .apart G G js (cond g) fun e => e.jointsAfter js := by
  refine here_loosens (by nofun) fun start => .step Loosening.advance_apart ?_
  refine (headExpr_loosens hg).bind fun condition => (block_loosens hg).bind fun positive => ?_
  refine (elseBranch_loosens hg).bind fun negative => spanFrom_loosens fun span => ?_
  exact newExpr_loosens (Nat.le_refl _)

/-- The conditions of an entry, where line breaks are stepped over behind commas. -/
theorem entryConditions_loosens (hg : GrammarLoosens K g) (n : Nat) :
    Loosens K .firm G G js (entryConditions g n) fun xs => (Node.ofList xs).jointsAfter js := by
  induction n generalizing js with
  | zero => exact stalled_loosens
  | succ n ih =>
    unfold entryConditions
    refine (hg.runs .expr).bind fun x => accept_loose ?_ (.pure (Nat.le_refl _))
    exact skip_loosens (.poised (ih.bind fun xs => .pure (Nat.le_refl _)))

/-- An entry of a choice. -/
theorem selectEntry_loosens (hg : GrammarLoosens K g) (n : Nat) :
    Loosens K .firm G G js (selectEntry n g) fun e => e.jointsAfter js := by
  refine here_loosens (by nofun) fun start => (accept_loosens (by nofun)).bind fun isElse => ?_
  extract_lets after
  have after_loosens (conditions : List Expr) :
      Loosens K .firm G G ((Node.ofList conditions).jointsAfter js) (after conditions) fun e =>
        e.jointsAfter js := by
    refine (expectSymbol_loosens (by nofun)).bind fun _ => skipNewlines_loosens.bind fun _ => ?_
    refine (hg.runs .expr).bind fun body => spanFrom_loosens fun span => ?_
    exact (origin_loosens span).bind fun o => .pure (Nat.le_refl _)
  exact .ite (after_loosens []) ((entryConditions_loosens hg n).bind after_loosens)

/-- Entries one after the other. -/
theorem selectEntries_loosens (hg : GrammarLoosens K g) (bound n : Nat) :
    Loosens K .firm G G js (selectEntries bound g n) fun xs =>
      (Node.ofList xs).jointsAfter js := by
  induction n generalizing js with
  | zero => exact stalled_loosens
  | succ n ih =>
    unfold selectEntries
    refine peek_loosens fun closes => peek_loosens fun ends => .ite (.pure (Nat.le_refl _)) ?_
    refine (selectEntry_loosens hg bound).bind fun entry => ?_
    exact skipSeparators_loosens.bind fun _ => ih.bind fun entries => .pure (Nat.le_refl _)

/-- A choice. -/
theorem select_loosens (hg : GrammarLoosens K g) (n : Nat) :
    Loosens K (.known (.keyword .when)) G G js (select n g) fun e => e.jointsAfter js := by
  refine here_loosens (by nofun) fun start => (advance_loosens (by nofun)).bind fun _ => ?_
  refine (headExpr_loosens hg).bind fun subject => ?_
  refine (expectSymbol_loosens (by nofun)).bind fun _ => ?_
  refine (openGroup_loosens _).bind fun _ => skipSeparators_loosens.bind fun _ => ?_
  refine (selectEntries_loosens hg n n).bind fun entries => ?_
  exact (closeStrict_loosens (by nofun)).bind fun _ =>
    spanFrom_loosens fun span => newExpr_loosens (Nat.le_refl _)

/-- A parameter of a lambda; its colon joins the type. -/
theorem lambdaParam_loosens (hg : GrammarLoosens K g) :
    Loosens K .firm G G js (lambdaParam g) fun p => p.jointsAfter js := by
  refine expectIdent_loosens.bind fun name => ?_
  have after_loosens (t : Node (.maybe .type)) :
      Loosens K .firm G G (t.joinedAfter js) (do return Node.lambdaParam (← freshId) name t)
        fun p => p.jointsAfter js :=
    freshId_loosens.bind fun id => .pure (Nat.le_refl _)
  refine accept_loose (skip_loosens ?_) (after_loosens .absent)
  exact (joinedType_loosens hg).bind fun t => after_loosens (.present t)

/-- The parameters of a lambda. -/
theorem lambdaParams_loosens (hg : GrammarLoosens K g) (n : Nat) :
    Loosens K .firm G G js (lambdaParams n g) fun ps => (Node.ofList ps).jointsAfter js := by
  refine (acceptSymbol_loosens (by nofun)).bind fun bar => .ite ?_ ?_
  · refine skipNewlines_loosens.bind fun _ => ?_
    refine (commaList_loosens (Loosening.advance_loose ⟨nofun, nofun⟩) skipLoose_loosens
      (lambdaParam_loosens hg) n false).bind fun r => ?_
    exact (expectSymbol_loosens (by nofun)).bind fun _ => .pure (Nat.le_refl _)
  · exact (expectSymbol_loosens (by nofun)).bind fun _ => .pure (Nat.le_refl _)

/-- A lambda. -/
theorem lambda_loosens (hg : GrammarLoosens K g) (n : Nat) :
    Loosens K .firm G G js (lambda n g) fun e => e.jointsAfter js := by
  refine here_loosens (by nofun) fun start => (lambdaParams_loosens hg n).bind fun params => ?_
  refine (acceptSymbol_loosens (by nofun)).bind fun arrow => ?_
  extract_lets after
  have after_loosens (result : Node (.maybe .type)) : Loosens K .firm G G
      (result.jointsAfter ((Node.ofList params).jointsAfter js)) (after result) fun e =>
        e.jointsAfter js :=
    skipNewlines_loosens.bind fun _ => (hg.runs .expr).bind fun body =>
      newExpr_loosens (Nat.le_refl _)
  exact .ite ((hg.runs .type).bind fun t => after_loosens (.present t)) (after_loosens .absent)

/-- A block and its handler, which is found behind line breaks. -/
theorem tryCatch_loosens (hg : GrammarLoosens K g) :
    Loosens K (.known (.keyword .try_)) G G js (tryCatch g) fun e => e.jointsAfter js := by
  refine here_loosens (by nofun) fun start => (advance_loosens (by nofun)).bind fun _ => ?_
  refine (block_loosens hg).bind fun body => ?_
  refine .statePast (fun s ys last spread => ?_) fun s => .past ?_
  · rw [Loosening.Spread.kindAfterNewlines spread]
  · extract_lets after
    have after_loosens : Loosens K .firm G G (body.jointsAfter js) (after ()) fun e =>
        e.jointsAfter js := by
      refine (expectKeyword_loosens _).bind fun _ => expectIdent_loosens.bind fun binding => ?_
      refine (block_loosens hg).bind fun handling => freshId_loosens.bind fun id => ?_
      exact spanFrom_loosens fun span => newExpr_loosens (Nat.le_refl _)
    exact .ite (skipNewlines_loosens.bind fun _ => after_loosens) after_loosens

/-- A value that may be missing. -/
theorem value_loosens (hg : GrammarLoosens K g) :
    Loosens K .firm G G js (value? g) fun e => e.jointsAfter js :=
  .kind fun _ => .known (.ite ((hg.runs .expr).bind fun _ => .pure (Nat.le_refl _))
    (.pure (Nat.le_refl _)))

/-- An expression that begins with a keyword or is a literal. -/
theorem simpleForm_loosens (hg : GrammarLoosens K g) :
    Loosens K .firm G G js (simpleForm? g) fun form? =>
      (Node.ofList form?.toList).jointsAfter js := by
  have alone {k : TokenKind} (hk : k ≠ .symbol .comma) (form : ExprForm)
      (h : K.tally (form.jointsAfter js) ≤ K.tally js) : Loosens K (.known k) G G js
      (do advance; return some form) fun form? => (Node.ofList form?.toList).jointsAfter js :=
    (advance_loosens hk).bind fun _ => .pure h
  refine .kind fun k => ?_
  split
  · rename_i literal hliteral
    exact alone (by rintro rfl; cases hliteral) _ (Nat.le_refl _)
  · split
    · exact alone (by nofun) _ (Nat.le_refl _)
    · exact alone (by nofun) _ (Nat.le_refl _)
    · exact .known ((block_loosens hg).bind fun body => .pure (Nat.le_refl _))
    · exact (advance_loosens (by nofun)).bind fun _ => (block_loosens hg).bind fun body =>
        .pure (Nat.le_refl _)
    · exact (advance_loosens (by nofun)).bind fun _ => (value_loosens hg).bind fun value =>
        .pure (Nat.le_refl _)
    · exact alone (by nofun) _ (Nat.le_refl _)
    · exact (advance_loosens (by nofun)).bind fun _ => (value_loosens hg).bind fun value =>
        .pure (Nat.le_refl _)
    · exact (advance_loosens (by nofun)).bind fun _ => (hg.runs .expr).bind fun value =>
        .pure (Nat.le_refl _)
    · exact (advance_loosens (by nofun)).bind fun _ => (hg.runs .operand).bind fun inner =>
        .pure (Nat.le_refl _)
    · exact .known (.pure (Nat.le_refl _))

/-- An operand without what stands around it. -/
theorem primary_loosens (hg : GrammarLoosens K g) (n : Nat) :
    Loosens K .firm G G js (primary n g) fun e => e.jointsAfter js := by
  refine .kind fun k => ?_
  split
  · exact (pathOrConstruct_loosens hg n).known
  · exact (pathOrConstruct_loosens hg n).known
  · exact parenExpr_loosens hg n
  · exact listExpr_loosens hg n
  · exact (cond_loosens hg).apart (by nofun)
  · exact select_loosens hg n
  · exact (lambda_loosens hg n).known
  · exact (lambda_loosens hg n).known
  · exact tryCatch_loosens hg
  · refine here_loosens (by nofun) fun start => .known ?_
    refine (simpleForm_loosens hg).bind fun form? => ?_
    split
    · exact spanFrom_loosens fun span => newExpr_loosens (Nat.le_refl _)
    · refine (reportExpected_loosens _).bind fun _ => here_loosens (by nofun) fun span => ?_
      exact newExpr_loosens (Nat.le_refl _)

end Expressions

section Operators

/-- What stands behind an operand, which is read already. -/
theorem suffixes_loosens (hg : GrammarLoosens K g) (bound n : Nat) (e : Expr) :
    Loosens K .firm G G (e.jointsAfter js) (suffixes bound g n e) fun e => e.jointsAfter js := by
  induction n generalizing e with
  | zero => exact stalled_loosens
  | succ n ih =>
    have made (form : ExprForm) (span : Span) : Loosens K .firm G G (form.jointsAfter js)
        (newExpr form span >>= suffixes bound g n) fun e => e.jointsAfter js := by
      have new : Loosens K .firm G G (form.jointsAfter js) (newExpr form span) fun e =>
          e.jointsAfter js := newExpr_loosens (Nat.le_refl _)
      exact new.bind ih
    have lost {c : Category} (x : Node c) :
        K.tally js ≤ K.tally (x.jointsAfter (e.jointsAfter js)) :=
      (Loosening.le_tally_jointsAfter e js).trans (Loosening.le_tally_jointsAfter x _)
    unfold suffixes
    refine .statePast (fun s ys last spread => ?_) fun s => .past ?_
    · rw [Loosening.Spread.kindAfterNewlines spread]
    extract_lets behind start after
    have after_loosens : Loosens K .firm G G (e.jointsAfter js) (after ()) fun e =>
        e.jointsAfter js := by
      refine .kind fun k => ?_
      split
      · refine enter_loosens (by simp) true ((arguments_loosens hg bound).bind fun args => ?_)
        refine (close_loosens (by simp)).bind fun closed => .ite (newExpr_loosens (lost args)) ?_
        exact spanFrom_loosens fun span => made (.call e args) span
      · refine enter_loosens (by simp) true ((items_loosens hg bound).bind fun indices => ?_)
        refine (close_loosens (by simp)).bind fun closed =>
          .ite (newExpr_loosens (lost indices)) ?_
        exact spanFrom_loosens fun span => made (.index e indices) span
      · refine (advance_loosens (by simp)).bind fun _ => skipNewlines_loosens.bind fun _ => ?_
        refine expectIdent_loosens.bind fun field => ?_
        extract_lets safe
        exact made (.member e field safe) _
      · refine (advance_loosens (by simp)).bind fun _ => skipNewlines_loosens.bind fun _ => ?_
        refine expectIdent_loosens.bind fun field => ?_
        extract_lets safe
        exact made (.member e field safe) _
      · split
        · rename_i op hop
          refine here_loosens (by simp) fun span => ?_
          refine (advance_loosens (by rintro rfl; cases hop)).bind fun _ => ?_
          exact made (.suffixed op e) _
        · exact .known (.pure (Nat.le_refl _))
    exact .ite (skipNewlines_loosens.bind fun _ => after_loosens) after_loosens

/-- An operand with what stands in front of it and behind it. -/
theorem operand_loosens (hg : GrammarLoosens K g) (n : Nat) :
    Loosens K .firm G G js (operand n g) fun e => e.jointsAfter js := by
  have behind {k : TokenKind} (hk : k ≠ .symbol .comma) (op : PrefixOp) (start : Span) :
      Loosens K (.known k) G G js (do
        advance
        let inner ← g .operand
        newExpr (.unary op inner) (start.cover inner.span)) fun e => e.jointsAfter js :=
    (advance_loosens hk).bind fun _ => (hg.runs .operand).bind fun inner =>
      newExpr_loosens (Nat.le_refl _)
  refine ahead_loosens (fun s ys last spread hnext => ?_) fun s => ?_
  · rw [Loosening.Spread.kind spread, Loosening.Spread.current spread, hnext]
  by_cases hborrow : s.kind = .symbol .ampersand ∧ s.nextKind = .keyword .mut_
  · refine Or.inr ?_
    rw [hborrow.1, hborrow.2]
    refine ⟨nofun, nofun, nofun, _, behind (by nofun) .borrowMut s.current.span, fun u _ => rfl⟩
  · refine Or.inl ⟨fun ys last spread hnext => ?_, ?_⟩
    · have hsame : PrefixOp.ofTokens? s.kind (s.over ys last).nextKind =
          PrefixOp.ofTokens? s.kind s.nextKind := by
        refine PrefixOp.ofTokens?_congr fun hk => ?_
        rw [hnext]
        exact ⟨fun h => absurd ⟨hk, h⟩ hborrow, nofun⟩
      rw [Loosening.Spread.kind spread, Loosening.Spread.current spread, hsame]
    · dsimp only
      split
      · rename_i op hop
        rw [if_neg (by rintro rfl; exact hborrow (PrefixOp.borrowMut_tokens hop))]
        exact behind (by intro h; rw [h] at hop; cases hop) op _
      · exact .known ((primary_loosens hg n).bind (suffixes_loosens hg n n))

/-- Casts behind an expression. -/
theorem casts_loosens (hg : GrammarLoosens K g) (n : Nat) (e : Expr) :
    Loosens K .firm G G (e.jointsAfter js) (casts g n e) fun e => e.jointsAfter js := by
  induction n generalizing e with
  | zero => exact stalled_loosens
  | succ n ih =>
    unfold casts
    refine .kind fun k => ?_
    split
    · rename_i hk
      refine (advance_loosens (by rintro rfl; simp at hk)).bind fun _ => ?_
      refine (hg.runs .type).bind fun t => ?_
      have new (safe : Bool) (span : Span) : Loosens K .firm G G (t.jointsAfter (e.jointsAfter js))
          (newExpr (.cast e t safe) span) fun e => e.jointsAfter js :=
        newExpr_loosens (Nat.le_refl _)
      exact (new _ _).bind ih
    · exact .known (.pure (Nat.le_refl _))

/-- A power; its operator joins the right side. -/
theorem power_loosens (hg : GrammarLoosens K g) (n : Nat) :
    Loosens K .firm G G js (power n g) fun e => e.jointsAfter js := by
  refine (operand_loosens hg n).bind fun e => (casts_loosens hg n e).bind fun left => ?_
  refine accept_loose (skip_loosens ?_) (.pure (Nat.le_refl _))
  exact ((hg.runs .power).joint hg.power).bind fun right => newExpr_loosens (Nat.le_refl _)

/-- Operations of one level; each operator joins the operand behind it. -/
theorem chain_loosens {level : Level} (hlevel : level.Written) {tighter : Parser Expr}
    (htighter : ∀ {js}, Loosens K .firm G G js tighter fun e => e.jointsAfter js)
    (hopens : Opens tighter) (n : Nat) (left : Expr) : Loosens K .firm G G (left.jointsAfter js)
      (chain level tighter n left) fun e => e.jointsAfter js := by
  induction n generalizing left with
  | zero => exact stalled_loosens
  | succ n ih =>
    unfold chain
    refine current_loosens fun t => ?_
    split
    · exact .known (.pure (Nat.le_refl _))
    · rename_i op hop
      obtain ⟨hinner, hnewline⟩ := inner_of_op hlevel hop
      refine .step (Loosening.advance_loose ⟨hnewline, hinner.2.2⟩) (skip_loosens ?_)
      extract_lets after
      have after_loosens :
          Loosens K .poised G G (left.jointsAfter js) (after ()) fun e => e.jointsAfter js := by
        refine (htighter.joint hopens).bind fun right => ?_
        have new (span : Span) : Loosens K .firm G G (right.joinedAfter (left.jointsAfter js))
            (newExpr (.binary left op right) span) fun e => e.jointsAfter js :=
          newExpr_loosens (Nat.le_refl _)
        exact (new _).bind ih
      split
      · exact recordThen_loosens _ after_loosens
      · exact after_loosens

/-- The operations of several levels. -/
theorem binary_loosens (hg : GrammarLoosens K g) (n : Nat) (levels : List Level)
    (hlevels : ∀ level ∈ levels, level.Written) :
    Loosens K .firm G G js (binary n g levels) fun e => e.jointsAfter js := by
  induction levels generalizing js with
  | nil => exact power_loosens hg n
  | cons level levels ih =>
    obtain ⟨hlevel, hlevels⟩ := List.forall_mem_cons.1 hlevels
    have tighter {js : List FileId} : Loosens K .firm G G js (binary n g levels) _ := ih hlevels
    exact tighter.bind (chain_loosens hlevel tighter (binary_opens n levels) n)

/-- An assignment, whose operator joins the value, or what is no assignment. -/
theorem expr_loosens (hg : GrammarLoosens K g) (n : Nat) :
    Loosens K .firm G G js (expr n g) fun e => e.jointsAfter js := by
  refine (binary_loosens hg n Level.all Level.all_written).bind fun target => .kind fun k => ?_
  split
  · exact .known (.pure (Nat.le_refl _))
  · rename_i op hop
    have hk : k ≠ .newline ∧ k ≠ .eof :=
      ⟨(by rintro rfl; cases hop), (AssignOp.inner_of_ofToken hop).2.2⟩
    refine .step (Loosening.advance_loose hk) (skip_loosens ?_)
    exact (joinedExpr_loosens hg).bind fun value => newExpr_loosens (Nat.le_refl _)

end Operators

end Parse

end FrontEnd
