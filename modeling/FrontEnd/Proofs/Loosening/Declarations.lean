import FrontEnd.Proofs.Following.Files
import FrontEnd.Proofs.Loosening.Expressions

/-!
# Declarations and statements on tokens with more line breaks

Declarations, statements and whole files pass over line breaks behind commas, operators and the
colons of variables, fields, parameters and supertypes. A statement that is read without errors ends
at the same token, since nothing is put in there.
-/

namespace FrontEnd

namespace ParserState

/-- A statement without errors ends in front of a terminator, or something that stands in for
one. -/
theorem settle_errorFree {s before : ParserState} (free : (s.settle before).ErrorFree) :
    s.ErrorFree ∧ (s.kind.terminates = true ∨ s.kind = .eof ∨ s.kind = .symbol .rBrace) := by
  unfold settle at free
  split at free
  · rename_i hcount
    have hfree : s.ErrorFree := by
      unfold ErrorFree at free ⊢
      rwa [((s.restore before).synchronize_kept before).2] at free
    have hnone := (errorFree_iff s).1 hfree
    omega
  · unfold terminate at free
    split at free
    · rename_i hterminates
      exact ⟨free, Or.inl (decide_eq_true hterminates)⟩
    · split at free
      · rename_i hends
        exact ⟨free, Or.inr hends⟩
      · refine absurd ?_ (s.record_not_errorFree (s.expectedError "';' or new-line"))
        unfold ErrorFree at free ⊢
        rwa [(synchronize_kept _ before).2] at free

/-- Where no terminator is at hand, none is passed over. -/
theorem atStatement_self {s : ParserState} (h : s.kind.terminates = false) : s.atStatement = s := by
  obtain ⟨rest, final⟩ := s
  cases rest with
  | nil => rfl
  | cons x xs =>
    have hx : x.kind.terminates = false := h
    unfold atStatement skipWhile
    rw [List.dropWhile_cons, List.takeWhile_cons, hx]
    rfl

/-- Then nothing but terminators is passed over. -/
theorem settle_eq {s before : ParserState} (free : s.ErrorFree)
    (hends : s.kind.terminates = true ∨ s.kind = .eof ∨ s.kind = .symbol .rBrace) :
    s.settle before = s.atStatement := by
  have hcount := (errorFree_iff s).1 free
  unfold settle terminate
  rw [if_neg (by omega)]
  split
  · rfl
  · rename_i hnone
    rw [if_pos (hends.resolve_left fun h => hnone (of_decide_eq_true h)), atStatement_self]
    exact decide_eq_false hnone

end ParserState

namespace Parse

variable {K : Loosening} {G : List Bool} {js : List FileId} {g : Grammar}

section Declarations

/-- An attribute with its arguments. -/
theorem attr_loosens (hg : GrammarLoosens K g) (n : Nat) :
    Loosens K (.known (.symbol .at_)) G G js (attr n g) fun a => a.jointsAfter js := by
  refine here_loosens (by nofun) fun start => (advance_loosens (by nofun)).bind fun _ => ?_
  refine expectIdent_loosens.bind fun name => (acceptSymbol_loosens (by nofun)).bind fun found => ?_
  extract_lets after
  have after_loosens (args : Node (.many .argument)) :
      Loosens K .firm G G (args.jointsAfter js) (after args) fun a => a.jointsAfter js :=
    spanFrom_loosens fun span => .pure (Nat.le_refl _)
  refine .ite ?_ (after_loosens .nil)
  refine (openGroup_loosens _).bind fun _ => (arguments_loosens hg n).bind fun args => ?_
  exact (closeStrict_loosens (by nofun)).bind fun _ => after_loosens args

/-- Attributes one after the other. -/
theorem attrs_loosens (hg : GrammarLoosens K g) (bound n : Nat) :
    Loosens K .firm G G js (attrs bound g n) fun xs => (Node.ofList xs).jointsAfter js := by
  induction n generalizing js with
  | zero => exact stalled_loosens
  | succ n ih =>
    unfold attrs
    refine at_loosens (by simp) ((attr_loosens hg bound).bind fun x => ?_) (.pure (Nat.le_refl _))
    exact skipTerminators_loosens.bind fun _ => ih.bind fun xs => .pure (Nat.le_refl _)

/-- Modifiers, which have no joints. -/
theorem modifiers_loosens (n : Nat) : Loosens K .firm G G js (modifiers n) fun _ => js := by
  induction n with
  | zero => exact stalled_loosens
  | succ n ih =>
    unfold modifiers
    refine .kind fun k => ?_
    split
    · rename_i m hm
      refine (advance_loosens (by rintro rfl; cases hm)).bind fun _ => ?_
      exact ih.bind fun ms => .pure (Nat.le_refl _)
    · exact .known (.pure (Nat.le_refl _))

/-- A parameter of a function; its colon joins the type. -/
theorem param_loosens (hg : GrammarLoosens K g) :
    Loosens K .firm (true :: G) (true :: G) js (param g) fun p => p.jointsAfter js := by
  refine here_loosens (by nofun) fun start => expectIdent_loosens.bind fun name => ?_
  refine expectSymbol_moves (Loosening.advance_poised ⟨nofun, nofun⟩) ?_
  refine (joinedType_loosens hg).bind fun t => (defaultValue_loosens hg).bind fun default => ?_
  refine spanFrom_loosens fun span => (origin_loosens span).bind fun o => .pure ?_
  exact Nat.le_of_eq (Loosening.tally_joinedAfter_first t default js).symm

/-- The parameters of a function. -/
theorem params_loosens (hg : GrammarLoosens K g) (n : Nat) :
    Loosens K .firm G G js (params n g) fun ps => ps.jointsAfter js := by
  refine (expectSymbol_loosens (by nofun)).bind fun _ => (openGroup_loosens _).bind fun _ => ?_
  refine (commaListTo_loosens (param_loosens hg) n).bind fun ps => ?_
  exact (closeStrict_loosens (by nofun)).bind fun _ => .pure (Nat.le_refl _)

/-- The body of a function: a block, an expression or nothing. -/
theorem funcBody_loosens (hg : GrammarLoosens K g) :
    Loosens K .firm G G js (funcBody? g) fun b => b.jointsAfter js := by
  refine .kind fun k => ?_
  split
  · exact .known ((block_loosens hg).bind fun body => .pure (Nat.le_refl _))
  · refine (advance_loosens (by nofun)).bind fun _ => skipNewlines_loosens.bind fun _ => ?_
    exact (hg.runs .expr).bind fun e => .pure (Nat.le_refl _)
  · exact .known (.pure (Nat.le_refl _))

/-- A function. -/
theorem func_loosens (hg : GrammarLoosens K g) (n : Nat) :
    Loosens K .firm G G js (func n g) fun f => f.jointsAfter js := by
  refine (expectKeyword_loosens _).bind fun _ => expectIdent_loosens.bind fun name => ?_
  refine (generics_loosens hg n).bind fun generics => (params_loosens hg n).bind fun params => ?_
  refine (typeAfterColon_loosens hg).bind fun result => ?_
  exact (funcBody_loosens hg).bind fun body => .pure (Nat.le_refl _)

/-- Supertypes behind a comma. -/
theorem superTypes_loosens (hg : GrammarLoosens K g) (n : Nat) :
    Loosens K .loose G G js (superTypes g n) fun ts => (Node.ofList ts).jointsAfter js := by
  induction n generalizing js with
  | zero => exact stalled_loosens
  | succ n ih =>
    unfold superTypes
    refine skip_loosens (.poised ((hg.runs .type).bind fun t => ?_))
    exact accept_loose (ih.bind fun ts => .pure (Nat.le_refl _)) (.pure (Nat.le_refl _))

/-- The first one stands behind the colon. -/
theorem supers_loosens (hg : GrammarLoosens K g) (n : Nat) :
    Loosens K .firm G G js (supers n g) fun ts => ts.joinedAfter js := by
  have behind : Loosens K .loose G G js (superTypes g n) fun ts =>
      (Node.ofList ts).joinedAfter js := by
    cases n with
    | zero => exact stalled_loosens
    | succ n =>
      refine skip_loosens ((joinedType_loosens hg).bind fun t => ?_)
      refine accept_loose ((superTypes_loosens hg n).bind fun ts => .pure ?_)
        (.pure (Nat.le_refl _))
      exact Nat.le_of_eq (Loosening.tally_joinedAfter_first t (Node.ofList ts) js).symm
  exact accept_loose (behind.bind fun ts => .pure (Nat.le_refl _)) (.pure (Nat.le_refl _))

/-- Members between braces. -/
theorem memberBlock_loosens (hg : GrammarLoosens K g) (inClass : Bool) :
    Loosens K .firm G G js (memberBlock g inClass) fun ms => ms.jointsAfter js := by
  refine (expectSymbol_loosens (by nofun)).bind fun _ => (openGroup_loosens _).bind fun _ => ?_
  refine (hg.runs (.members inClass)).bind fun members => ?_
  exact (closeStrict_loosens (by nofun)).bind fun _ => .pure (Nat.le_refl _)

/-- A class or a struct; the colon joins its supertypes. -/
theorem classDecl_loosens (hg : GrammarLoosens K g) (n : Nat) :
    Loosens K .apart G G js (classDecl n g) fun f => f.jointsAfter js := by
  have named (isStruct : Bool) : Loosens K .firm G G js (do
      let name ← expectIdent
      let generics ← generics n g
      let supers ← if isStruct then pure .nil else supers n g
      return Node.classItem isStruct name generics supers (← memberBlock g true)) fun f =>
        f.jointsAfter js := by
    refine expectIdent_loosens.bind fun name => (generics_loosens hg n).bind fun generics => ?_
    extract_lets after
    have after_loosens (supers : Node (.many .type)) :
        Loosens K .firm G G (supers.joinedAfter (generics.jointsAfter js)) (after supers) fun f =>
          f.jointsAfter js := by
      refine (memberBlock_loosens hg true).bind fun members => .pure ?_
      exact Nat.le_of_eq (Loosening.tally_joinedAfter_first supers members _).symm
    exact .ite (after_loosens .nil) ((supers_loosens hg n).bind after_loosens)
  exact at_loosens (by nofun) ((advance_loosens (by nofun)).bind fun _ => named true)
    (.step Loosening.advance_apart (named false))

/-- A trait; so does its colon. -/
theorem traitDecl_loosens (hg : GrammarLoosens K g) (n : Nat) :
    Loosens K .firm G G js (traitDecl n g) fun f => f.jointsAfter js := by
  refine (expectKeyword_loosens _).bind fun _ => expectIdent_loosens.bind fun name => ?_
  refine (generics_loosens hg n).bind fun generics => (supers_loosens hg n).bind fun supers => ?_
  refine (memberBlock_loosens hg false).bind fun members => .pure ?_
  exact Nat.le_of_eq (Loosening.tally_joinedAfter_first supers members _).symm

/-- An object; so does its colon. -/
theorem objectDecl_loosens (hg : GrammarLoosens K g) (n : Nat) :
    Loosens K .firm G G js (objectDecl n g) fun f => f.jointsAfter js := by
  refine (expectKeyword_loosens _).bind fun _ => expectIdent_loosens.bind fun name => ?_
  refine (supers_loosens hg n).bind fun supers => ?_
  refine (memberBlock_loosens hg false).bind fun members => .pure ?_
  exact Nat.le_of_eq (Loosening.tally_joinedAfter_first supers members _).symm

/-- Another name for a type; the equals sign joins nothing. -/
theorem aliasDecl_loosens (hg : GrammarLoosens K g) (n : Nat) :
    Loosens K .firm G G js (aliasDecl n g) fun f => f.jointsAfter js := by
  refine (expectKeyword_loosens _).bind fun _ => expectIdent_loosens.bind fun name => ?_
  refine (generics_loosens hg n).bind fun generics => (expectSymbol_loosens (by nofun)).bind
    fun _ => ?_
  exact skipNewlines_loosens.bind fun _ => (hg.runs .type).bind fun t => .pure (Nat.le_refl _)

/-- A constructor. -/
theorem initDecl_loosens (hg : GrammarLoosens K g) (n : Nat) :
    Loosens K .firm G G js (initDecl n g) fun f => f.jointsAfter js :=
  (expectKeyword_loosens _).bind fun _ => (params_loosens hg n).bind fun _ =>
    (block_loosens hg).bind fun _ => .pure (Nat.le_refl _)

/-- A field of an entry; its colon joins the type. -/
theorem entryField_loosens (hg : GrammarLoosens K g) :
    Loosens K .firm (true :: G) (true :: G) js (entryField g) fun f => f.jointsAfter js :=
  expectIdent_loosens.bind fun _ => expectSymbol_moves (Loosening.advance_poised ⟨nofun, nofun⟩)
    ((joinedType_loosens hg).bind fun _ => .pure (Nat.le_refl _))

/-- What stands behind the name of an entry. -/
theorem enumEntryForm_loosens (hg : GrammarLoosens K g) (n : Nat) :
    Loosens K .firm G G js (enumEntryForm n g) fun f => f.jointsAfter js := by
  refine .kind fun k => ?_
  split
  · exact (advance_loosens (by nofun)).bind fun _ => (hg.runs .expr).bind fun value =>
      .pure (Nat.le_refl _)
  · refine enter_loosens (by nofun) true ((commaListTo_loosens (hg.runs .type) n).bind
      fun types => ?_)
    exact (closeStrict_loosens (by nofun)).bind fun _ => .pure (Nat.le_refl _)
  · refine enter_loosens (by nofun) true ((commaListTo_loosens (entryField_loosens hg) n).bind
      fun fields => ?_)
    exact (closeStrict_loosens (by nofun)).bind fun _ => .pure (Nat.le_refl _)
  · exact .known (.pure (Nat.le_refl _))

/-- An entry of an enumeration. -/
theorem enumEntry_loosens (hg : GrammarLoosens K g) (n : Nat) :
    Loosens K .firm G G js (enumEntry n g) fun e => e.jointsAfter js := by
  refine here_loosens (by nofun) fun start => expectIdent_loosens.bind fun name => ?_
  refine (enumEntryForm_loosens hg n).bind fun form => spanFrom_loosens fun span => ?_
  exact (origin_loosens span).bind fun o => .pure (Nat.le_refl _)

/-- Entries one after the other, between which line breaks have no meaning. -/
theorem enumEntries_loosens (hg : GrammarLoosens K g) (bound n : Nat) :
    Loosens K .firm G G js (enumEntries bound g n) fun es => (Node.ofList es).jointsAfter js := by
  induction n generalizing js with
  | zero => exact stalled_loosens
  | succ n ih =>
    unfold enumEntries
    refine .kind fun k => .known (.ite (.pure (Nat.le_refl _)) ?_)
    refine (enumEntry_loosens hg bound).bind fun e => ?_
    refine .kind fun k => .known (.ite (.pure (Nat.le_refl _)) ?_)
    exact (skipWhile_loosens rfl).bind fun _ => ih.bind fun es => .pure (Nat.le_refl _)

/-- An enumeration. -/
theorem enumDecl_loosens (hg : GrammarLoosens K g) (n : Nat) :
    Loosens K .firm G G js (enumDecl n g) fun f => f.jointsAfter js := by
  refine (expectKeyword_loosens _).bind fun _ => expectIdent_loosens.bind fun name => ?_
  refine (generics_loosens hg n).bind fun generics => (expectSymbol_loosens (by nofun)).bind
    fun _ => ?_
  refine (openGroup_loosens _).bind fun _ => skipSeparators_loosens.bind fun _ => ?_
  refine (enumEntries_loosens hg n n).bind fun entries => ?_
  refine (acceptSymbol_loosens (by nofun)).bind fun found => ?_
  extract_lets after
  have after_loosens (members : Node (.many .item)) : Loosens K .firm (false :: G) G
      (members.jointsAfter ((Node.ofList entries).jointsAfter (generics.jointsAfter js)))
        (after members) fun f => f.jointsAfter js := by
    refine closeGroup_loosens (skipTerminators_loosens.bind fun _ => ?_)
    exact (expectSymbol_loosens (by nofun)).bind fun _ => .pure (Nat.le_refl _)
  exact .ite ((hg.runs (.members false)).bind after_loosens) (after_loosens .nil)

/-- A declaration behind its modifiers. -/
theorem itemForm_loosens (hg : GrammarLoosens K g) (n : Nat) (inClass : Bool) :
    Loosens K .firm G G js (itemForm n g inClass) fun f => f.jointsAfter js := by
  refine .kind fun k => ?_
  split
  · exact (func_loosens hg n).known
  · exact (classDecl_loosens hg n).apart (by nofun)
  · exact (classDecl_loosens hg n).apart (by nofun)
  · exact (enumDecl_loosens hg n).known
  · exact (traitDecl_loosens hg n).known
  · exact (aliasDecl_loosens hg n).known
  · exact (objectDecl_loosens hg n).known
  · have init : Loosens K .firm G G js (initDecl n g) fun f => f.jointsAfter js :=
      initDecl_loosens hg n
    exact .ite (here_loosens (by nofun) fun span => recordThen_loosens _ init) init.known
  · exact failExpected_loosens _

/-- A declaration behind the attributes that are read already. -/
theorem itemAfter_loosens (hg : GrammarLoosens K g) (n : Nat) (inClass : Bool) (start : Span)
    (earlier : List (Node .attr)) (modifiers : List Modifier) :
    Loosens K .firm G G ((Node.ofList earlier).jointsAfter js)
      (itemAfter n g inClass start earlier modifiers) fun i => i.jointsAfter js := by
  refine (attrs_loosens hg n n).bind fun attrs => (modifiers_loosens n).bind fun more => ?_
  refine (itemForm_loosens hg n inClass).bind fun form => freshId_loosens.bind fun id => ?_
  refine spanFrom_loosens fun span => .pure (Nat.le_of_eq ?_)
  rw [← Node.jointsAfter_ofList_append earlier attrs js]
  rfl

/-- A declaration with its attributes. -/
theorem item_loosens (hg : GrammarLoosens K g) (n : Nat) :
    Loosens K .firm G G js (item n g) fun i => i.jointsAfter js :=
  here_loosens (by nofun) fun start => itemAfter_loosens hg n false start [] []

/-- A field; its colon joins the type, its equals sign nothing. -/
theorem field_loosens (hg : GrammarLoosens K g) :
    Loosens K .firm G G js (field g) fun f => f.jointsAfter js := by
  refine .kind fun k => ?_
  extract_lets kind? after
  have after_loosens : Loosens K .firm G G js (after ()) fun f => f.jointsAfter js := by
    refine expectIdent_loosens.bind fun name => ?_
    refine expectSymbol_moves (Loosening.advance_loose ⟨nofun, nofun⟩) (skip_loosens ?_)
    refine (joinedType_loosens hg).bind fun t => ?_
    refine (acceptSymbol_loosens (by nofun)).bind fun found => .ite ?_ (.pure ?_)
    · refine skipNewlines_loosens.bind fun _ => (hg.runs .expr).bind fun e => .pure ?_
      exact Nat.le_of_eq (Loosening.tally_joinedAfter_first t (Node.present e) js).symm
    · exact Nat.le_of_eq (Loosening.tally_joinedAfter_first t (Node.absent (c := .expr)) js).symm
  split
  · rename_i hkind
    exact (advance_loosens (by rintro rfl; cases hkind)).bind fun _ => after_loosens
  · exact .known after_loosens

/-- A member of a declaration. -/
theorem member_loosens (hg : GrammarLoosens K g) (n : Nat) (inClass : Bool) :
    Loosens K .firm G G js (member n g inClass) fun i => i.jointsAfter js := by
  refine here_loosens (by nofun) fun start => (attrs_loosens hg n n).bind fun attrs => ?_
  refine (modifiers_loosens n).bind fun modifiers => .kind fun k => .known (.ite ?_ ?_)
  · refine (field_loosens hg).bind fun form => spanFrom_loosens fun span => ?_
    exact (origin_loosens span).bind fun o => .pure (Nat.le_refl _)
  · exact itemAfter_loosens hg n inClass start attrs modifiers

/-- What is read without errors ends with its terminator. -/
theorem recovering_errorFree {α : Type} {p : Parser α} {s s' : ParserState} {x? : Option α}
    (hrun : recovering p s = .ok x? s') (free : s'.ErrorFree) : ∃ x s₁, x? = some x ∧
      p s = .ok x s₁ ∧ s' = s₁.atStatement ∧ s₁.ErrorFree ∧
        (s₁.kind.terminates = true ∨ s₁.kind = .eof ∨ s₁.kind = .symbol .rBrace) := by
  rw [recovering_run] at hrun
  cases hp : p s with
  | ok x s₁ =>
    rw [hp] at hrun
    obtain ⟨rfl, rfl, -⟩ := finished_ok hrun
    obtain ⟨free₁, hends⟩ := ParserState.settle_errorFree free
    exact ⟨x, s₁, rfl, rfl, ParserState.settle_eq free₁ hends, free₁, hends⟩
  | error e s₁ =>
    rw [hp] at hrun
    dsimp only at hrun
    split at hrun
    · cases hrun
    · obtain ⟨-, rfl, -⟩ := finished_ok hrun
      exact absurd (ParserState.settle_errorFree free).1 (s₁.record_not_errorFree e)

/-- What ends so is read without errors. -/
theorem recovering_ok {α : Type} {p : Parser α} {s s₁ : ParserState} {x : α}
    (hp : p s = .ok x s₁) (free : s₁.ErrorFree)
    (hends : s₁.kind.terminates = true ∨ s₁.kind = .eof ∨ s₁.kind = .symbol .rBrace) :
    recovering p s = .ok (some x) s₁.atStatement := by
  have hcount : s₁.atStatement.errorCount = 0 := (ParserState.errorFree_iff s₁).1 free
  rw [recovering_run, hp]
  dsimp only
  unfold finished
  rw [ParserState.settle_eq free hends, if_neg]
  rw [hcount]
  decide

/-- A statement or member with its terminator. -/
theorem recovering_loosens {c : Category} {p : Parser (Node c)}
    (hp : Loosens K .firm G G js p fun x => x.jointsAfter js) :
    Loosens K .firm G G js (recovering p) fun x? => (Node.ofList x?.toList).jointsAfter js where
  free s x? s' hrun free := by
    obtain ⟨x, s₁, -, hrun₁, -, free₁, -⟩ := recovering_errorFree hrun free
    exact hp.free hrun₁ free₁
  runs s x? s' hs hrun free := by
    obtain ⟨x, s₁, rfl, hrun₁, rfl, free₁, hends⟩ := recovering_errorFree hrun free
    have hskip : K.Moves .firm .firm G G (ParserState.skipWhile TokenKind.terminates) :=
      Loosening.skipWhile_moves rfl
    obtain ⟨stands, weight, follows⟩ := hp.runs hs hrun₁ free₁
    have hmoved : K.weight s₁.atStatement.rest ≤ K.weight s₁.rest := hskip.weight stands
    refine ⟨hskip.stands stands, (Nat.add_le_add_left hmoved _).trans weight,
      fun hall ys last fits hlast => ?_⟩
    have hkept : K.weight s₁.rest ≤ K.weight s₁.atStatement.rest :=
      Nat.le_of_add_le_add_left (weight.trans hall)
    obtain ⟨ys₁, last₁, hover, spread, hlast₁⟩ :=
      follows (hall.trans (Nat.add_le_add_left hmoved _)) fits hlast
    obtain ⟨ys', last', hmoves, spread', hlast'⟩ := hskip.follows stands hkept spread hlast₁
    refine ⟨ys', last', ?_, spread', hlast'⟩
    have hsame : (s₁.over ys₁ last₁).kind = s₁.kind := Loosening.Spread.kind spread
    rw [recovering_ok hover free₁ (hsame.symm ▸ hends)]
    exact congrArg (EStateM.Result.ok (some x)) hmoves

/-- Members one after the other. -/
theorem memberList_loosens (hg : GrammarLoosens K g) (bound : Nat) (inClass : Bool) (n : Nat) :
    Loosens K .firm G G js (memberList bound g inClass n) fun ms =>
      (Node.ofList ms).jointsAfter js := by
  induction n generalizing js with
  | zero => exact stalled_loosens
  | succ n ih =>
    unfold memberList
    refine peek_loosens fun closes => peek_loosens fun ends => .ite (.pure (Nat.le_refl _)) ?_
    refine (recovering_loosens (member_loosens hg bound inClass)).bind fun member? => ?_
    refine skipTerminators_loosens.bind fun _ => ih.bind fun members => .pure (Nat.le_of_eq ?_)
    rw [Node.jointsAfter_ofList_append]

/-- The members of a declaration. -/
theorem members_loosens (hg : GrammarLoosens K g) (n : Nat) (inClass : Bool) :
    Loosens K .firm G G js (members n g inClass) fun ms => ms.jointsAfter js :=
  skipTerminators_loosens.bind fun _ =>
    (memberList_loosens hg n inClass n).bind fun _ => .pure (Nat.le_refl _)

end Declarations

section Statements

/-- A variable; its colon joins the type, its equals sign nothing. -/
theorem variableDecl_loosens (hg : GrammarLoosens K g) (kind : VarKind) :
    Loosens K .apart G G js (variableDecl g kind) fun f => f.jointsAfter js := by
  refine .step Loosening.advance_apart (expectIdent_loosens.bind fun name => ?_)
  have behind (t : Node (.maybe .type)) :
      Loosens K .firm G G (t.joinedAfter js) (do
        let init ← if ← acceptSymbol .assign then
            skipNewlines
            pure (.present (← g .expr))
          else pure .absent
        return Node.varStmt kind name t init) fun f => f.jointsAfter js := by
    refine (acceptSymbol_loosens (by nofun)).bind fun found => .ite ?_ (.pure ?_)
    · refine skipNewlines_loosens.bind fun _ => (hg.runs .expr).bind fun e => .pure ?_
      exact Nat.le_of_eq (Loosening.tally_joinedAfter_first t (Node.present e) js).symm
    · exact Nat.le_of_eq (Loosening.tally_joinedAfter_first t (Node.absent (c := .expr)) js).symm
  refine accept_loose (skip_loosens ?_) (behind .absent)
  exact (joinedType_loosens hg).bind fun t => behind (.present t)

/-- A loop over the elements of something. -/
theorem forLoop_loosens (hg : GrammarLoosens K g) :
    Loosens K .firm G G js (forLoop g) fun f => f.jointsAfter js := by
  refine (expectKeyword_loosens _).bind fun _ => expectIdent_loosens.bind fun binding => ?_
  refine (expectKeyword_loosens _).bind fun _ => (headExpr_loosens hg).bind fun source => ?_
  exact (block_loosens hg).bind fun body => .pure (Nat.le_refl _)

/-- A loop with a condition. -/
theorem whileLoop_loosens (hg : GrammarLoosens K g) :
    Loosens K .firm G G js (whileLoop g) fun f => f.jointsAfter js :=
  (expectKeyword_loosens _).bind fun _ => (headExpr_loosens hg).bind fun _ =>
    (block_loosens hg).bind fun _ => .pure (Nat.le_refl _)

/-- What a statement is: a variable, a loop, a declaration or an expression. -/
theorem stmtForm_loosens (hg : GrammarLoosens K g) (n : Nat) :
    Loosens K .firm G G js (stmtForm n g) fun f => f.jointsAfter js := by
  refine .kind fun k => ?_
  split
  · rename_i kind hkind
    exact (variableDecl_loosens hg kind).apart (by rintro rfl; cases hkind)
  · refine .known (.ite (forLoop_loosens hg) (.ite (whileLoop_loosens hg) (.ite ?_ ?_)))
    · exact (item_loosens hg n).bind fun i => .pure (Nat.le_refl _)
    · exact (expr_loosens hg n).bind fun e => .pure (Nat.le_refl _)

/-- A statement. -/
theorem stmt_loosens (hg : GrammarLoosens K g) (n : Nat) :
    Loosens K .firm G G js (stmt n g) fun s => s.jointsAfter js :=
  here_loosens (by nofun) fun _ => (stmtForm_loosens hg n).bind fun _ => freshId_loosens.bind
    fun _ => spanFrom_loosens fun _ => .pure (Nat.le_refl _)

/-- A statement, or a stub. -/
theorem stmtOrStub_loosens (hg : GrammarLoosens K g) (n : Nat) :
    Loosens K .firm G G js (stmtOrStub n g) fun s => s.jointsAfter js := by
  refine here_loosens (by nofun) fun start => ?_
  refine (recovering_loosens (stmt_loosens hg n)).bind fun s? => ?_
  split
  · exact .pure (Nat.le_refl _)
  · exact spanFrom_loosens fun span => (origin_loosens span).bind fun o => .pure (Nat.le_refl _)

/-- Statements one after the other. -/
theorem stmtList_loosens (hg : GrammarLoosens K g) (bound n : Nat) :
    Loosens K .firm G G js (stmtList bound g n) fun ss => (Node.ofList ss).jointsAfter js := by
  induction n generalizing js with
  | zero => exact stalled_loosens
  | succ n ih =>
    unfold stmtList
    refine peek_loosens fun closes => peek_loosens fun ends => .ite (.pure (Nat.le_refl _)) ?_
    refine (stmtOrStub_loosens hg bound).bind fun s => ?_
    exact skipTerminators_loosens.bind fun _ => ih.bind fun ss => .pure (Nat.le_refl _)

/-- The statements of a block. -/
theorem stmts_loosens (hg : GrammarLoosens K g) (n : Nat) :
    Loosens K .firm G G js (stmts n g) fun ss => ss.jointsAfter js :=
  skipTerminators_loosens.bind fun _ =>
    (stmtList_loosens hg n n).bind fun _ => .pure (Nat.le_refl _)

/-- Every rule of the grammar reads more line breaks alike. -/
theorem rule_loosens (hg : GrammarLoosens K g) (n : Nat) : GrammarLoosens K (rule n g) where
  runs x := by
    cases x with
    | expr => exact expr_loosens hg n
    | power => exact power_loosens hg n
    | operand => exact operand_loosens hg n
    | cond => exact cond_loosens hg
    | type => exact type_loosens hg n
    | stmts => exact stmts_loosens hg n
    | members inClass => exact members_loosens hg n inClass
  expr := expr_opens n
  power := power_opens n
  type := type_opens n

/-- So does the grammar, for any number of tokens. -/
theorem grammar_loosens (K : Loosening) (n : Nat) : GrammarLoosens K (grammar n) := by
  induction n with
  | zero =>
    have opens {c : Category} : Opens (stalled : Parser (Node c)) := fun _ _ _ hrun => nomatch hrun
    exact ⟨fun _ => stalled_loosens, opens, opens, opens⟩
  | succ n ih => exact rule_loosens ih (n + 1)

/-- The statements of a file, where no brace is left over. -/
theorem fileStmts_loosens (bound n : Nat) :
    Loosens K .firm G G js (fileStmts bound n) fun ss => (Node.ofList ss).jointsAfter js := by
  induction n generalizing js with
  | zero => exact stalled_loosens
  | succ n ih =>
    unfold fileStmts
    refine peek_loosens fun ends => .ite (.pure (Nat.le_refl _)) (peek_loosens fun stray => ?_)
    refine .ite (here_loosens (by simp) fun span => .broken fun s x s' hrun free => ?_) ?_
    · obtain ⟨_, s₁, hrecord, hrun⟩ := bind_ok hrun
      obtain ⟨_, s₂, hbump, hrun⟩ := bind_ok hrun
      obtain ⟨_, s₃, hskip, hrun⟩ := bind_ok hrun
      cases hrecord
      cases hbump
      cases hskip
      have later : Loosens K .firm G G js (fileStmts bound n) _ := ih
      have free' := later.free hrun free
      refine s.record_not_errorFree ⟨.strayBrace, span⟩ ?_
      unfold ParserState.ErrorFree at free' ⊢
      rwa [← (ParserState.bump_kept _).2]
    · refine (stmtOrStub_loosens (grammar_loosens K bound) bound).bind fun s => ?_
      exact skipTerminators_loosens.bind fun _ => ih.bind fun ss => .pure (Nat.le_refl _)

/-- A whole file is read alike with more line breaks. -/
theorem file_loosens (n : Nat) :
    Loosens K .firm G G js (file n) fun ss => (Node.ofList ss).jointsAfter js :=
  skipTerminators_loosens.bind fun _ => fileStmts_loosens n n

end Statements

end Parse

end FrontEnd
