import FrontEnd.Grammar.Item
import FrontEnd.Proofs.Tracing.Operators

/-!
# Traces of declarations

Attributes may stand on both sides of the modifiers of a member; those read first are handed on to
the parser of the rest, and their trace with them. Of a member that is abandoned nothing is kept.
-/

namespace FrontEnd

/-- The token of a modifier is mute. -/
theorem Modifier.mute_of_ofToken {k : TokenKind} {m : Modifier}
    (h : Modifier.ofToken? k = some m) : k.Mute := by
  unfold Modifier.ofToken? at h
  split at h
  all_goals first | exact fun _ => rfl | cases h

/-- The token of a variable is mute. -/
theorem VarKind.mute_of_ofToken {k : TokenKind} {kind : VarKind}
    (h : VarKind.ofToken? k = some kind) : k.Mute := by
  unfold VarKind.ofToken? at h
  split at h
  all_goals first | exact fun _ => rfl | cases h

namespace Parse

variable {pre : ParserState → Prop} {before : Trace} {g : Grammar}

/-- An attribute: its name and its arguments. -/
theorem attr_traces (hg : GrammarTraces g) (n : Nat) (hpre : ∀ s, pre s → s.kind = .symbol .at_) :
    Traces pre before (attr n g) fun a => a.traceAfter before := by
  refine .peek fun start => .bind (advance_mute (fun s hs => hpre s hs.1) (mute_symbol _)) ?_
  refine fun _ => .bind expectIdent_traces fun name => .bind (acceptSymbol_traces _) fun found => ?_
  extract_lets after
  have after_traces (args : Node (.many .argument)) :
      Traces (fun _ => True) (args.traceAfter (before.leaf (.ident name))) (after args) fun a =>
        a.traceAfter before :=
    .peek fun span => .pure rfl
  refine .ite (fun _ => ?_) fun _ => after_traces .nil
  refine .bind (openGroup_traces _) fun _ => .bind (arguments_traces hg n) fun args => ?_
  exact .bind (closeStrict_traces _) fun _ => after_traces args

/-- Attributes one after the other. -/
theorem attrs_traces (hg : GrammarTraces g) (bound n : Nat) :
    Traces pre before (attrs bound g n) fun xs => (Node.ofList xs).traceAfter before := by
  induction n generalizing pre before with
  | zero => exact stalled_traces
  | succ n ih =>
    unfold attrs
    refine .peek fun found => .ite (fun _ => .pure rfl) fun h => ?_
    refine .bind (attr_traces hg bound fun s hs => ?_) fun x => ?_
    · exact eq_of_beq (hs.2.trans (by simpa using h))
    · exact .bind skipTerminators_traces fun _ => ih.bind fun xs => .pure rfl

/-- Modifiers are no nodes. -/
theorem modifiers_traces (n : Nat) : Traces pre before (modifiers n) fun _ => before := by
  induction n generalizing pre with
  | zero => exact stalled_traces
  | succ n ih =>
    unfold modifiers
    refine .peek fun k => ?_
    split
    · rename_i m hm
      refine .bind (advance_mute (fun _ hs => hs.2) (Modifier.mute_of_ofToken hm)) fun _ => ?_
      exact ih.bind fun ms => .pure rfl
    · exact .pure rfl

/-- A parameter is numbered behind its type and its default. -/
theorem param_traces (hg : GrammarTraces g) :
    Traces pre before (param g) fun p => p.traceAfter before := by
  refine .peek fun start => .bind expectIdent_traces fun name => ?_
  refine .bind (expectSymbol_traces _) fun _ => .bind (hg .type) fun t => ?_
  refine .bind (defaultValue_traces hg) fun default => .peek fun span => ?_
  exact origin_traces.bind fun o => .pure rfl

/-- The parameters of a function. -/
theorem params_traces (hg : GrammarTraces g) (n : Nat) :
    Traces pre before (params n g) fun ps => ps.traceAfter before := by
  refine .bind (expectSymbol_traces _) fun _ => .bind (openGroup_traces _) fun _ => ?_
  refine .bind (commaListTo_traces (param_traces hg) n) fun ps => ?_
  exact .bind (closeStrict_traces _) fun _ => .pure rfl

/-- The body of a function: a block, an expression or nothing. -/
theorem funcBody_traces (hg : GrammarTraces g) :
    Traces pre before (funcBody? g) fun b => b.traceAfter before := by
  refine .peek fun k => ?_
  split
  · exact .bind (block_traces hg) fun body => .pure rfl
  · refine .bind (advance_mute (fun _ hs => hs.2) (mute_symbol _)) fun _ => ?_
    exact .bind skipNewlines_traces fun _ => .bind (hg .expr) fun e => .pure rfl
  · exact .pure rfl

/-- The parts of a function from its generic parameters to its body. -/
theorem func_traces (hg : GrammarTraces g) (n : Nat) :
    Traces pre before (func n g) fun f => f.traceAfter before := by
  refine .bind (expectKeyword_traces fun _ => rfl) fun _ => .bind expectIdent_traces fun name => ?_
  refine .bind (generics_traces hg n) fun generics => .bind (params_traces hg n) fun params => ?_
  refine .bind (typeAfterColon_traces hg) fun result => ?_
  exact .bind (funcBody_traces hg) fun body => .pure rfl

/-- The types a declaration is built on. -/
theorem superTypes_traces (hg : GrammarTraces g) (n : Nat) :
    Traces pre before (superTypes g n) fun ts => (Node.ofList ts).traceAfter before := by
  induction n generalizing pre before with
  | zero => exact stalled_traces
  | succ n ih =>
    unfold superTypes
    refine .bind skipNewlines_traces fun _ => .bind (hg .type) fun t => ?_
    refine .bind (acceptSymbol_traces _) fun found => .ite (fun _ => .pure rfl) fun _ => ?_
    exact ih.bind fun ts => .pure rfl

/-- The same behind their colon, if it is there. -/
theorem supers_traces (hg : GrammarTraces g) (n : Nat) :
    Traces pre before (supers n g) fun ts => ts.traceAfter before :=
  .bind (acceptSymbol_traces _) fun _ => .ite (fun _ => .pure rfl) fun _ =>
    .bind (superTypes_traces hg n) fun _ => .pure rfl

/-- Members between braces. -/
theorem memberBlock_traces (hg : GrammarTraces g) (inClass : Bool) :
    Traces pre before (memberBlock g inClass) fun ms => ms.traceAfter before := by
  refine .bind (expectSymbol_traces _) fun _ => .bind (openGroup_traces _) fun _ => ?_
  refine .bind (hg (.members inClass)) fun members => ?_
  exact .bind (closeStrict_traces _) fun _ => .pure rfl

/-- A class or a struct: generic parameters, supertypes, members. -/
theorem classDecl_traces (hg : GrammarTraces g) (n : Nat)
    (hpre : ∀ s, pre s → s.kind = .keyword .class_ ∨ s.kind = .keyword .struct) :
    Traces pre before (classDecl n g) fun f => f.traceAfter before := by
  refine .peek fun isStruct => .bind (advance_traces none fun s hs => ?_) fun _ => ?_
  · rcases hpre s hs.1 with h | h
    · exact ParserState.current_mute h fun _ => rfl
    · exact ParserState.current_mute h fun _ => rfl
  · refine .bind expectIdent_traces fun name => .bind (generics_traces hg n) fun generics => ?_
    extract_lets after
    have after_traces (supers : Node (.many .type)) : Traces (fun _ => True)
        (supers.traceAfter (generics.traceAfter (before.leaf (.ident name)))) (after supers)
          fun f => f.traceAfter before :=
      .bind (memberBlock_traces hg true) fun members => .pure rfl
    exact .ite (fun _ => after_traces .nil) fun _ => .bind (supers_traces hg n) after_traces

/-- A trait has the same parts. -/
theorem traitDecl_traces (hg : GrammarTraces g) (n : Nat) :
    Traces pre before (traitDecl n g) fun f => f.traceAfter before := by
  refine .bind (expectKeyword_traces fun _ => rfl) fun _ => .bind expectIdent_traces fun name => ?_
  refine .bind (generics_traces hg n) fun generics => .bind (supers_traces hg n) fun supers => ?_
  exact .bind (memberBlock_traces hg false) fun members => .pure rfl

/-- An object has no generic parameters. -/
theorem objectDecl_traces (hg : GrammarTraces g) (n : Nat) :
    Traces pre before (objectDecl n g) fun f => f.traceAfter before := by
  refine .bind (expectKeyword_traces fun _ => rfl) fun _ => .bind expectIdent_traces fun name => ?_
  refine .bind (supers_traces hg n) fun supers => ?_
  exact .bind (memberBlock_traces hg false) fun members => .pure rfl

/-- Another name for a type. -/
theorem aliasDecl_traces (hg : GrammarTraces g) (n : Nat) :
    Traces pre before (aliasDecl n g) fun f => f.traceAfter before := by
  refine .bind (expectKeyword_traces fun _ => rfl) fun _ => .bind expectIdent_traces fun name => ?_
  refine .bind (generics_traces hg n) fun generics => .bind (expectSymbol_traces _) fun _ => ?_
  exact .bind skipNewlines_traces fun _ => .bind (hg .type) fun t => .pure rfl

/-- A constructor: its parameters and its block. -/
theorem initDecl_traces (hg : GrammarTraces g) (n : Nat) :
    Traces pre before (initDecl n g) fun f => f.traceAfter before :=
  .bind (expectKeyword_traces fun _ => rfl) fun _ => .bind (params_traces hg n) fun _ =>
    .bind (block_traces hg) fun _ => .pure rfl

/-- A field of an entry: its name and its type. -/
theorem entryField_traces (hg : GrammarTraces g) :
    Traces pre before (entryField g) fun f => f.traceAfter before :=
  .bind expectIdent_traces fun _ => .bind (expectSymbol_traces _) fun _ =>
    .bind (hg .type) fun _ => .pure rfl

/-- What stands behind the name of an entry: a value, types, fields or nothing. -/
theorem enumEntryForm_traces (hg : GrammarTraces g) (n : Nat) :
    Traces pre before (enumEntryForm n g) fun f => f.traceAfter before := by
  refine .peek fun k => ?_
  split
  · refine .bind (advance_mute (fun _ hs => hs.2) (mute_symbol _)) fun _ => ?_
    exact .bind (hg .expr) fun value => .pure rfl
  · refine .bind (advance_mute (fun _ hs => hs.2) (mute_symbol _)) fun _ => ?_
    refine .bind (openGroup_traces _) fun _ => ?_
    refine .bind (commaListTo_traces (hg .type) n) fun types => ?_
    exact .bind (closeStrict_traces _) fun _ => .pure rfl
  · refine .bind (advance_mute (fun _ hs => hs.2) (mute_symbol _)) fun _ => ?_
    refine .bind (openGroup_traces _) fun _ => ?_
    refine .bind (commaListTo_traces (entryField_traces hg) n) fun fields => ?_
    exact .bind (closeStrict_traces _) fun _ => .pure rfl
  · exact .pure rfl

/-- An entry is numbered behind what it holds. -/
theorem enumEntry_traces (hg : GrammarTraces g) (n : Nat) :
    Traces pre before (enumEntry n g) fun e => e.traceAfter before := by
  refine .peek fun start => .bind expectIdent_traces fun name => ?_
  refine .bind (enumEntryForm_traces hg n) fun form => .peek fun span => ?_
  exact origin_traces.bind fun o => .pure rfl

/-- What separates entries is mute. -/
theorem mute_of_separatesEntries {k : TokenKind} (h : separatesEntries k = true) : k.Mute := by
  rcases of_decide_eq_true h with rfl | rfl
  · exact mute_symbol _
  · exact mute_newline

/-- Entries one after the other. -/
theorem enumEntries_traces (hg : GrammarTraces g) (bound n : Nat) :
    Traces pre before (enumEntries bound g n) fun es => (Node.ofList es).traceAfter before := by
  induction n generalizing pre before with
  | zero => exact stalled_traces
  | succ n ih =>
    unfold enumEntries
    refine .peek fun k => .ite (fun _ => .pure rfl) fun _ => ?_
    refine .bind (enumEntry_traces hg bound) fun e => .peek fun k => ?_
    refine .ite (fun _ => .pure rfl) fun _ => ?_
    have hskip := ParserState.skipWhile_still fun _ => mute_of_separatesEntries
    exact .bind (.update hskip) fun _ => ih.bind fun es => .pure rfl

/-- The entries of an enumeration come in front of its members. -/
theorem enumDecl_traces (hg : GrammarTraces g) (n : Nat) :
    Traces pre before (enumDecl n g) fun f => f.traceAfter before := by
  refine .bind (expectKeyword_traces fun _ => rfl) fun _ => .bind expectIdent_traces fun name => ?_
  refine .bind (generics_traces hg n) fun generics => .bind (expectSymbol_traces _) fun _ => ?_
  refine .bind (openGroup_traces _) fun _ => .bind skipSeparators_traces fun _ => ?_
  refine .bind (enumEntries_traces hg n n) fun entries => ?_
  refine .bind (acceptSymbol_traces _) fun found => ?_
  extract_lets after
  have after_traces (members : Node (.many .item)) : Traces (fun _ => True)
      (members.traceAfter ((Node.ofList entries).traceAfter
        (generics.traceAfter (before.leaf (.ident name))))) (after members) fun f =>
          f.traceAfter before := by
    refine .bind closeGroup_traces fun _ => .bind skipTerminators_traces fun _ => ?_
    exact .bind (expectSymbol_traces _) fun _ => .pure rfl
  refine .ite (fun _ => ?_) fun _ => after_traces .nil
  exact .bind (hg (.members false)) after_traces

/-- A declaration behind its modifiers; behind an error about a constructor something is missing,
which need not be said. -/
theorem itemForm_traces (hg : GrammarTraces g) (n : Nat) (inClass : Bool) :
    Traces pre before (itemForm n g inClass) fun f => f.traceAfter before := by
  refine .peek fun k => ?_
  split
  · exact func_traces hg n
  · exact classDecl_traces hg n fun _ hs => Or.inl hs.2
  · exact classDecl_traces hg n fun _ hs => Or.inr hs.2
  · exact enumDecl_traces hg n
  · exact traitDecl_traces hg n
  · exact aliasDecl_traces hg n
  · exact objectDecl_traces hg n
  · refine .ite (fun _ => .peek fun span => ?_) fun _ => initDecl_traces hg n
    exact .bind (record_traces (.refl _) _) fun _ => .uncheck (initDecl_traces hg n)
  · exact failExpected_traces

/-- A declaration behind the attributes that are read already. -/
theorem itemAfter_traces (hg : GrammarTraces g) (n : Nat) (inClass : Bool) (start : Span)
    (earlier : List (Node .attr)) (ms : List Modifier) :
    Traces pre ((Node.ofList earlier).traceAfter before) (itemAfter n g inClass start earlier ms)
      fun i => i.traceAfter before := by
  refine .bind (attrs_traces hg n n) fun attrs => .bind (modifiers_traces n) fun more => ?_
  refine .bind (itemForm_traces hg n inClass) fun form => freshId_traces.bind fun id => ?_
  refine .peek fun span => .pure ?_
  rw [← Node.traceAfter_ofList_append earlier attrs before]
  rfl

/-- A declaration with its attributes. -/
theorem item_traces (hg : GrammarTraces g) (n : Nat) :
    Traces pre before (item n g) fun i => i.traceAfter before :=
  .peek fun start => itemAfter_traces hg n false start [] []

/-- A field: its name, its type and its value. -/
theorem field_traces (hg : GrammarTraces g) :
    Traces pre before (field g) fun f => f.traceAfter before := by
  refine .peek fun k => ?_
  extract_lets kind? after
  have after_traces {pre : ParserState → Prop} :
      Traces pre before (after ()) fun f => f.traceAfter before := by
    refine .bind expectIdent_traces fun name => .bind (expectSymbol_traces _) fun _ => ?_
    refine .bind skipNewlines_traces fun _ => .bind (hg .type) fun t => ?_
    refine .bind (acceptSymbol_traces _) fun found => .ite (fun _ => ?_) fun _ => .pure rfl
    exact .bind skipNewlines_traces fun _ => .bind (hg .expr) fun e => .pure rfl
  refine .ite (fun h => ?_) fun _ => after_traces
  obtain ⟨word, hword⟩ := Option.isSome_iff_exists.1 h
  have hmute := VarKind.mute_of_ofToken hword
  exact .bind (advance_mute (fun _ hs => hs.2) hmute) fun _ => after_traces

/-- A member is a field or a declaration, numbered behind its parts. -/
theorem member_traces (hg : GrammarTraces g) (n : Nat) (inClass : Bool) :
    Traces pre before (member n g inClass) fun i => i.traceAfter before := by
  refine .peek fun start => .bind (attrs_traces hg n n) fun attrs => ?_
  refine .bind (modifiers_traces n) fun ms => .peek fun k => .ite (fun _ => ?_) fun _ => ?_
  · refine .bind (field_traces hg) fun form => .peek fun span => ?_
    exact origin_traces.bind fun o => .pure rfl
  · exact itemAfter_traces hg n inClass start attrs ms

/-- Members one after the other; of one that is abandoned nothing is kept. -/
theorem memberList_traces (hg : GrammarTraces g) (bound : Nat) (inClass : Bool) (n : Nat) :
    Traces pre before (memberList bound g inClass n) fun ms =>
      (Node.ofList ms).traceAfter before := by
  induction n generalizing pre before with
  | zero => exact stalled_traces
  | succ n ih =>
    unfold memberList
    refine .peek fun closes => .peek fun ends => .ite (fun _ => .pure rfl) fun _ => ?_
    refine .bind (recovering_traces (member_traces hg bound inClass)) fun member? => ?_
    refine .bind skipTerminators_traces fun _ => ?_
    cases member? with
    | some member => exact ih.bind fun members => .pure rfl
    | none => exact .uncheck (ih.bind fun members => .pure rfl)

/-- The members of a declaration. -/
theorem members_traces (hg : GrammarTraces g) (n : Nat) (inClass : Bool) :
    Traces pre before (members n g inClass) fun ms => ms.traceAfter before :=
  .bind skipTerminators_traces fun _ => .bind (memberList_traces hg n inClass n) fun _ => .pure rfl

end Parse

end FrontEnd
