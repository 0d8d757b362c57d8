import FrontEnd.Grammar.Type
import FrontEnd.Proofs.Tracing.Calculus

/-!
# Traces of paths, types and generic parameters

The parsers of the nonterminals are assumed to lead to the traces of their results; every parser
built from them then does so too. The half of a `>>` that closes an inner list stays at hand, and
being mute it changes no leaf wherever it is stepped over. Where an error stub takes the place of a
node, the notes on what was read for it are left out.
-/

namespace FrontEnd

/-- What is known where a nonterminal is called: a condition is read only at its keyword. -/
def Nonterminal.Expected : {c : Category} → Nonterminal c → ParserState → Prop
  | _, .cond, s => s.kind = .keyword .if_ ∨ s.kind = .keyword .elif
  | _, _, _ => True

/-- The parsers of all nonterminals lead to the traces of their results. -/
def GrammarTraces (g : Grammar) : Prop :=
  ∀ {c : Category} (x : Nonterminal c) {before : Trace},
    Traces x.Expected before (g x) fun a => a.traceAfter before

namespace Parse

variable {pre : ParserState → Prop} {before : Trace} {g : Grammar}

/-- A block is numbered behind its statements. -/
theorem block_traces (hg : GrammarTraces g) :
    Traces pre before (block g) fun b => b.traceAfter before := by
  refine .bind (expect_traces (mute_symbol _)) fun start => .bind (openGroup_traces _) fun _ => ?_
  refine .bind (hg .stmts) fun stmts => .bind (closeStrict_traces _) fun _ => ?_
  exact freshId_traces.bind fun id => .peek fun span => .pure rfl

/-- A closing angle bracket, or half of a `>>`. -/
theorem closeAngle_traces : Traces pre before closeAngle fun _ => before := by
  refine .state fun s => .ite (fun h => ?_) fun _ => .ite (fun h => ?_) fun _ => failExpected_traces
  · exact advance_mute (fun t ht => (congrArg _ ht.2).trans h) (mute_symbol _)
  · have half (used : Bool) (s : ParserState) : s.Still { s with halfShift := used } :=
      .of_same rfl rfl rfl rfl
    refine .ite (fun _ => ?_) fun _ => .update (half true)
    refine .bind_known (fun _ s => s.kind = .symbol .shr) (.update (half false)) ?_ fun _ => ?_
    · intro s₀ _ s₁ _ hs hrun
      cases hrun
      exact (congrArg ParserState.kind hs.2).trans h
    · exact advance_mute (fun _ hs => hs) (mute_symbol _)

/-- Type arguments between angle brackets. -/
theorem typeArgs_traces (hg : GrammarTraces g) (n : Nat) :
    Traces pre before (typeArgs n g) fun args => (Node.ofList args).traceAfter before := by
  refine .bind (expectSymbol_traces _) fun _ => .bind skipNewlines_traces fun _ => ?_
  refine .bind (commaList_traces skipNewlines_traces (hg .type) n false) fun args => ?_
  exact closeAngle_traces.bind fun _ => .pure rfl

/-- The names of a path with their type arguments. -/
theorem segments_traces (hg : GrammarTraces g) (bound : Nat) (inType : Bool) (n : Nat) :
    Traces pre before (segments bound g inType n) fun names =>
      (Node.ofList names).traceAfter before := by
  induction n generalizing pre before with
  | zero => exact stalled_traces
  | succ n ih =>
    unfold segments
    refine .bind expectIdent_traces fun ident => .peek fun angle => ?_
    extract_lets after
    have after_traces {pre : ParserState → Prop} (direct : List TypeExpr)
        (hdirect : inType = false → direct = []) :
        Traces pre ((Node.ofList direct).traceAfter (before.leaf (.ident ident))) (after direct)
          fun names => (Node.ofList names).traceAfter before := by
      refine .bind (acceptSymbol_traces _) fun more => .ite (fun _ => .pure rfl) fun _ => ?_
      refine .peek fun angle' => .ite (fun hbehind => ?_) fun _ => ih.bind fun names => .pure rfl
      -- The arguments stand behind `::`, and there are none in front of it.
      obtain rfl := hdirect (by simpa using hbehind.1)
      refine .bind (typeArgs_traces hg bound) fun args => ?_
      refine .bind (acceptSymbol_traces _) fun more => .ite (fun _ => ?_) fun _ => .pure rfl
      exact ih.bind fun names => .pure rfl
    refine .ite (fun hin => ?_) fun _ => after_traces [] fun _ => rfl
    refine .bind (typeArgs_traces hg bound) fun args => after_traces args fun hout => ?_
    simp [hout] at hin

/-- There is at least one name. -/
theorem segments_returns (bound : Nat) (inType : Bool) (n : Nat) :
    Returns (segments bound g inType n) fun names => names ≠ [] := by
  cases n with
  | zero => exact .bind fun _ => .failed
  | succ n =>
    unfold segments
    refine .bind fun ident => .bind fun angle => ?_
    extract_lets after
    have after_returns (direct : List TypeExpr) :
        Returns (after direct) fun names => names ≠ [] := by
      refine .bind fun more => ?_
      split
      · exact .pure (List.cons_ne_nil _ _)
      · refine .bind fun angle' => ?_
        split
        · refine .bind fun args => .bind fun more => ?_
          split
          · exact .bind fun _ => .pure (List.cons_ne_nil _ _)
          · exact .pure (List.cons_ne_nil _ _)
        · exact .bind fun _ => .pure (List.cons_ne_nil _ _)
    split
    · exact .bind after_returns
    · exact after_returns []

/-- A path has no number of its own. -/
theorem path_traces (hg : GrammarTraces g) (n : Nat) (inType : Bool) :
    Traces pre before (path n g inType) fun p => p.traceAfter before := by
  refine .peek fun start => .bind (acceptSymbol_traces _) fun global => ?_
  refine .bind_known (fun names _ => names ≠ []) (segments_traces hg n inType n)
    (fun _ _ _ _ _ hrun => segments_returns n inType n hrun) fun names => ?_
  refine .peek fun span => .assume (fun _ hs => hs.1) fun hnames => .pure ?_
  cases names with
  | nil => exact absurd rfl hnames
  | cons name names => rfl

/-- Types between parentheses are read alike, whatever they form. -/
theorem traceAfter_parenForm (items : List TypeExpr) (trailing : Bool) (before : Trace) :
    (parenForm items trailing).traceAfter before = (Node.ofList items).traceAfter before := by
  unfold parenForm
  split <;> rfl

/-- A function type, or types in parentheses; a stub if they are not closed. -/
theorem parenType_traces (hg : GrammarTraces g) (n : Nat)
    (hpre : ∀ s, pre s → s.kind = .symbol .lParen) :
    Traces pre before (parenType n g) fun t => t.traceAfter before := by
  refine .peek fun start => .bind (advance_mute (fun s hs => hpre s hs.1) (mute_symbol _)) ?_
  refine fun _ => .bind (openGroup_traces _) fun _ => ?_
  refine .bind (commaList_traces (.pure rfl) (hg .type) n false) fun r => ?_
  refine closeOr_traces (Node.sublist_traceAfter _ before) (newType_traces rfl) ?_
  refine .bind (acceptSymbol_traces _) fun arrow => .ite (fun _ => ?_) fun _ => ?_
  · exact .bind (hg .type) fun result => newType_traces rfl
  · exact .peek fun span => newType_traces (traceAfter_parenForm r.1 r.2 before)

/-- A slice or an array; the size of an array comes behind its items. -/
theorem bracketType_traces (hg : GrammarTraces g)
    (hpre : ∀ s, pre s → s.kind = .symbol .lBracket) :
    Traces pre before (bracketType g) fun t => t.traceAfter before := by
  refine .peek fun start => .bind (advance_mute (fun s hs => hpre s hs.1) (mute_symbol _)) ?_
  refine fun _ => .bind (openGroup_traces _) fun _ => .bind (hg .type) fun item => ?_
  refine .bind (acceptSymbol_traces _) fun sized => ?_
  extract_lets after
  have after_traces (form : TypeForm) : Traces (fun _ => True) (form.traceAfter before)
      (after form) fun t => t.traceAfter before := by
    refine closeOr_traces (form.sublist_traceAfter before) (newType_traces rfl) ?_
    exact .peek fun span => newType_traces rfl
  refine .ite (fun _ => ?_) fun _ => after_traces (.sliceType item)
  exact .bind (hg .expr) fun size => after_traces (.arrayType item size)

/-- A type; what cannot start one leaves an error behind. -/
theorem type_traces (hg : GrammarTraces g) (n : Nat) :
    Traces pre before (type n g) fun t => t.traceAfter before := by
  have of_path {pre : ParserState → Prop} :
      Traces pre before (do let p ← path n g true; newType (.pathType p) p.pathSpan)
        fun t => t.traceAfter before :=
    .bind (path_traces hg n true) fun p => newType_traces rfl
  refine .peek fun k => ?_
  split
  · exact of_path
  · exact of_path
  · exact parenType_traces hg n fun s hs => hs.2
  · exact bracketType_traces hg fun s hs => hs.2
  · exact .bind (reportExpected_traces (.refl _) _) fun _ => .peek fun _ => newType_traces rfl

/-- A type behind a colon that may be there. -/
theorem typeAfterColon_traces (hg : GrammarTraces g) :
    Traces pre before (typeAfterColon? g) fun t => t.traceAfter before :=
  .bind (acceptSymbol_traces _) fun _ =>
    .ite (fun _ => .bind (hg .type).anywhere fun _ => .pure rfl) fun _ => .pure rfl

/-- A value behind an equals sign that may be there. -/
theorem defaultValue_traces (hg : GrammarTraces g) :
    Traces pre before (defaultValue? g) fun e => e.traceAfter before :=
  .bind (acceptSymbol_traces _) fun _ =>
    .ite (fun _ => .bind (hg .expr).anywhere fun _ => .pure rfl) fun _ => .pure rfl

/-- What a generic parameter is: a lifetime, a constant or a type. -/
theorem genericForm_traces (hg : GrammarTraces g) : Traces pre before (genericForm g) fun r =>
    r.2.traceAfter (before.leaf (Node.genericLeaf r.1 r.2)) := by
  refine .peek fun token => ?_
  split
  · rename_i name span
    refine .bind (advance_traces (some (.lifetime ⟨name, span⟩)) fun s hs => ?_) fun _ => .pure rfl
    rw [hs.2]
    rfl
  · refine .bind (accept_traces fun _ => rfl) fun isConst => .ite (fun _ => ?_) fun _ => ?_
    · refine .bind expectIdent_traces fun name => .bind (expectSymbol_traces _) fun _ => ?_
      refine .bind (hg .type) fun t => .bind (defaultValue_traces hg) fun default => ?_
      exact .pure rfl
    · refine .bind expectIdent_traces fun name => ?_
      exact .bind (typeAfterColon_traces hg) fun bound => .pure rfl

/-- A generic parameter is numbered behind what it is. -/
theorem generic_traces (hg : GrammarTraces g) :
    Traces pre before (generic g) fun p => p.traceAfter before := by
  refine .peek fun start => .bind (genericForm_traces hg) fun r => .peek fun span => ?_
  exact origin_traces.bind fun o => .pure rfl

/-- Generic parameters between angle brackets. -/
theorem generics_traces (hg : GrammarTraces g) (n : Nat) :
    Traces pre before (generics n g) fun ps => ps.traceAfter before := by
  refine .bind (acceptSymbol_traces _) fun found => .ite (fun _ => .pure rfl) fun _ => ?_
  refine .bind skipNewlines_traces fun _ => ?_
  refine .bind (commaList_traces skipNewlines_traces (generic_traces hg) n false) fun r => ?_
  exact closeAngle_traces.bind fun _ => .pure rfl

end Parse

end FrontEnd
