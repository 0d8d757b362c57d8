import FrontEnd.Proofs.States
import FrontEnd.Proofs.Tracing.Traces

/-!
# Runs of the parser and what they trace

`Traces` relates a run of a parser to the trace of its result. Numbers increase from one node to the
next, also if errors are recorded and nodes are lost. As long as no error is recorded, the leaves
met and those of the tokens that are left make up the whole text, the warnings about the nodes are
all that was reported, and nothing is missing in the tree. The rules follow the way parsers are put
together, so the proof for a parser follows its text.
-/

namespace FrontEnd

/-- A kind of tokens that leave nothing in the tree. -/
def TokenKind.Mute (k : TokenKind) : Prop := ∀ span, Leaf.ofToken? ⟨k, span⟩ = none

/-- The end of the text is mute. -/
theorem mute_eof : TokenKind.Mute .eof := fun _ => rfl

/-- Line breaks are mute. -/
theorem mute_newline : TokenKind.Mute .newline := fun _ => rfl

/-- Operators and punctuation are mute. -/
theorem mute_symbol (mark : Symbol) : TokenKind.Mute (.symbol mark) := fun _ => rfl

/-- Leaves are collected token by token. -/
theorem leavesOf_append (u v : List Token) : leavesOf (u ++ v) = leavesOf u ++ leavesOf v :=
  List.filterMap_append

/-- Mute tokens have none. -/
theorem leavesOf_mute {u : List Token} (h : ∀ t ∈ u, t.kind.Mute) : leavesOf u = [] :=
  List.filterMap_eq_nil_iff.2 fun t ht => h t ht t.span

/-- A way from one state to another on which no number is given out and, unless there are errors,
no leaf is read and nothing is reported. -/
structure ParserState.Still (s s' : ParserState) : Prop extends s.Onward s' where
  nextId : s'.nextId = s.nextId
  leaves : s'.ErrorFree → leavesOf s'.rest = leavesOf s.rest
  reported : s'.ErrorFree → s'.diagnostics = s.diagnostics

/-- What a state shows of a trace in a text with some leaves. -/
structure Traced (all : List Leaf) (t : Trace) (s : ParserState) : Prop where
  sound : s.Sound
  increasing : t.notes.Pairwise fun a b => a.id.index < b.id.index
  below : ∀ a ∈ t.notes, a.id.index < s.nextId
  leaves : s.ErrorFree → t.leaves ++ leavesOf s.rest = all
  warned : s.ErrorFree → s.diagnostics = t.notes.filterMap Note.warning?
  fresh : s.ErrorFree → t.fresh = true

/-- What a run from `s` shows: numbers are never taken back, and the trace is that of the result. -/
def TracedOutcome {α : Type} (all : List Leaf) (after : α → Trace) (s : ParserState) :
    EStateM.Result SyntaxError ParserState α → Prop
  | .ok a s' => s.nextId ≤ s'.nextId ∧ Traced all (after a) s'
  | .error _ s' => s.nextId ≤ s'.nextId ∧ s'.Sound

/-- From a state with some trace in which `pre` holds, a parser leads to states with the trace given
by its result. -/
def Traces {α : Type} (pre : ParserState → Prop) (t : Trace) (p : Parser α) (after : α → Trace) :
    Prop :=
  ∀ all s, Traced all t s → pre s → TracedOutcome all after s (p s)

/-- Something that holds of every result of a parser. -/
def Returns {α : Type} (p : Parser α) (known : α → Prop) : Prop :=
  ∀ ⦃s a s'⦄, p s = .ok a s' → known a

namespace ParserState

/-- Nothing is read, numbered or reported where only other parts of the state change. -/
theorem Still.of_same {s s' : ParserState} (final : s'.final = s.final) (rest : s'.rest = s.rest)
    (nextId : s'.nextId = s.nextId) (diagnostics : s'.diagnostics = s.diagnostics) :
    s.Still s' where
  final := final
  rest := rest ▸ List.suffix_refl _
  diagnostics := diagnostics ▸ List.prefix_refl _
  nextId := nextId
  leaves _ := congrArg leavesOf rest
  reported _ := diagnostics

/-- A state is reached from itself. -/
theorem Still.refl (s : ParserState) : s.Still s := .of_same rfl rfl rfl rfl

/-- Two ways in a row. -/
theorem Still.trans {s s₁ s' : ParserState} (h₁ : s.Still s₁) (h₂ : s₁.Still s') : s.Still s' where
  toOnward := h₁.toOnward.trans h₂.toOnward
  nextId := h₂.nextId.trans h₁.nextId
  leaves free := (h₂.leaves free).trans (h₁.leaves (h₂.toOnward.errorFree free))
  reported free := (h₂.reported free).trans (h₁.reported (h₂.toOnward.errorFree free))

/-- Mute tokens are stepped over. -/
theorem skipWhile_still {p : TokenKind → Bool} (h : ∀ k, p k = true → k.Mute) (s : ParserState) :
    s.Still (s.skipWhile p) := by
  refine ⟨s.skipWhile_onward p, rfl, fun _ => ?_, fun _ => rfl⟩
  obtain ⟨skipped, hrest, hskipped⟩ := s.skipWhile_rest p
  rw [hrest, leavesOf_append, leavesOf_mute fun t ht => h _ (hskipped t ht)]
  rfl

/-- Line breaks are mute. -/
theorem skipNewlines_still (s : ParserState) : s.Still s.skipNewlines :=
  s.skipWhile_still (p := (· = .newline)) fun _ hk => of_decide_eq_true hk ▸ mute_newline

/-- So are the ends of statements. -/
theorem skipTerminators_still (s : ParserState) :
    s.Still (s.skipWhile fun k => k = .newline ∨ k = .symbol .semi) := by
  refine s.skipWhile_still fun k hk => ?_
  rcases of_decide_eq_true hk with rfl | rfl
  · exact mute_newline
  · exact mute_symbol _

/-- Groups are entered over line breaks. -/
theorem openGroup_still (ignored : Bool) (s : ParserState) : s.Still (s.openGroup ignored) := by
  have inside : s.Still
      { s with groups := ⟨ignored, s.allowsBrace⟩ :: s.groups, allowsBrace := true } :=
    .of_same rfl rfl rfl rfl
  cases ignored with
  | false => exact inside
  | true => exact inside.trans (skipNewlines_still _)

/-- They are left without a step. -/
theorem closeGroup_still (s : ParserState) : s.Still s.closeGroup := by
  unfold closeGroup
  split
  · exact .refl s
  · exact .of_same rfl rfl rfl rfl

/-- Behind an error nothing is said of leaves. -/
theorem Onward.still {s s' : ParserState} (h : s.Onward s') (hid : s'.nextId = s.nextId)
    (broken : ¬s'.ErrorFree) : s.Still s' :=
  ⟨h, hid, fun free => absurd free broken, fun free => absurd free broken⟩

/-- An error is recorded. -/
theorem record_still (e : SyntaxError) (s : ParserState) : s.Still (s.record e) :=
  (s.report_onward e.toDiagnostic).still rfl (s.record_not_errorFree e)

/-- No number is given out on the way to the next boundary. -/
theorem synchronize_nextId (s before : ParserState) : (s.synchronize before).nextId = s.nextId := by
  unfold synchronize
  dsimp only
  split
  · rw [bumpBy_eq]
    unfold bump
    split <;> rfl
  · rw [bumpBy_eq]

/-- On the way to the next boundary leaves are lost only behind an error. -/
theorem synchronize_still {s : ParserState} (broken : ¬s.ErrorFree) (before : ParserState) :
    s.Still (s.synchronize before) := by
  have onward := (s.synchronize_onward before).1
  exact onward.still (s.synchronize_nextId before) fun free => broken (onward.errorFree free)

/-- The end of a statement has no leaves, or there is an error. -/
theorem settle_still (s before : ParserState) : s.Still (s.settle before) := by
  unfold settle
  split
  · rename_i hcount
    have hrestore : s.Still (s.restore before) := .of_same rfl rfl rfl rfl
    refine hrestore.trans (synchronize_still (fun free => ?_) before)
    have hnone : s.errorCount = 0 := (errorFree_iff _).1 free
    omega
  · unfold terminate
    split
    · exact s.skipTerminators_still
    · split
      · exact .refl s
      · exact (s.record_still _).trans (synchronize_still (s.record_not_errorFree _) before)

/-- What the token at hand leaves in the tree depends on its kind only where it leaves something. -/
theorem current_mute {s : ParserState} {k : TokenKind} (hk : s.kind = k) (h : k.Mute) :
    Leaf.ofToken? s.current = none := by
  subst hk
  exact h s.current.span

end ParserState

namespace Traced

variable {all : List Leaf} {t t' : Trace} {s s' : ParserState}

/-- A way without leaves, numbers and warnings does not change what a state shows. -/
theorem still (h : Traced all t s) (hstill : s.Still s') : Traced all t s' where
  sound := hstill.toOnward.sound h.sound
  increasing := h.increasing
  below := hstill.nextId ▸ h.below
  leaves free := hstill.leaves free ▸ h.leaves (hstill.toOnward.errorFree free)
  warned free := (hstill.reported free).trans (h.warned (hstill.toOnward.errorFree free))
  fresh free := h.fresh (hstill.toOnward.errorFree free)

/-- Behind an error nodes need not be kept. -/
theorem lose (h : Traced all t s) (hsub : t'.notes.Sublist t.notes) (broken : ¬s.ErrorFree) :
    Traced all t' s where
  sound := h.sound
  increasing := h.increasing.sublist hsub
  below a ha := h.below a (hsub.subset ha)
  leaves free := absurd free broken
  warned free := absurd free broken
  fresh free := absurd free broken

/-- What is checked more is not missing. -/
theorem uncheck {ok : Bool} (h : Traced all (t.check ok) s) : Traced all t s where
  sound := h.sound
  increasing := h.increasing
  below := h.below
  leaves := h.leaves
  warned := h.warned
  fresh free := ((Bool.and_eq_true _ _).mp (h.fresh free)).2

/-- Leaves are met when their tokens are read. -/
theorem read {ls : List Leaf} (h : Traced all t s) (onward : s.Onward s')
    (hid : s'.nextId = s.nextId) (hdiagnostics : s'.diagnostics = s.diagnostics)
    (hrest : leavesOf s.rest = ls ++ leavesOf s'.rest) : Traced all (t.read ls) s' := by
  rw [t.read_eq]
  refine ⟨onward.sound h.sound, h.increasing, hid ▸ h.below, fun free => ?_, fun free => ?_,
    fun free => h.fresh (onward.errorFree free)⟩
  · rw [← h.leaves (onward.errorFree free), hrest, List.append_assoc]
  · exact hdiagnostics.trans (h.warned (onward.errorFree free))

/-- The next number is larger than all before. A warning about the new node is the last one. -/
theorem next (h : Traced all t s) (warning? : Option Diagnostic) (hrest : s'.rest = s.rest)
    (hfinal : s'.final = s.final) (hid : s'.nextId = s.nextId + 1)
    (hdiagnostics : s'.diagnostics = s.diagnostics ++ warning?.toList) :
    Traced all (t.note ⟨⟨s.nextId⟩, warning?⟩) s' := by
  have onward : s.Onward s' := ⟨hfinal, hrest ▸ List.suffix_refl _, hdiagnostics ▸
    List.prefix_append _ _⟩
  refine ⟨onward.sound h.sound, ?_, ?_, fun free => ?_, fun free => ?_,
    fun free => h.fresh (onward.errorFree free)⟩
  · refine List.pairwise_append.2 ⟨h.increasing, List.pairwise_singleton _ _, fun a ha b hb => ?_⟩
    rw [List.mem_singleton.1 hb]
    exact h.below a ha
  · intro a ha
    rw [hid]
    rcases List.mem_append.1 ha with ha | ha
    · exact Nat.lt_succ_of_lt (h.below a ha)
    · rw [List.mem_singleton.1 ha]
      exact Nat.lt_succ_self s.nextId
  · rw [hrest]
    exact h.leaves (onward.errorFree free)
  · rw [hdiagnostics, h.warned (onward.errorFree free)]
    cases warning? <;> simp [Trace.note]

end Traced

namespace Returns

variable {α β : Type} {known : α → Prop}

/-- A result that is at hand. -/
theorem pure {a : α} (h : known a) : Returns (Pure.pure a) known := by
  intro s b s' hrun
  cases hrun
  exact h

/-- A failure has none. -/
theorem failed {e : SyntaxError} : Returns (throw e : Parser α) known := by
  intro s a s' hrun
  cases hrun

/-- A result is that of the last parser. -/
theorem bind {p : Parser β} {f : β → Parser α} (hf : ∀ b, Returns (f b) known) :
    Returns (p >>= f) known := by
  intro s a s' hrun
  obtain ⟨b, s₁, -, hrun'⟩ := bind_ok hrun
  exact hf b hrun'

end Returns

namespace Traces

variable {α β : Type} {pre : ParserState → Prop} {t : Trace}

/-- A result whose trace is known already. -/
theorem pure {after : α → Trace} {a : α} (h : after a = t) : Traces pre t (Pure.pure a) after := by
  subst h
  exact fun _ s hs _ => ⟨Nat.le_refl s.nextId, hs⟩

/-- One parser after another, where the result of the first one and the state between them are
known to satisfy `mid`. -/
theorem bind_known (mid : α → ParserState → Prop) {p : Parser α} {f : α → Parser β}
    {between : α → Trace} {after : β → Trace} (hp : Traces pre t p between)
    (hmid : ∀ ⦃s a s'⦄, s.Sound → pre s → p s = .ok a s' → mid a s')
    (hf : ∀ a, Traces (mid a) (between a) (f a) after) : Traces pre t (p >>= f) after := by
  intro all s hs hpre
  change TracedOutcome all after s (EStateM.bind p f s)
  unfold EStateM.bind
  have first := hp all s hs hpre
  cases hrun : p s with
  | error e s₁ =>
    rw [hrun] at first
    exact first
  | ok a s₁ =>
    rw [hrun] at first
    obtain ⟨hle, htraced⟩ := first
    dsimp only
    have second := hf a all s₁ htraced (hmid hs.sound hpre hrun)
    cases hrun' : f a s₁ with
    | error e s' =>
      rw [hrun'] at second
      exact ⟨Nat.le_trans hle second.1, second.2⟩
    | ok b s' =>
      rw [hrun'] at second
      exact ⟨Nat.le_trans hle second.1, second.2⟩

/-- One parser after another. -/
theorem bind {p : Parser α} {f : α → Parser β} {between : α → Trace} {after : β → Trace}
    (hp : Traces pre t p between) (hf : ∀ a, Traces (fun _ => True) (between a) (f a) after) :
    Traces pre t (p >>= f) after :=
  hp.bind_known (fun _ _ => True) (fun _ _ _ _ _ _ => trivial) hf

/-- A parser whose result is changed. -/
theorem map {p : Parser α} {f : α → β} {after : β → Trace}
    (hp : Traces pre t p fun a => after (f a)) : Traces pre t (f <$> p) after := by
  intro all s hs hpre
  change TracedOutcome all after s (EStateM.map f p s)
  unfold EStateM.map
  have run := hp all s hs hpre
  cases hrun : p s with
  | error e s' =>
    rw [hrun] at run
    exact run
  | ok a s' =>
    rw [hrun] at run
    exact run

/-- A parser whose result is not used. -/
theorem discard {p : Parser α} (hp : Traces pre t p fun _ => t) :
    Traces pre t (Functor.discard p) fun _ => t :=
  map hp

/-- A look at the state does not change it. -/
theorem peek {view : ParserState → α} {f : α → Parser β} {after : β → Trace}
    (hf : ∀ a, Traces (fun s => pre s ∧ view s = a) t (f a) after) :
    Traces pre t ((view <$> get) >>= f) after :=
  fun all s hs hpre => hf (view s) all s hs ⟨hpre, rfl⟩

/-- Neither does a look at all of it. -/
theorem state {f : ParserState → Parser β} {after : β → Trace}
    (hf : ∀ s, Traces (fun s' => pre s' ∧ s' = s) t (f s) after) : Traces pre t (get >>= f) after :=
  fun all s hs hpre => hf s all s hs ⟨hpre, rfl⟩

/-- What is known of the state is known. -/
theorem assume {P : Prop} {p : Parser α} {after : α → Trace} (hpre : ∀ s, pre s → P)
    (hp : P → Traces pre t p after) : Traces pre t p after :=
  fun all s hs h => hp (hpre s h) all s hs h

/-- What holds from more states holds from fewer. -/
theorem from_fewer {pre' : ParserState → Prop} {p : Parser α} {after : α → Trace}
    (hp : Traces pre t p after) (hpre : ∀ s, pre' s → pre s) : Traces pre' t p after :=
  fun all s hs h => hp all s hs (hpre s h)

/-- What holds from all states holds from some. -/
theorem anywhere {p : Parser α} {after : α → Trace} (hp : Traces (fun _ => True) t p after) :
    Traces pre t p after :=
  hp.from_fewer fun _ _ => trivial

/-- A choice by a condition. -/
theorem ite {c : Prop} [Decidable c] {p q : Parser α} {after : α → Trace}
    (hp : c → Traces pre t p after) (hq : ¬c → Traces pre t q after) :
    Traces pre t (if c then p else q) after := by
  split
  · exact hp ‹c›
  · exact hq ‹¬c›

/-- A failure has no result. -/
theorem failed {e : SyntaxError} {after : α → Trace} : Traces pre t (throw e : Parser α) after :=
  fun _ s hs _ => ⟨Nat.le_refl s.nextId, hs.sound⟩

/-- A change of the state without leaves, numbers and warnings. -/
theorem update {f : ParserState → ParserState} (h : ∀ s : ParserState, s.Still (f s)) :
    Traces pre t (modify f) fun _ => t :=
  fun _ s hs _ => ⟨Nat.le_of_eq (h s).nextId.symm, hs.still (h s)⟩

/-- The parts of a trace that are checked may be forgotten. -/
theorem uncheck {ok : Bool} {p : Parser α} {after : α → Trace} (hp : Traces pre t p after) :
    Traces pre (t.check ok) p after :=
  fun all s hs hpre => hp all s hs.uncheck hpre

end Traces

namespace Parse

variable {α : Type} {pre : ParserState → Prop} {t kept : Trace}

/-- A step over the token at hand reads its leaf. -/
theorem advance_traces (leaf? : Option Leaf) (h : ∀ s, pre s → Leaf.ofToken? s.current = leaf?) :
    Traces pre t advance fun _ => t.read leaf?.toList := by
  intro all s hs hpre
  have hleaf := h s hpre
  have hid : s.advance.nextId = s.nextId := by
    unfold ParserState.advance ParserState.bump
    dsimp only
    split <;> split <;> rfl
  refine ⟨Nat.le_of_eq hid.symm, hs.read s.advance_onward hid s.advance_kept.2 ?_⟩
  cases hrest : s.rest with
  | nil =>
    have hnone : Leaf.ofToken? s.current = none :=
      ParserState.current_mute (hs.sound.kind_eq_eof.2 hrest) mute_eof
    rw [s.advance_onward.rest_nil hrest, ← hleaf, hnone]
    rfl
  | cons x xs =>
    obtain ⟨breaks, rfl, hbreaks⟩ := ParserState.advance_rest hrest
    have hcurrent : s.current = x := by simp [ParserState.current, hrest]
    rw [← List.singleton_append, leavesOf_append, leavesOf_append,
      leavesOf_mute fun b hb => hbreaks b hb ▸ mute_newline, ← hleaf, hcurrent]
    cases h : Leaf.ofToken? x <;> simp [leavesOf, h]

/-- A step over a token of a mute kind reads nothing. -/
theorem advance_mute {k : TokenKind} (h : ∀ s, pre s → s.kind = k) (hk : k.Mute) :
    Traces pre t advance fun _ => t :=
  advance_traces none fun s hs => ParserState.current_mute (h s hs) hk

/-- Line breaks have no leaves. -/
theorem skipNewlines_traces : Traces pre t skipNewlines fun _ => t :=
  .update ParserState.skipNewlines_still

/-- Neither have the ends of statements. -/
theorem skipTerminators_traces : Traces pre t skipTerminators fun _ => t :=
  .update ParserState.skipTerminators_still

/-- Nor has what stands between entries. -/
theorem skipSeparators_traces : Traces pre t skipSeparators fun _ => t := by
  refine .update (ParserState.skipWhile_still fun k hk => ?_)
  rcases of_decide_eq_true hk with rfl | rfl | rfl
  · exact mute_newline
  · exact mute_symbol _
  · exact mute_symbol _

/-- A group is entered. -/
theorem openGroup_traces (ignored : Bool) : Traces pre t (openGroup ignored) fun _ => t :=
  .update (ParserState.openGroup_still ignored)

/-- A group is left. -/
theorem closeGroup_traces : Traces pre t closeGroup fun _ => t :=
  .update ParserState.closeGroup_still

/-- Something is missing: there is no result. -/
theorem failExpected_traces {what : String} {after : α → Trace} :
    Traces pre t (failExpected what) after :=
  .state fun _ => .failed

/-- A parser that is stuck has no result. -/
theorem stalled_traces {after : α → Trace} : Traces pre t stalled after :=
  .peek fun _ => .failed

/-- A token of a mute kind that may be there. -/
theorem accept_traces {k : TokenKind} (hk : k.Mute) : Traces pre t (accept k) fun _ => t := by
  refine .peek fun found => .ite (fun h => ?_) fun _ => .pure rfl
  exact (advance_mute (fun s hs => eq_of_beq (hs.2.trans h)) hk).bind fun _ => .pure rfl

/-- A symbol that may be there. -/
theorem acceptSymbol_traces (mark : Symbol) : Traces pre t (acceptSymbol mark) fun _ => t :=
  accept_traces (mute_symbol mark)

/-- A token of a mute kind that has to be there. -/
theorem expect_traces {k : TokenKind} (hk : k.Mute) : Traces pre t (expect k) fun _ => t := by
  refine .peek fun found => .ite (fun h => .peek fun span => ?_) fun _ => failExpected_traces
  exact (advance_mute (fun s hs => eq_of_beq (hs.1.2.trans h)) hk).bind fun _ => .pure rfl

/-- A symbol that has to be there. -/
theorem expectSymbol_traces (mark : Symbol) :
    Traces pre t (discard (expectSymbol mark)) fun _ => t :=
  (expect_traces (mute_symbol mark)).discard

/-- A keyword without a leaf that has to be there. -/
theorem expectKeyword_traces {word : Keyword} (h : TokenKind.Mute (.keyword word)) :
    Traces pre t (discard (expectKeyword word)) fun _ => t :=
  (expect_traces h).discard

/-- A name that has to be there is a leaf. -/
theorem expectIdent_traces : Traces pre t expectIdent fun name => t.leaf (.ident name) := by
  refine .peek fun token => ?_
  split
  · rename_i name span
    refine (advance_traces (some (.ident ⟨name, span⟩)) fun s hs => ?_).bind fun _ => .pure rfl
    rw [hs.2]
    rfl
  · exact failExpected_traces

/-- A name that is there is stepped over. -/
theorem expectIdent_state {s s' : ParserState} {name : Ident} (h : expectIdent s = .ok name s') :
    s' = s.advance := by
  obtain ⟨token, s₁, h₁, h₂⟩ := bind_ok h
  have hs : s₁ = s := by
    cases h₁
    rfl
  rw [hs] at h₂
  split at h₂
  · cases h₂
    rfl
  · cases h₂

/-- An error is recorded, behind which something is missing and nodes need not be kept. -/
theorem record_traces (hsub : kept.notes.Sublist t.notes) (e : SyntaxError) :
    Traces pre t (record e) fun _ => kept.check false := by
  intro all s hs _
  have hstill := s.record_still e
  exact ⟨Nat.le_of_eq hstill.nextId.symm, (hs.still hstill).lose hsub (s.record_not_errorFree e)⟩

/-- So is one about something that was expected. -/
theorem reportExpected_traces (hsub : kept.notes.Sublist t.notes) (what : String) :
    Traces pre t (reportExpected what) fun _ => kept.check false :=
  .state fun _ => .ite (fun _ => Traces.failed.bind fun _ => record_traces hsub _)
    fun _ => record_traces hsub _

/-- A group is closed by its symbol. -/
theorem closeStrict_traces (mark : Symbol) : Traces pre t (closeStrict mark) fun _ => t :=
  closeGroup_traces.bind fun _ => expectSymbol_traces mark

/-- A missing closing symbol is an error. -/
theorem close_traces (hsub : kept.notes.Sublist t.notes) (mark : Symbol) :
    Traces pre t (close mark) fun closed => if closed then t else kept.check false :=
  closeGroup_traces.bind fun _ => (acceptSymbol_traces mark).bind fun _ =>
    .ite (fun _ => .pure rfl) fun _ => (reportExpected_traces hsub _).bind fun _ => .pure rfl

/-- Where a closing symbol is missing, a stub may take the place of some nodes. -/
theorem closeOr_traces {mark : Symbol} {stub rest : Parser α} {after : α → Trace}
    (hsub : kept.notes.Sublist t.notes)
    (hstub : Traces (fun _ => True) (kept.check false) stub after)
    (hrest : Traces (fun _ => True) t rest after) :
    Traces pre t (close mark >>= fun closed => if (!closed) = true then stub else rest) after := by
  refine (close_traces hsub mark).bind fun closed => ?_
  cases closed with
  | false => exact hstub
  | true => exact hrest

/-- A number for a new node. -/
theorem freshId_traces : Traces pre t freshId fun i => t.note ⟨i, none⟩ :=
  fun _ s hs _ => ⟨Nat.le_succ s.nextId, hs.next none rfl rfl rfl (List.append_nil _).symm⟩

/-- The number of a new node comes with its place. -/
theorem origin_traces {span : Span} : Traces pre t (origin span) fun o => t.note ⟨o.id, none⟩ :=
  freshId_traces.bind fun _ => .pure rfl

/-- A new expression that is not in parentheses, behind its parts. -/
theorem newExpr_traces {before : Trace} {form : ExprForm} {span : Span}
    (hform : form.remark? = none) (h : form.traceAfter before = t) :
    Traces pre t (newExpr form span) fun e => e.traceAfter before := by
  refine origin_traces.bind fun o => .pure ?_
  change (form.traceAfter before).note ⟨o.id, form.remark?.map _⟩ = _
  rw [hform, h]
  rfl

/-- A new type, behind its parts. -/
theorem newType_traces {before : Trace} {form : TypeForm} {span : Span}
    (h : form.traceAfter before = t) :
    Traces pre t (newType form span) fun e => e.traceAfter before := by
  subst h
  exact origin_traces.bind fun o => .pure rfl

/-- Elements between commas. -/
theorem commaList_traces {c : Category} {closes : TokenKind → Bool} {gap : Parser Unit}
    {element : Parser (Node c)} (hgap : ∀ {t}, Traces (fun _ => True) t gap fun _ => t)
    (helement : ∀ {t}, Traces (fun _ => True) t element fun x => x.traceAfter t) (n : Nat)
    (afterComma : Bool) : Traces pre t (commaList closes gap element n afterComma) fun xs =>
      (Node.ofList xs.1).traceAfter t := by
  induction n generalizing pre t afterComma with
  | zero => exact stalled_traces
  | succ n ih =>
    refine .peek fun k => .ite (fun _ => .pure rfl) fun _ => helement.anywhere.bind fun x => ?_
    refine (acceptSymbol_traces _).bind fun found => .ite (fun _ => ?_) fun _ => .pure rfl
    exact hgap.bind fun _ => (ih true).bind fun _ => .pure rfl

/-- Elements between commas up to a symbol. -/
theorem commaListTo_traces {c : Category} {mark : Symbol} {element : Parser (Node c)}
    (helement : ∀ {t}, Traces (fun _ => True) t element fun x => x.traceAfter t) (n : Nat) :
    Traces pre t (commaListTo n mark element) fun xs => (Node.ofList xs).traceAfter t :=
  .map (commaList_traces (.pure rfl) helement n false)

/-- The trace of a construct that may be abandoned, with everything in it. -/
def traceOr {c : Category} (t : Trace) : Option (Node c) → Trace
  | some x => x.traceAfter t
  | none => t.check false

/-- A construct that may be abandoned: what was met in it is lost with it, and an error is
recorded. -/
theorem recovering_traces {c : Category} {p : Parser (Node c)}
    (hp : Traces pre t p fun x => x.traceAfter t) :
    Traces pre t (recovering p) (traceOr t) := by
  intro all s hs hpre
  have run := hp all s hs hpre
  have finish {result : Option (Node c)} {s₁ : ParserState} (hle : s.nextId ≤ s₁.nextId)
      (htraced : Traced all (traceOr t result) s₁) : TracedOutcome all (traceOr t) s
        (if maxErrors ≤ (s₁.settle s).errorCount then
          .error ⟨.tooManyErrors, (s₁.settle s).current.span⟩ (s₁.settle s)
        else .ok result (s₁.settle s)) := by
    have hsettled := s₁.settle_still s
    have hle' : s.nextId ≤ (s₁.settle s).nextId := hsettled.nextId ▸ hle
    split
    · exact ⟨hle', (htraced.still hsettled).sound⟩
    · exact ⟨hle', htraced.still hsettled⟩
  unfold recovering
  dsimp only
  cases hrun : p s with
  | ok x s₁ =>
    rw [hrun] at run
    exact finish run.1 run.2
  | error e s₁ =>
    rw [hrun] at run
    obtain ⟨hle, sound⟩ := run
    dsimp only
    split
    · exact ⟨hle, sound⟩
    · have broken := s₁.record_not_errorFree e
      refine finish hle ⟨(s₁.record_still e).sound sound, hs.increasing, fun a ha => ?_,
        fun free => absurd free broken, fun free => absurd free broken,
        fun free => absurd free broken⟩
      exact Nat.lt_of_lt_of_le (hs.below a ha) hle

end Parse

end FrontEnd
