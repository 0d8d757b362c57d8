import FrontEnd.Proofs.Following.Steps
import FrontEnd.Proofs.Loosening.Joints
import FrontEnd.Proofs.States

/-!
# Parsers on tokens with more line breaks

A parser that reads some tokens without errors reads them alike when line breaks are put in,
provided that it passes over line breaks behind every token at which they are. Those tokens are
commas, and tokens that join the next ones to them. `Loosens` counts the joining tokens a parser
reads against the joints of its result: there are never more joints, so where no joining token is
left over, every one of them was read as an operator or a colon.
-/

namespace FrontEnd

/-- A span that covers no text. -/
def Span.Flat (s : Span) : Prop := s.pos = 0 ∧ s.len = 0

/-- The same state over other tokens. -/
def ParserState.over (s : ParserState) (tokens : List Token) (last : Span) : ParserState :=
  { s with rest := tokens, lastSpan := last }

/-- What is known of the tokens between two steps of a parser. -/
inductive Stance where
  /-- Nothing is put in at hand. -/
  | firm
  /-- The kind of the token at hand is known, too. -/
  | known (k : TokenKind)
  /-- The kind of the first token at hand that is no line break is known. -/
  | past (k : TokenKind)
  /-- The token at hand is no comma. -/
  | apart
  /-- The token at hand, which is no line break, may be joined to what was read last. -/
  | poised
  /-- Line breaks may be put in at hand. What comes behind them may be joined. -/
  | loose

/-- What is known of the state. -/
def Stance.Holds : Stance → ParserState → Prop
  | known k, s => s.kind = k
  | past k, s => s.kindAfterNewlines = k
  | apart, s => s.kind ≠ .symbol .comma
  | poised, s => s.kind ≠ .newline
  | _, _ => True

namespace Loosening

variable (K : Loosening)

/-- How many of the tokens of some nodes are joined. -/
def tally (js : List FileId) : Nat := js.countP K.joined

/-- How many joints there may be in the tokens to come. -/
def weightAt : Stance → List Token → Nat
  | .firm, tokens | .known _, tokens | .past _, tokens | .apart, tokens => K.weight tokens
  | .poised, tokens | .loose, tokens => K.due tokens + K.weight tokens

/-- How the tokens to come are spread. -/
def Fits : Stance → List Token → List Token → Prop
  | .loose, xs, ys => ∃ n zs, ys = List.replicate n lineBreak ++ zs ∧ K.Spread xs zs
  | _, xs, ys => K.Spread xs ys

/-- A state of a parser inside groups, in some of which line breaks are ignored. -/
structure Stands (a : Stance) (groups : List Bool) (s : ParserState) : Prop where
  final : s.final = K.final
  flat : ∀ t ∈ s.rest, t.span.Flat
  last : s.lastSpan.Flat
  groups_eq : s.groups.map (·.ignoresNewlines) = groups
  holds : a.Holds s

end Loosening

/-- What a run without errors shows. -/
structure LooseRun {α : Type} (K : Loosening) (a : Stance) (groups : List Bool) (js : List FileId)
    (p : Parser α) (after : α → List FileId) (s : ParserState) (x : α) (s' : ParserState) :
    Prop where
  stands : K.Stands .firm groups s'
  weight : K.tally (after x) + K.weight s'.rest ≤ K.tally js + K.weightAt a s.rest
  /-- Where every joining token has its joint, the run is the same with more line breaks. -/
  follows : K.tally js + K.weightAt a s.rest ≤ K.tally (after x) + K.weight s'.rest →
    ∀ ⦃ys : List Token⦄ ⦃last : Span⦄, K.Fits a s.rest ys → last.Flat →
      ∃ ys' last', p (s.over ys last) = .ok x (s'.over ys' last') ∧ K.Spread s'.rest ys' ∧
        last'.Flat

/-- In front of a parser the joints are `js`, behind it those given by its result; it leads from
groups to groups, and its runs without errors are the same with more line breaks. -/
structure Loosens {α : Type} (K : Loosening) (a : Stance) (groups groups' : List Bool)
    (js : List FileId) (p : Parser α) (after : α → List FileId) : Prop where
  free : ∀ ⦃s : ParserState⦄ ⦃x : α⦄ ⦃s' : ParserState⦄, p s = .ok x s' → s'.ErrorFree →
    s.ErrorFree
  runs : ∀ ⦃s : ParserState⦄ ⦃x : α⦄ ⦃s' : ParserState⦄, K.Stands a groups s → p s = .ok x s' →
    s'.ErrorFree → LooseRun K a groups' js p after s x s'

/-- A change of the state in which no joining token gets lost. -/
structure Loosening.Moves (K : Loosening) (a b : Stance) (groups groups' : List Bool)
    (f : ParserState → ParserState) : Prop where
  diagnostics : ∀ s, (f s).diagnostics = s.diagnostics
  stands : ∀ ⦃s : ParserState⦄, K.Stands a groups s → K.Stands b groups' (f s)
  weight : ∀ ⦃s : ParserState⦄, K.Stands a groups s →
    K.weightAt b (f s).rest ≤ K.weightAt a s.rest
  follows : ∀ ⦃s : ParserState⦄, K.Stands a groups s →
    K.weightAt a s.rest ≤ K.weightAt b (f s).rest → ∀ ⦃ys : List Token⦄ ⦃last : Span⦄,
      K.Fits a s.rest ys → last.Flat → ∃ ys' last', f (s.over ys last) = (f s).over ys' last' ∧
        K.Fits b (f s).rest ys' ∧ last'.Flat

section Spans

variable {s : ParserState} {tokens : List Token} {last : Span}

/-- A flat span adds nothing to others. -/
theorem ParserState.spanFrom_over (h : s.lastSpan.Flat) (hlast : last.Flat) (start : Span) :
    (s.over tokens last).spanFrom start = s.spanFrom start := by
  unfold spanFrom Span.cover Span.stop
  change (if last.pos < start.pos then _ else _) = _
  dsimp only [ParserState.over]
  rw [h.1, h.2, hlast.1, hlast.2]

end Spans

namespace Loosening

variable {K : Loosening} {a : Stance} {groups : List Bool} {s : ParserState}
  {ys : List Token} {last : Span}

/-- Nothing is put in at hand. -/
theorem Fits.spread (h : K.Fits a s.rest ys) (ha : a ≠ .loose) : K.Spread s.rest ys := by
  cases a with
  | loose => exact absurd rfl ha
  | _ => exact h

/-- A stance adds to the weight of the tokens. -/
theorem weight_le_weightAt (a : Stance) (tokens : List Token) :
    K.weight tokens ≤ K.weightAt a tokens := by
  cases a with
  | firm => exact Nat.le_refl _
  | known k => exact Nat.le_refl _
  | past k => exact Nat.le_refl _
  | apart => exact Nat.le_refl _
  | poised => exact Nat.le_add_left _ _
  | loose => exact Nat.le_add_left _ _

/-- With less known of the state, nothing is put in at hand. -/
theorem Stands.firm (h : K.Stands a groups s) : K.Stands .firm groups s :=
  ⟨h.final, h.flat, h.last, h.groups_eq, trivial⟩

/-- A token of another kind is no comma. -/
theorem Stands.apart {k : TokenKind} (hk : k ≠ .symbol .comma) (h : K.Stands (.known k) groups s) :
    K.Stands .apart groups s :=
  { h with holds := fun hcomma => hk (h.holds.symm.trans hcomma) }

/-- The same token is at hand. -/
theorem Spread.current (h : K.Spread s.rest ys) : (s.over ys last).current = s.current := by
  unfold ParserState.current
  change ys.head?.getD s.final = _
  rw [h.head?]

/-- The token at hand is the same on both sides. -/
theorem Spread.kind (h : K.Spread s.rest ys) : (s.over ys last).kind = s.kind :=
  congrArg Token.kind h.current

/-- So is the one behind line breaks. -/
theorem Spread.kindAfterNewlines (h : K.Spread s.rest ys) :
    (s.over ys last).kindAfterNewlines = s.kindAfterNewlines := by
  have hp : decide (lineBreak.kind = .newline) = true := rfl
  unfold ParserState.kindAfterNewlines
  change ((ys.dropWhile _).head?.getD s.final).kind = _
  rw [(h.dropWhile hp).head?]

/-- The number of the next token is that of the one at hand, unless that is a line break. -/
theorem due_current (hfinal : s.final = K.final) (h : s.kind ≠ .newline) :
    K.due s.rest = (K.joined s.current.span.file).toNat := by
  have hnext : K.next s.rest = s.current := by
    unfold ParserState.kind ParserState.current at h
    unfold ParserState.current
    cases hrest : s.rest with
    | nil => exact hfinal.symm
    | cons x xs =>
      rw [hrest] at h
      exact next_cons h xs
  unfold due
  rw [hnext]

end Loosening

/-- It reports nothing. -/
theorem Loosening.Moves.errorFree {K : Loosening} {a b : Stance} {G G' : List Bool}
    {f : ParserState → ParserState} (h : K.Moves a b G G' f) {s : ParserState}
    (free : (f s).ErrorFree) : s.ErrorFree := by
  unfold ParserState.ErrorFree at free ⊢
  rwa [h.diagnostics s] at free

/-- A run behind such a change. -/
theorem LooseRun.behind {α : Type} {K : Loosening} {a b : Stance} {G G₁ G' : List Bool}
    {js : List FileId} {p q : Parser α} {after : α → List FileId} {s s' : ParserState} {x : α}
    {f : ParserState → ParserState} (run : LooseRun K b G' js q after (f s) x s')
    (h : K.Moves a b G G₁ f) (hs : K.Stands a G s)
    (hsame : ∀ (ys : List Token) (last : Span), K.Fits a s.rest ys →
      K.weightAt a s.rest ≤ K.weightAt b (f s).rest → p (s.over ys last) = q (f (s.over ys last))) :
    LooseRun K a G' js p after s x s' := by
  obtain ⟨stands, weight, follows⟩ := run
  have hmoved := h.weight hs
  refine ⟨stands, weight.trans (Nat.add_le_add_left hmoved _), fun hall ys last fits hlast => ?_⟩
  -- No joining token got lost in the change, or there would be too few of them left.
  have hkept : K.weightAt a s.rest ≤ K.weightAt b (f s).rest :=
    Nat.le_of_add_le_add_left (hall.trans weight)
  obtain ⟨ys₁, last₁, hmoves, fits₁, hlast₁⟩ := h.follows hs hkept fits hlast
  obtain ⟨ys', last', hrun', spread, hlast'⟩ :=
    follows ((Nat.add_le_add_left hmoved _).trans hall) fits₁ hlast₁
  refine ⟨ys', last', ?_, spread, hlast'⟩
  rw [hsame ys last fits hkept, hmoves]
  exact hrun'

namespace Loosens

variable {α β : Type} {K : Loosening} {a : Stance} {G G₁ G' : List Bool} {js : List FileId}
  {p : Parser α} {after : α → List FileId}

/-- Where it does not matter what may be joined. -/
theorem relax (ha : a ≠ .loose) (hp : Loosens K .firm G G' js p after) :
    Loosens K a G G' js p after where
  free := hp.free
  runs s x s' hs hrun free := by
    obtain ⟨stands, weight, follows⟩ := hp.runs hs.firm hrun free
    have hle := K.weight_le_weightAt a s.rest
    refine ⟨stands, weight.trans (Nat.add_le_add_left hle _), fun hall ys last fits hlast => ?_⟩
    exact follows ((Nat.add_le_add_left hle _).trans hall) (fits.spread ha) hlast

/-- A parser in front of which nothing is put in can be run where the token at hand is known. -/
theorem known {k : TokenKind} (hp : Loosens K .firm G G' js p after) :
    Loosens K (.known k) G G' js p after :=
  hp.relax nofun

/-- So it can where the token behind line breaks is known. -/
theorem past {k : TokenKind} (hp : Loosens K .firm G G' js p after) :
    Loosens K (.past k) G G' js p after :=
  hp.relax nofun

/-- So it can where the token at hand may be joined to what was read last. -/
theorem poised (hp : Loosens K .firm G G' js p after) : Loosens K .poised G G' js p after :=
  hp.relax nofun

/-- A token that is no comma may be any other one. -/
theorem apart {k : TokenKind} (hk : k ≠ .symbol .comma) (hp : Loosens K .apart G G' js p after) :
    Loosens K (.known k) G G' js p after where
  free := hp.free
  runs s x s' hs hrun free := by
    obtain ⟨stands, weight, follows⟩ := hp.runs (hs.apart hk) hrun free
    exact ⟨stands, weight, follows⟩

/-- Joints that were read before may get lost. -/
theorem drop {before : List FileId} (h : K.tally before ≤ K.tally js)
    (hp : Loosens K a G G' before p after) : Loosens K a G G' js p after where
  free := hp.free
  runs s x s' hs hrun free := by
    obtain ⟨stands, weight, follows⟩ := hp.runs hs hrun free
    refine ⟨stands, weight.trans (Nat.add_le_add_right h _), fun hall ys last fits hlast => ?_⟩
    exact follows ((Nat.add_le_add_right h _).trans hall) fits hlast

/-- A parser without a result, or with errors, shows nothing. -/
theorem broken (h : ∀ s x s', p s = .ok x s' → ¬s'.ErrorFree) : Loosens K a G G' js p after where
  free s x s' hrun free := absurd free (h s x s' hrun)
  runs s x s' _ hrun free := absurd free (h s x s' hrun)

/-- A result that has no joints but those read before. -/
theorem pure {x : α} (h : K.tally (after x) ≤ K.tally js) :
    Loosens K .firm G G js (Pure.pure x) after where
  free s y s' hrun free := by
    cases hrun
    exact free
  runs s y s' hs hrun _ := by
    cases hrun
    exact ⟨hs, Nat.add_le_add_right h _, fun _ ys last fits hlast => ⟨ys, last, rfl, fits, hlast⟩⟩

/-- One parser after another. -/
theorem bind {f : α → Parser β} {after' : β → List FileId} (hp : Loosens K a G G₁ js p after)
    (hf : ∀ x, Loosens K .firm G₁ G' (after x) (f x) after') :
    Loosens K a G G' js (p >>= f) after' where
  free s y s' hrun free := by
    obtain ⟨x, s₁, hp₁, hf₁⟩ := bind_ok hrun
    exact hp.free hp₁ ((hf x).free hf₁ free)
  runs s y s' hs hrun free := by
    obtain ⟨x, s₁, hp₁, hf₁⟩ := bind_ok hrun
    obtain ⟨stands, weight, follows⟩ := hp.runs hs hp₁ ((hf x).free hf₁ free)
    obtain ⟨stands', weight', follows'⟩ := (hf x).runs stands hf₁ free
    refine ⟨stands', weight'.trans weight, fun hall ys last fits hlast => ?_⟩
    -- No joint is missing in the whole, and so none is in either part.
    obtain ⟨ys₁, last₁, hrun₁, spread, hlast₁⟩ := follows (hall.trans weight') fits hlast
    obtain ⟨ys', last', hrun', spread', hlast'⟩ := follows' (weight.trans hall) spread hlast₁
    refine ⟨ys', last', ?_, spread', hlast'⟩
    change EStateM.bind p f (s.over ys last) = _
    unfold EStateM.bind
    rw [hrun₁]
    exact hrun'

/-- A parser whose result is changed. -/
theorem map {f : α → β} {after' : β → List FileId}
    (hp : Loosens K a G G' js p fun x => after' (f x)) : Loosens K a G G' js (f <$> p) after' where
  free s y s' hrun free := by
    change EStateM.map f p s = _ at hrun
    unfold EStateM.map at hrun
    split at hrun
    · rename_i x s₁ hp₁
      cases hrun
      exact hp.free hp₁ free
    · cases hrun
  runs s y s' hs hrun free := by
    change EStateM.map f p s = _ at hrun
    unfold EStateM.map at hrun
    split at hrun
    · rename_i x s₁ hp₁
      cases hrun
      obtain ⟨stands, weight, follows⟩ := hp.runs hs hp₁ free
      refine ⟨stands, weight, fun hall ys last fits hlast => ?_⟩
      obtain ⟨ys', last', hrun', spread, hlast'⟩ := follows hall fits hlast
      refine ⟨ys', last', ?_, spread, hlast'⟩
      change EStateM.map f p (s.over ys last) = _
      unfold EStateM.map
      rw [hrun']
    · cases hrun

/-- A choice by a condition. -/
theorem ite {c : Prop} [Decidable c] {q : Parser α} (hp : Loosens K a G G' js p after)
    (hq : Loosens K a G G' js q after) : Loosens K a G G' js (if c then p else q) after := by
  split
  · exact hp
  · exact hq

/-- Something is done that depends on the state, but not on what is put in. What it depends on is
known of the state. -/
theorem inspect {f : ParserState → Parser α} (view : ParserState → Stance)
    (hview : ∀ s : ParserState, (view s).Holds s ∧ (∀ xs, K.weightAt (view s) xs = K.weight xs) ∧
      ∀ xs ys, K.Spread xs ys → K.Fits (view s) xs ys)
    (hsame : ∀ (s : ParserState) (ys : List Token) (last : Span), K.Spread s.rest ys →
      f (s.over ys last) = f s)
    (hf : ∀ s : ParserState, Loosens K (view s) G G' js (f s) after) :
    Loosens K .firm G G' js (get >>= f) after where
  free s x s' hrun free := (hf s).free (show f s s = _ from hrun) free
  runs s x s' hs hrun free := by
    obtain ⟨holds, hweight, hfits⟩ := hview s
    have viewed : K.Stands (view s) G s := ⟨hs.final, hs.flat, hs.last, hs.groups_eq, holds⟩
    obtain ⟨stands, weight, follows⟩ := (hf s).runs viewed (show f s s = _ from hrun) free
    rw [hweight] at weight follows
    refine ⟨stands, weight, fun hall ys last fits hlast => ?_⟩
    obtain ⟨ys', last', hrun', spread, hlast'⟩ := follows hall (hfits _ _ fits) hlast
    refine ⟨ys', last', ?_, spread, hlast'⟩
    change f (s.over ys last) (s.over ys last) = _
    rw [hsame s ys last fits]
    exact hrun'

theorem state {f : ParserState → Parser α}
    (hsame : ∀ (s : ParserState) (ys : List Token) (last : Span), K.Spread s.rest ys →
      f (s.over ys last) = f s)
    (hf : ∀ s : ParserState, Loosens K (.known s.kind) G G' js (f s) after) :
    Loosens K .firm G G' js (get >>= f) after :=
  inspect (fun s => .known s.kind) (fun _ => ⟨rfl, fun _ => rfl, fun _ _ => id⟩) hsame hf

/-- The same where line breaks at hand may be passed over next. -/
theorem statePast {f : ParserState → Parser α}
    (hsame : ∀ (s : ParserState) (ys : List Token) (last : Span), K.Spread s.rest ys →
      f (s.over ys last) = f s)
    (hf : ∀ s : ParserState, Loosens K (.past s.kindAfterNewlines) G G' js (f s) after) :
    Loosens K .firm G G' js (get >>= f) after :=
  inspect (fun s => .past s.kindAfterNewlines) (fun _ => ⟨rfl, fun _ => rfl, fun _ _ => id⟩) hsame
    hf

/-- A look at something that does not depend on what is put in. -/
theorem look {view : ParserState → β} {f : β → Parser α} (ha : a ≠ .loose)
    (hview : ∀ (s : ParserState) (ys : List Token) (last : Span), K.Stands .firm G s →
      K.Spread s.rest ys → last.Flat → view (s.over ys last) = view s)
    (hf : ∀ b, Loosens K a G G' js (f b) after) :
    Loosens K a G G' js (view <$> get >>= f) after where
  free s x s' hrun free := (hf (view s)).free (show f (view s) s = _ from hrun) free
  runs s x s' hs hrun free := by
    obtain ⟨stands, weight, follows⟩ :=
      (hf (view s)).runs hs (show f (view s) s = _ from hrun) free
    refine ⟨stands, weight, fun hall ys last fits hlast => ?_⟩
    obtain ⟨ys', last', hrun', spread, hlast'⟩ := follows hall fits hlast
    refine ⟨ys', last', ?_, spread, hlast'⟩
    change f (view (s.over ys last)) (s.over ys last) = _
    rw [hview s ys last hs.firm (fits.spread ha) hlast]
    exact hrun'

/-- The kind of the token at hand. -/
theorem kind {f : TokenKind → Parser α} (hf : ∀ k, Loosens K (.known k) G G' js (f k) after) :
    Loosens K .firm G G' js (Parse.kind >>= f) after :=
  state (fun _ _ _ spread => congrArg f spread.kind) fun s => hf s.kind

/-- A change of the state, and what is done behind it. -/
theorem step {f : ParserState → ParserState} {b : Stance} {rest : Unit → Parser α}
    (h : K.Moves a b G G₁ f) (hrest : Loosens K b G₁ G' js (rest ()) after) :
    Loosens K a G G' js (modify f >>= rest) after where
  free s _ _ hrun free := h.errorFree (hrest.free (show rest () (f s) = _ from hrun) free)
  runs s _ _ hs hrun free :=
    (hrest.runs (h.stands hs) (show rest () (f s) = _ from hrun) free).behind h hs
      fun _ _ _ _ => rfl

/-- A change of the state. -/
theorem update {f : ParserState → ParserState} (h : K.Moves a .firm G G' f) :
    Loosens K a G G' js (modify f) fun _ => js := by
  rw [← bind_pure (modify f)]
  exact step h (pure (Nat.le_refl _))

end Loosens

end FrontEnd
