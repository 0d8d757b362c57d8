import FrontEnd.Proofs.Printing.Brackets

/-!
# Reading what is shown

A parser reads what a state shows up to some point: it gives a value, and what is behind that point
is shown. Nothing but the place changes, and groups that were entered are left.
-/

namespace FrontEnd

open Parse

/-- A state of a run that shows some tokens. -/
structure ParserState.At (base s : ParserState) (ks : List TokenKind) : Prop where
  passes : base.Passes s
  shows : s.Shows ks

/-- A parser succeeds with a value of some sort, and some tokens are shown behind it. -/
def Finds {α : Type} (base : ParserState) (p : Parser α) (s : ParserState) (ks : List TokenKind)
    (Good : α → Prop) : Prop :=
  ∃ x s', p s = .ok x s' ∧ Good x ∧ base.At s' ks

variable {α β : Type} {base base' s : ParserState} {k : TokenKind} {ks zs : List TokenKind}
variable {mark : Symbol}

theorem ParserState.Shows.at (h : s.Shows ks) : s.At s ks := ⟨.refl s, h⟩

/-- A group is entered at any time of a run. -/
theorem ParserState.Passes.openGroup (h : base.Passes s) (ignores : Bool) :
    (base.openGroup ignores).Passes (s.openGroup ignores) := by
  obtain ⟨_, _, _, _, rfl⟩ := h
  cases ignores <;> exact ⟨_, _, _, _, rfl⟩

/-- Leaving a group leads back to the run in which it was entered. -/
theorem ParserState.Passes.closeGroup {ignores : Bool} (h : (base.openGroup ignores).Passes s) :
    base.Passes s.closeGroup := by
  obtain ⟨_, _, _, _, rfl⟩ := h
  cases ignores <;> exact ⟨_, _, _, _, rfl⟩

namespace Finds

theorem result {x : α} {Good : α → Prop} (h : base.At s ks) (hx : Good x) :
    Finds base (pure x) s ks Good := ⟨x, s, rfl, hx, h⟩

/-- One parser after another. -/
theorem bind {p : Parser α} {f : α → Parser β} {Good : α → Prop} {Good' : β → Prop}
    (h : Finds base p s ks Good)
    (hf : ∀ x s', Good x → base.At s' ks → Finds base' (f x) s' zs Good') :
    Finds base' (p >>= f) s zs Good' := by
  obtain ⟨x, s₁, hrun, hx, hat⟩ := h
  obtain ⟨y, s₂, hrun', hy, hat'⟩ := hf x s₁ hx hat
  exact ⟨y, s₂, (bind_run hrun).trans hrun', hy, hat'⟩

/-- A parser whose run is known comes first. -/
theorem after {p : Parser α} {f : α → Parser β} {x : α} {s' : ParserState} {Good : β → Prop}
    (hrun : p s = .ok x s') (h : Finds base (f x) s' zs Good) : Finds base (p >>= f) s zs Good := by
  obtain ⟨y, s₂, hrun', hy, hat⟩ := h
  exact ⟨y, s₂, (bind_run hrun).trans hrun', hy, hat⟩

theorem mono {p : Parser α} {Good Good' : α → Prop} (h : Finds base p s ks Good)
    (hgood : ∀ x, Good x → Good' x) : Finds base p s ks Good' := by
  obtain ⟨x, s', hrun, hx, hat⟩ := h
  exact ⟨x, s', hrun, hgood x hx, hat⟩

/-- What a state gives without being changed. -/
theorem look {p : Parser α} {x : α} {Good : α → Prop} (h : base.At s ks) (hrun : p s = .ok x s)
    (hx : Good x) : Finds base p s ks Good := ⟨x, s, hrun, hx, h⟩

/-- The place in the text. -/
theorem here (h : base.At s ks) : Finds base here s ks fun _ => True := look h rfl trivial

theorem spanFrom (h : base.At s ks) (start : Span) : Finds base (spanFrom start) s ks
    fun _ => True :=
  look h rfl trivial

/-- The value is changed. -/
theorem map {f : α → β} {p : Parser α} {Good : β → Prop} (h : Finds base p s ks fun x =>
    Good (f x)) :
    Finds base (f <$> p) s ks Good := by
  obtain ⟨x, s', hrun, hx, hat⟩ := h
  refine ⟨f x, s', ?_, hx, hat⟩
  rw [map_run, hrun]

/-- It does not matter. -/
theorem discard {p : Parser α} {Good : α → Prop} (h : Finds base p s ks Good) :
    Finds base (discard p) s ks fun _ => True := (h.mono fun _ _ => trivial).map

/-- A token at hand is stepped over. -/
theorem advance (h : base.At s (k :: ks)) (hk : k ≠ .symbol .rAngle) :
    Finds base advance s ks fun _ => True := by
  obtain ⟨hshows, hpasses⟩ := h.shows.advance hk
  exact ⟨(), _, rfl, trivial, h.passes.trans hpasses, hshows⟩

theorem accept (h : base.At s (k :: ks)) (hk : k ≠ .symbol .rAngle) :
    Finds base (accept k) s ks (· = true) := by
  obtain ⟨hshows, hpasses⟩ := h.shows.advance hk
  exact ⟨true, _, (accept_run k s).trans (if_pos (h.shows.kind_eq hk)), rfl,
    h.passes.trans hpasses, hshows⟩

/-- Another one is left standing. -/
theorem reject (h : base.At s ks) (hks : k ∉ ks.head?) (hk : k ≠ .symbol .shr) (heof : k ≠ .eof) :
    Finds base (Parse.accept k) s ks (· = false) :=
  look h ((accept_run k s).trans (if_neg (h.shows.kind_ne hks hk heof))) rfl

theorem expect (h : base.At s (k :: ks)) (hk : k ≠ .symbol .rAngle) :
    Finds base (expect k) s ks fun _ => True := by
  obtain ⟨hshows, hpasses⟩ := h.shows.advance hk
  exact ⟨_, _, (expect_run k s).trans (if_pos (h.shows.kind_eq hk)), trivial,
    h.passes.trans hpasses, hshows⟩

/-- It is seen which token is at hand. -/
theorem atThis (h : base.At s (k :: ks)) (hk : k ≠ .symbol .rAngle) :
    Finds base (at? k) s (k :: ks) (· = true) := by
  refine look h (x := s.kind == k) rfl ?_
  rw [h.shows.kind_eq hk, beq_self_eq_true]

theorem atOther (h : base.At s ks) (hks : k ∉ ks.head?) (hk : k ≠ .symbol .shr) (heof : k ≠ .eof) :
    Finds base (at? k) s ks (· = false) := by
  refine look h (x := s.kind == k) rfl ?_
  exact beq_eq_false_iff_ne.2 (h.shows.kind_ne hks hk heof)

/-- A name at hand. -/
theorem ident {name : String} (h : base.At s (.ident name :: ks)) :
    Finds base expectIdent s ks fun x => x.name = name := by
  obtain ⟨hshows, hpasses⟩ := h.shows.advance (by simp)
  obtain ⟨span, hcurrent⟩ : ∃ span, s.current = ⟨.ident name, span⟩ :=
    ⟨s.current.span, congrArg (Token.mk · s.current.span) (h.shows.kind_eq (by simp))⟩
  exact ⟨_, _, expectIdent_run hcurrent, rfl, h.passes.trans hpasses, hshows⟩

/-- No line breaks are there to be skipped. -/
theorem skipNewlines (h : base.At s ks) : Finds base skipNewlines s ks fun _ => True := by
  refine look h (x := ()) ?_ trivial
  exact congrArg (EStateM.Result.ok ()) (ParserState.skipNewlines_unbroken h.shows.unbroken)

/-- A closing angle bracket. -/
theorem closeAngle (h : base.At s (.symbol .rAngle :: ks)) :
    Finds base closeAngle s ks fun _ => True := by
  obtain ⟨s', hrun, hshows, hpasses⟩ := closeAngle_shows h.shows
  exact ⟨(), s', hrun, trivial, h.passes.trans hpasses, hshows⟩

/-- A group is entered. -/
theorem openGroup (h : base.At s ks) (ignores : Bool) :
    Finds (base.openGroup ignores) (openGroup ignores) s ks fun _ => True := by
  refine ⟨(), s.openGroup ignores, rfl, trivial, h.passes.openGroup ignores, ?_⟩
  cases ignores with
  | false => exact h.shows.moved rfl rfl rfl
  | true =>
    let inside : ParserState :=
      { s with groups := ⟨true, s.allowsBrace⟩ :: s.groups, allowsBrace := true }
    change inside.skipNewlines.Shows ks
    rw [ParserState.skipNewlines_unbroken (s := inside) h.shows.unbroken]
    exact h.shows.moved rfl rfl rfl

/-- It is left through its closing symbol. -/
theorem close {ignores : Bool} (h : (base.openGroup ignores).At s (.symbol mark :: ks))
    (hmark : mark ≠ .rAngle) : Finds base (close mark) s ks (· = true) := by
  have hat : base.At s.closeGroup (.symbol mark :: ks) := by
    refine ⟨h.passes.closeGroup, h.shows.moved ?_ ?_ ?_⟩
    all_goals
      unfold ParserState.closeGroup
      split <;> rfl
  obtain ⟨hshows, hpasses⟩ := hat.shows.advance (by simpa using hmark)
  refine ⟨true, _, (close_run mark s).trans (if_pos ?_), rfl, hat.passes.trans hpasses, hshows⟩
  exact h.shows.kind_eq (by simpa using hmark)

/-- It may have to be there. -/
theorem closeStrict {ignores : Bool} (h : (base.openGroup ignores).At s (.symbol mark :: ks))
    (hmark : mark ≠ .rAngle) : Finds base (closeStrict mark) s ks fun _ => True := by
  obtain ⟨found, s', hrun, -, hat⟩ := close h hmark
  have hkind : s.kind = .symbol mark := h.shows.kind_eq (by simpa using hmark)
  rw [close_run, if_pos hkind] at hrun
  obtain ⟨-, rfl⟩ : true = found ∧ s.closeGroup.advance = s' := by simpa using hrun
  exact ⟨(), _, (closeStrict_run mark s).trans (if_pos hkind), trivial, hat⟩

/-- The token at hand. -/
theorem current (h : base.At s (k :: ks)) (hk : k ≠ .symbol .rAngle) :
    ∃ span, Parse.current s = .ok ⟨k, span⟩ s :=
  ⟨s.current.span, congrArg (fun k => EStateM.Result.ok (Token.mk k s.current.span) s)
    (h.shows.kind_eq hk)⟩

/-- Nodes are numbered. -/
theorem freshId (h : base.At s ks) : Finds base freshId s ks fun _ => True := by
  obtain ⟨⟨_, _, _, _, rfl⟩, hshows⟩ := h
  exact ⟨_, _, rfl, trivial, ⟨_, _, _, _, rfl⟩, hshows.moved rfl rfl rfl⟩

theorem origin (h : base.At s ks) (span : Span) : Finds base (origin span) s ks fun _ => True :=
  (freshId h).bind fun _ _ _ h' => .result h' trivial

/-- A node is made. -/
theorem newType (h : base.At s ks) (form : TypeForm) (span : Span) :
    Finds base (newType form span) s ks fun t => ∃ origin, t = .type origin form := by
  obtain ⟨⟨_, _, _, _, rfl⟩, hshows⟩ := h
  exact ⟨_, _, rfl, ⟨_, rfl⟩, ⟨_, _, _, _, rfl⟩, hshows.moved rfl rfl rfl⟩

end Finds

end FrontEnd
