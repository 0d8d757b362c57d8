import FrontEnd.Proofs.Following.Files

/-!
# Errors leave no groups open

A parser that gives a result has closed the groups it opened, and the brace flag is what it was. One
that fails may stop at any depth, with groups still open and the flag changed. But it never closes a
group it has not opened, so the groups from before are still there below the others. The construct
as a whole then ends as it began: what is open is cut down to what was open before, and the flag is
set back.
-/

namespace FrontEnd

open Parse

variable {α : Type} {p : Parser α} {s s' : ParserState}

/-- What a parser does to the groups around it. -/
structure MindsGroups (p : Parser α) : Prop where
  /-- It ends in the groups it began in. -/
  closed : ∀ {s x s'}, s.Sound → p s = .ok x s' → s.SameFrame s'
  /-- Where it fails, the groups it began in are still open. -/
  below : ∀ {s e s'}, s.Sound → p s = .error e s' → s.groups <:+ s'.groups
  /-- Errors that were found stay. -/
  count : ∀ {s e s'}, s.Sound → p s = .error e s' → s.errorCount ≤ s'.errorCount

/-- What is known of a run of a parser that follows itself. -/
theorem MindsGroups.of_follows [Labeled α]
    (h : Follows Simulation.plain 0 .firm .firm (fun _ => True) p p) : MindsGroups p where
  closed := fun {s x s'} sound hrun => by
    have run := h.runs sound.final trivial
    rw [hrun] at run
    exact ⟨run.groups, run.brace⟩
  below := fun {s e s'} sound hrun => by
    have run := h.runs sound.final trivial
    rw [hrun] at run
    exact run.groups
  count := fun {s e s'} sound hrun => by
    have run := h.runs sound.final trivial
    rw [hrun] at run
    exact run.onward.count

/-- Statements mind their groups. -/
theorem stmt_mindsGroups (n m : Nat) : MindsGroups (stmt n (grammar m)) :=
  .of_follows (stmt_follows (grammar_follows (Nat.le_refl m)) (Nat.le_refl n))

/-- So do members. -/
theorem member_mindsGroups (n m : Nat) (inClass : Bool) :
    MindsGroups (member n (grammar m) inClass) :=
  .of_follows (member_follows (grammar_follows (Nat.le_refl m)) (Nat.le_refl n) inClass)

/-- A construct with its terminator ends in the groups it began in, whether it was read or not. -/
theorem MindsGroups.recovering (h : MindsGroups p) (sound : s.Sound) {x? : Option α}
    (hrun : Parse.recovering p s = .ok x? s') : s.SameFrame s' := by
  rw [recovering_run] at hrun
  cases hp : p s with
  | ok x s₁ =>
    rw [hp] at hrun
    obtain ⟨-, rfl, -⟩ := finished_ok hrun
    have hframe := h.closed sound hp
    exact ParserState.settle_frame (hframe.1 ▸ List.suffix_refl _) fun _ => hframe
  | error e s₁ =>
    rw [hp] at hrun
    dsimp only at hrun
    split at hrun
    · cases hrun
    · obtain ⟨-, rfl, -⟩ := finished_ok hrun
      have hgroups : s.groups <:+ s₁.groups := h.below sound hp
      have hbelow : s.groups <:+ (s₁.record e).groups := hgroups
      refine ParserState.settle_frame hbelow fun hle => ?_
      -- The error at hand is one more, so the groups are cut down and not taken as they are.
      have hcount := h.count sound hp
      rw [ParserState.record_count] at hle
      omega

/-- **Recovery restores the context.** Whatever groups are open around a statement or member, and
whether braces are allowed there or not: if reading it with its terminator gives a result, with or
without errors, or none because it was abandoned, then the same groups are open behind it and braces
are allowed as before. A sound state is one whose tokens end with the end mark. -/
theorem recovering_restores (n m : Nat) (sound : s.Sound) :
    (∀ x? s', Parse.recovering (stmt n (grammar m)) s = .ok x? s' →
      s'.groups = s.groups ∧ s'.allowsBrace = s.allowsBrace) ∧
    ∀ inClass x? s', Parse.recovering (member n (grammar m) inClass) s = .ok x? s' →
      s'.groups = s.groups ∧ s'.allowsBrace = s.allowsBrace :=
  ⟨fun _ _ => (stmt_mindsGroups n m).recovering sound,
    fun inClass _ _ => (member_mindsGroups n m inClass).recovering sound⟩

/-- A state in the body of a block, in a place where no braces are allowed. -/
def ParserState.inBlock (kinds : List TokenKind) : ParserState :=
  { ParserState.start ⟨0⟩ (kinds.map fun kind => ⟨kind, ⟨0, 1, ⟨0⟩⟩⟩) with
    groups := [⟨false, true⟩], allowsBrace := false }

theorem ParserState.inBlock_sound (kinds : List TokenKind) : (ParserState.inBlock kinds).Sound :=
  have hstart := start_sound ⟨0⟩ (kinds.map fun kind => ⟨kind, ⟨0, 1, ⟨0⟩⟩⟩)
  ⟨hstart.final, hstart.rest⟩

/-- Whether a construct is abandoned can be computed. -/
theorem abandoned_of_matches {p : Parser (Option α)} (h : (p s matches .ok none _) = true) :
    ∃ s', p s = .ok none s' := by
  split at h
  · exact ⟨_, ‹_›⟩
  · cases h

/-- A statement and a member that are abandoned inside of two groups: `if f([a.])` and `@f([a.]) val
x`, each with a line behind it. -/
theorem recovering_restores_abandoned :
    let call : List TokenKind := [.ident "f", .symbol .lParen, .symbol .lBracket, .ident "a",
      .symbol .dot, .symbol .rBracket, .symbol .rParen]
    let s := ParserState.inBlock (.keyword .if_ :: call ++ [.newline, .ident "x"])
    let t := ParserState.inBlock (.symbol .at_ :: call ++ [.keyword .val, .ident "x", .newline])
    ∃ s' t', Parse.recovering (stmt 6 (grammar 6)) s = .ok none s' ∧
      Parse.recovering (member 6 (grammar 6) true) t = .ok none t' ∧
      (s'.groups = s.groups ∧ s'.allowsBrace = s.allowsBrace) ∧
      t'.groups = t.groups ∧ t'.allowsBrace = t.allowsBrace := by
  intro call s t
  obtain ⟨s', hs⟩ : ∃ s', Parse.recovering (stmt 6 (grammar 6)) s = .ok none s' :=
    abandoned_of_matches (by decide +kernel)
  obtain ⟨t', ht⟩ : ∃ t', Parse.recovering (member 6 (grammar 6) true) t = .ok none t' :=
    abandoned_of_matches (by decide +kernel)
  exact ⟨s', t', hs, ht, (recovering_restores 6 6 (ParserState.inBlock_sound _)).1 _ _ hs,
    (recovering_restores 6 6 (ParserState.inBlock_sound _)).2 _ _ _ ht⟩

end FrontEnd
