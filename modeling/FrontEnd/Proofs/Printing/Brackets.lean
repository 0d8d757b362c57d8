import FrontEnd.Proofs.Following.Files
import FrontEnd.Proofs.Printing.Pieces

/-!
# Closing brackets that stand together

Two closing angle brackets are one token in the text, but the parser uses them up one after the
other. What it is shown are the brackets: a `>>` counts as two of them, and as one when its first
half has been used up. In these terms reading a bracket is nothing special.
-/

namespace FrontEnd

/-- What some tokens show, given whether the first half of the first one has been used up. -/
inductive Shown : List Token → Bool → List TokenKind → Prop
  | nil : Shown [] false []
  | token {t : Token} {ts : List Token} {ks : List TokenKind} (ht : t.kind ≠ .symbol .shr)
    (h : Shown ts false ks) : Shown (t :: ts) false (t.kind :: ks)
  | whole {t : Token} {ts : List Token} {ks : List TokenKind} (ht : t.kind = .symbol .shr)
    (h : Shown ts false ks) : Shown (t :: ts) false (.symbol .rAngle :: .symbol .rAngle :: ks)
  | half {t : Token} {ts : List Token} {ks : List TokenKind} (ht : t.kind = .symbol .shr)
    (h : Shown ts false ks) : Shown (t :: ts) true (.symbol .rAngle :: ks)

/-- The tokens of some pieces are those pieces, or two of them. -/
theorem mem_fused {ps : List Piece} {k : TokenKind} (h : k ∈ fused ps) :
    k = .symbol .shr ∨ ∃ p ∈ ps, p.kind = k := by
  induction ps using fused.induct with
  | case1 blank ps ih =>
    rcases List.mem_cons.1 h with rfl | h
    · exact Or.inl rfl
    · exact (ih h).imp_right (Exists.imp fun p hp => ⟨by simp [hp.1], hp.2⟩)
  | case2 p ps hother ih =>
    have hfused : fused (p :: ps) = p.kind :: fused ps := by
      rw [fused]
      exact hother
    rw [hfused] at h
    rcases List.mem_cons.1 h with rfl | h
    · exact Or.inr ⟨p, List.mem_cons_self, rfl⟩
    · exact (ih h).imp_right (Exists.imp fun q hq => ⟨List.mem_cons_of_mem p hq.1, hq.2⟩)
  | case3 => cases h

/-- Only closing brackets are taken together. -/
theorem countP_le_fused (ps : List Piece) :
    (ps.map (·.kind)).countP (· ≠ .symbol .rAngle) ≤ (fused ps).length := by
  induction ps using fused.induct with
  | case1 blank ps ih => simpa [fused] using Nat.le_succ_of_le ih
  | case2 p ps hother ih =>
    have hfused : fused (p :: ps) = p.kind :: fused ps := by
      rw [fused]
      exact hother
    have hone := List.countP_le_length (p := (· ≠ TokenKind.symbol .rAngle)) (l := [p.kind])
    rw [hfused, List.map_cons, List.length_cons, ← List.singleton_append, List.countP_append]
    simp only [List.length_singleton] at hone
    omega
  | case3 => exact Nat.le_refl 0

/-- The tokens of some pieces show the pieces. -/
theorem shown_fused {ps : List Piece} {ts : List Token} (h : ∀ p ∈ ps, p.kind ≠ .symbol .shr)
    (hts : ts.map (·.kind) = fused ps) : Shown ts false (ps.map (·.kind)) := by
  induction ps using fused.induct generalizing ts with
  | case1 blank ps ih =>
    obtain ⟨t, ts, rfl, ht, hlater⟩ := List.map_eq_cons_iff.1 hts
    exact .whole ht
      (ih (fun p hp => h p (List.mem_cons_of_mem _ (List.mem_cons_of_mem _ hp))) hlater)
  | case2 p ps hother ih =>
    have hfused : fused (p :: ps) = p.kind :: fused ps := by
      rw [fused]
      exact hother
    rw [hfused] at hts
    obtain ⟨t, ts, rfl, ht, hlater⟩ := List.map_eq_cons_iff.1 hts
    have htoken : Shown (t :: ts) false (t.kind :: ps.map (·.kind)) :=
      .token (ht ▸ h p List.mem_cons_self) (ih (fun p hp => h p (List.mem_cons_of_mem _ hp)) hlater)
    rwa [ht] at htoken
  | case3 =>
    obtain rfl := List.map_eq_nil_iff.1 hts
    exact .nil

namespace ParserState

/-- A state of the same text that differs only in how far it has come. -/
def Passes (s s' : ParserState) : Prop :=
  ∃ rest span half id,
    s' = { s with rest := rest, lastSpan := span, halfShift := half, nextId := id }

/-- What is left to be read, without line breaks. -/
structure Shows (s : ParserState) (ks : List TokenKind) : Prop where
  shown : Shown s.rest s.halfShift ks
  unbroken : ∀ t ∈ s.rest, t.kind ≠ .newline
  final : s.final.kind = .eof

variable {s s' s'' : ParserState} {k : TokenKind} {ks : List TokenKind}

theorem Passes.refl (s : ParserState) : s.Passes s := ⟨_, _, _, _, rfl⟩

theorem Passes.trans (h : s.Passes s') (h' : s'.Passes s'') : s.Passes s'' := by
  obtain ⟨_, _, _, _, rfl⟩ := h
  obtain ⟨rest, span, half, id, rfl⟩ := h'
  exact ⟨rest, span, half, id, rfl⟩

/-- Without line breaks none is skipped. -/
theorem advance_unbroken {t : Token} {ts : List Token} (hrest : s.rest = t :: ts)
    (h : ∀ t ∈ s.rest, t.kind ≠ .newline) :
    s.advance = { s with rest := ts, lastSpan := t.span } := by
  have hcalm : ∀ u ∈ ts.head?, ¬breaks (ignoresNewlines s.groups) u.kind = true := by
    intro u hu
    have hmem : u ∈ s.rest := by
      rw [hrest]
      exact List.mem_cons_of_mem _ (List.mem_of_mem_head? hu)
    simp [breaks, h u hmem]
  rw [advance_eq hrest]
  cases ts with
  | nil => rfl
  | cons u ts =>
    rw [List.dropWhile_cons_of_neg (p := fun t : Token => breaks _ t.kind) (hcalm u rfl),
      List.takeWhile_cons_of_neg (p := fun t : Token => breaks _ t.kind) (hcalm u rfl)]
    rfl

theorem skipNewlines_unbroken (h : ∀ t ∈ s.rest, t.kind ≠ .newline) : s.skipNewlines = s := by
  rw [skipNewlines_eq]
  cases hrest : s.rest with
  | nil =>
    have hsame : s = { s with rest := [] } := by rw [← hrest]
    rw [hsame]
    rfl
  | cons t ts =>
    have hmem : t ∈ s.rest := by
      rw [hrest]
      exact List.mem_cons_self
    have ht : ¬breaks true t.kind = true := by simp [breaks, h t hmem]
    rw [List.dropWhile_cons_of_neg (p := fun t : Token => breaks _ t.kind) ht,
      List.takeWhile_cons_of_neg (p := fun t : Token => breaks _ t.kind) ht, ← hrest]
    rfl

/-- Before the first token all pieces of a text are shown. -/
theorem start_shows {ps : List Piece} {ts : List Token} {span : Span} {file : FileId}
    (hps : ∀ p ∈ ps, p.kind ≠ .symbol .shr ∧ p.kind ≠ .newline ∧ p.kind ≠ .eof)
    (hts : ts.map (·.kind) = fused ps) :
    (start file (ts ++ [⟨.eof, span⟩])).Shows (ps.map (·.kind)) := by
  have hkinds : ∀ t ∈ ts, t.kind ≠ .newline ∧ t.kind ≠ .eof := by
    intro t ht
    have hmem : t.kind ∈ fused ps := by
      rw [← hts]
      exact List.mem_map_of_mem ht
    rcases mem_fused hmem with hshr | ⟨p, hp, hkind⟩
    · rw [hshr]
      simp
    · rw [← hkind]
      exact (hps p hp).2
  have hrest : (start file (ts ++ [⟨.eof, span⟩])).rest = ts :=
    start_rest fun t ht => (hkinds t ht).2
  refine ⟨?_, fun t ht => (hkinds t (hrest ▸ ht)).1, ?_⟩
  · rw [hrest]
    exact shown_fused (fun p hp => (hps p hp).1) hts
  · rw [start_final_mark fun t ht => (hkinds t ht).2]

namespace Shows

/-- Nothing else matters. -/
theorem moved (h : s.Shows ks) (hrest : s'.rest = s.rest) (hhalf : s'.halfShift = s.halfShift)
    (hfinal : s'.final = s.final) : s'.Shows ks := by
  refine ⟨?_, ?_, ?_⟩
  · rw [hrest, hhalf]
    exact h.shown
  · rw [hrest]
    exact h.unbroken
  · rw [hfinal]
    exact h.final

/-- At the end nothing is shown. -/
theorem rest_nil (h : s.Shows []) : s.rest = [] ∧ s.halfShift = false := by
  have hshown := h.shown
  generalize s.rest = rest, s.halfShift = half at hshown
  cases hshown
  exact ⟨rfl, rfl⟩

/-- A token is stepped over. -/
theorem past {t : Token} {ts : List Token} (hrest : s.rest = t :: ts) (hlater : Shown ts false ks)
    (hhalf : s.halfShift = false) (hunbroken : ∀ t ∈ s.rest, t.kind ≠ .newline)
    (hfinal : s.final.kind = .eof) : s.advance.Shows ks ∧ s.Passes s.advance := by
  rw [advance_unbroken hrest hunbroken]
  refine ⟨⟨?_, fun u hu => hunbroken u ?_, hfinal⟩, _, _, _, _, rfl⟩
  · change Shown ts s.halfShift ks
    rwa [hhalf]
  · rw [hrest]
    exact List.mem_cons_of_mem _ hu

/-- A token other than closing brackets is at hand as it is shown. -/
theorem rest_cons (h : s.Shows (k :: ks)) (hk : k ≠ .symbol .rAngle) :
    ∃ t ts, s.rest = t :: ts ∧ t.kind = k ∧ s.halfShift = false ∧ Shown ts false ks := by
  have hshown := h.shown
  generalize s.rest = rest, s.halfShift = half at hshown
  cases hshown with
  | token ht hlater => exact ⟨_, _, rfl, rfl, rfl, hlater⟩
  | whole ht hlater => exact absurd rfl hk
  | half ht hlater => exact absurd rfl hk

theorem kind_eq (h : s.Shows (k :: ks)) (hk : k ≠ .symbol .rAngle) : s.kind = k := by
  obtain ⟨t, ts, hrest, hkind, -⟩ := h.rest_cons hk
  unfold kind current
  rw [hrest]
  exact hkind

/-- It is stepped over. -/
theorem advance (h : s.Shows (k :: ks)) (hk : k ≠ .symbol .rAngle) :
    s.advance.Shows ks ∧ s.Passes s.advance := by
  obtain ⟨t, ts, hrest, -, hhalf, hlater⟩ := h.rest_cons hk
  exact past hrest hlater hhalf h.unbroken h.final

/-- A closing bracket is shown by one or two of them. -/
theorem kind_close (h : s.Shows (.symbol .rAngle :: ks)) :
    s.kind = .symbol .rAngle ∨ s.kind = .symbol .shr := by
  have hshown := h.shown
  unfold kind current
  generalize s.rest = rest, s.halfShift = half at hshown ⊢
  generalize hks : TokenKind.symbol .rAngle :: ks = shown at hshown
  cases hshown with
  | nil => cases hks
  | token ht hlater => exact Or.inl (List.cons.inj hks).1.symm
  | whole ht hlater => exact Or.inr ht
  | half ht hlater => exact Or.inr ht

/-- What is not shown is not at hand. -/
theorem kind_ne (h : s.Shows ks) (hks : k ∉ ks.head?) (hk : k ≠ .symbol .shr) (heof : k ≠ .eof) :
    s.kind ≠ k := by
  cases ks with
  | nil =>
    unfold kind current
    rw [h.rest_nil.1]
    exact fun hkind => heof (hkind.symm.trans h.final)
  | cons k' ks =>
    have hne : k' ≠ k := fun hkind => hks (congrArg some hkind)
    by_cases hclose : k' = .symbol .rAngle
    · subst hclose
      rcases h.kind_close with hkind | hkind
      · rw [hkind]
        exact hne
      · rw [hkind]
        exact hk.symm
    · rw [h.kind_eq hclose]
      exact hne

end Shows

end ParserState

namespace Parse

variable {s : ParserState} {k : TokenKind} {ks : List TokenKind}

/-- What closing a list of arguments does, given the token at hand. -/
theorem closeAngle_run {t : Token} {ts : List Token} (hrest : s.rest = t :: ts) : closeAngle s =
    if t.kind = .symbol .rAngle then .ok () s.advance
    else if t.kind = .symbol .shr then
      if s.halfShift = true then .ok () { s with halfShift := false }.advance
      else .ok () { s with halfShift := true }
    else .error (s.expectedError "'>'") s := by
  have hkind : s.kind = t.kind := by
    unfold ParserState.kind ParserState.current
    rw [hrest]
    rfl
  have hget : (get : Parser ParserState) s = .ok s s := rfl
  unfold closeAngle
  rw [bind_run hget, hkind]
  split
  · rfl
  · split
    · split <;> rfl
    · rfl

/-- A closing bracket is used up, be it a half or a whole. -/
theorem closeAngle_shows (h : s.Shows (.symbol .rAngle :: ks)) :
    ∃ s', closeAngle s = .ok () s' ∧ s'.Shows ks ∧ s.Passes s' := by
  have hshown := h.shown
  generalize hks : TokenKind.symbol .rAngle :: ks = shown at hshown
  generalize hrest : s.rest = rest, hhalf : s.halfShift = half at hshown
  cases hshown with
  | nil => cases hks
  | token ht hlater =>
    obtain ⟨hclose, rfl⟩ := List.cons.inj hks
    refine ⟨_, (closeAngle_run hrest).trans (if_pos hclose.symm), ?_⟩
    exact ParserState.Shows.past hrest hlater hhalf h.unbroken h.final
  | whole ht hlater =>
    obtain ⟨-, rfl⟩ := List.cons.inj hks
    refine ⟨{ s with halfShift := true }, ?_, ⟨?_, h.unbroken, h.final⟩, _, _, _, _, rfl⟩
    · rw [closeAngle_run hrest, if_neg (by simp [ht]), if_pos ht, if_neg (by simp [hhalf])]
    · change Shown s.rest true _
      rw [hrest]
      exact .half ht hlater
  | half ht hlater =>
    obtain ⟨-, rfl⟩ := List.cons.inj hks
    obtain ⟨hshows, hpasses⟩ := ParserState.Shows.past (s := { s with halfShift := false }) hrest
      hlater rfl h.unbroken h.final
    refine ⟨_, ?_, hshows, ParserState.Passes.trans ⟨_, _, _, _, rfl⟩ hpasses⟩
    rw [closeAngle_run hrest, if_neg (by simp [ht]), if_pos ht, if_pos hhalf]

end Parse

end FrontEnd
