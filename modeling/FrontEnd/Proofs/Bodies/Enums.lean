import FrontEnd.Proofs.Bodies.Entries
import FrontEnd.Proofs.Bodies.Members

/-!
# Enumerations that are written out

The entries of an enumeration stand on lines, with commas between those of one line. Behind the last
entry a semicolon may open the members, which are functions on lines of their own. Such a text gives
back the entries and the members. Without entries the semicolon is skipped with the separators in
front of them, and the members are not found.
-/

namespace FrontEnd

namespace Parse

variable {bound n : Nat} {g : Grammar} {s s₁ s₂ : ParserState}

/-- The entries behind one that was read. -/
def entriesBehind (bound : Nat) (g : Grammar) (n : Nat) : Parser (List (Node .enumEntry)) := do
  if !separatesEntries (← kind) then return []
  modify (ParserState.skipWhile separatesEntries)
  enumEntries bound g n

/-- An entry and those behind it. -/
theorem enumEntries_cons {e : Node .enumEntry} {es : List (Node .enumEntry)}
    (hident : s.kind.isIdent = true) (hentry : enumEntry bound g s = .ok e s₁)
    (hbehind : entriesBehind bound g n s₁ = .ok es s₂) :
    enumEntries bound g (n + 1) s = .ok (e :: es) s₂ := by
  unfold enumEntries
  refine (bind_run (kind_run s)).trans ?_
  rw [hident]
  refine (bind_run hentry).trans ((bind_run (kind_run s₁)).trans ?_)
  unfold entriesBehind at hbehind
  rw [bind_run (kind_run s₁)] at hbehind
  cases hseparates : separatesEntries s₁.kind with
  | false =>
    rw [hseparates] at hbehind
    cases hbehind
    rfl
  | true =>
    rw [hseparates] at hbehind
    change (enumEntries bound g n >>= _) (s₁.skipWhile separatesEntries) = _
    exact bind_run hbehind

/-- Without a name there are no entries. -/
theorem enumEntries_nil (h : s.kind.isIdent = false) :
    enumEntries bound g (n + 1) s = .ok [] s := by
  unfold enumEntries
  refine (bind_run (kind_run s)).trans ?_
  rw [h]
  rfl

/-- Separators are skipped. -/
theorem entriesBehind_separated (h : separatesEntries s.kind = true) :
    entriesBehind bound g n s = enumEntries bound g n (s.skipWhile separatesEntries) := by
  unfold entriesBehind
  refine (bind_run (kind_run s)).trans ?_
  rw [h]
  rfl

/-- So is a comma in front of the next entry. -/
theorem entriesBehind_comma (hcomma : s.kind = .symbol .comma) (hsome : s.rest ≠ [])
    (hgroups : ignoresNewlines s.groups = false) (hident : s.advance.kind.isIdent = true) :
    entriesBehind bound g n s = enumEntries bound g n s.advance := by
  obtain ⟨x, xs, hrest⟩ := List.exists_cons_of_ne_nil hsome
  have hx : s.kind = x.kind := ParserState.kind_cons hrest
  have hother : separatesEntries s.advance.kind = false := by
    cases hkind : s.advance.kind <;> simp_all [TokenKind.isIdent, separatesEntries]
  rw [entriesBehind_separated (by rw [hcomma]; rfl), ParserState.skipWhile_stepped hrest
    (by rw [← hx, hcomma]; rfl) hgroups, ParserState.skipWhile_stays hother]

/-- Behind the last entry there are only separators. -/
theorem entriesBehind_last (h : (s.skipWhile separatesEntries).kind.isIdent = false) :
    entriesBehind bound g (n + 1) s = .ok [] (s.skipWhile separatesEntries) := by
  cases hseparates : separatesEntries s.kind with
  | false =>
    unfold entriesBehind
    refine (bind_run (kind_run s)).trans ?_
    rw [hseparates, ParserState.skipWhile_stays hseparates]
    rfl
  | true =>
    rw [entriesBehind_separated hseparates]
    exact enumEntries_nil h

end Parse

open Parse

/-- In front of a line of entries there is a name on both sides. -/
theorem Simulation.Linked.isIdent_row {K : Simulation} {s t : ParserState} {ending : List TokenKind}
    {row : List (Node .enumEntry)} (h : K.Linked s t) (hsome : row ≠ [])
    (hshows : s.Shows (rowKinds row ++ ending)) : t.kind.isIdent = true := by
  obtain ⟨name, ks, hname⟩ := rowKinds_eq hsome
  rw [hname, List.cons_append] at hshows
  have hkind : s.kind = .ident name := hshows.kind_eq (by simp)
  rw [h.kind, hkind]
  · rfl
  · rintro ⟨-, hnil⟩
    rw [h.sound.kind_eq_eof.2 hnil] at hkind
    cases hkind

/-- The entries of a line are read inside the braces as they are read alone, one after the other. -/
theorem Simulation.Linked.row {first : ParserState} {s t : ParserState} {outer : List Group}
    {plain : ignoresNewlines outer = false} {few : 1 + 0 ≤ maxErrors} {earlier : List Diagnostic}
    {w : List Token} {seam : Seam w} {row : List (Node .enumEntry)} {n : Nat}
    {ending : List TokenKind}
    (h : (joining .bare outer plain 0 1 few earlier seam).Linked s t) (hgroups : first.groups = [])
    (hfree : first.errorCount = 0) (hsome : row ≠ []) (hrow : ∀ e ∈ row, e.PrintableEntry)
    (hweight : ∀ e ∈ row, weigh e.entryPieces < n + 1)
    (hending : ∀ k ∈ ending.head?, k.BehindEntry)
    (hat : first.At s (rowKinds row ++ ending)) :
    ∃ xs s' t', first.At s' ending ∧ (joining .bare outer plain 0 1 few earlier seam).Linked s' t' ∧
      Likeness.bare.Alike row xs ∧ ∀ k ys t'',
        entriesBehind (n + 1) (grammar (n + 1)) k t' = .ok ys t'' →
          enumEntries (n + 1) (grammar (n + 1)) (k + row.length) t = .ok (xs ++ ys) t'' := by
  let K := joining .bare outer plain 0 1 few earlier seam
  have hkept {u : ParserState} (hu : first.Passes u) : ¬K.Lost u := by
    obtain ⟨rest, span, half, i, rfl⟩ := hu
    exact K.not_lost rfl hfree (Or.inr ⟨hgroups, id⟩)
  induction row generalizing s t with
  | nil => exact absurd rfl hsome
  | cons e row ih =>
    have he := hrow e List.mem_cons_self
    have hident : t.kind.isIdent = true := h.isIdent_row hsome hat.shows
    -- What stands behind the entry: another one behind a comma, or the end.
    obtain ⟨zs, hzs, hkinds, hothers⟩ : ∃ zs : List TokenKind,
        (∀ k ∈ zs.head?, k.BehindEntry) ∧
          rowKinds (e :: row) ++ ending = e.entryKinds ++ zs ∧
            (row = [] ∧ zs = ending ∨
              row ≠ [] ∧ zs = .symbol .comma :: (rowKinds row ++ ending)) := by
      by_cases hnone : row = []
      · subst hnone
        exact ⟨ending, hending, rfl, Or.inl ⟨rfl, rfl⟩⟩
      · refine ⟨_, ?_, ?_, Or.inr ⟨hnone, rfl⟩⟩
        · rintro _ ⟨⟩
          exact Or.inl rfl
        · rw [rowKinds_cons e hnone, List.append_assoc, List.cons_append]
    rw [hkinds] at hat
    obtain ⟨x, s₁, hrun, hx, hat₁⟩ :=
      enumEntry_restores he (inner_grammar n) (hweight e List.mem_cons_self) hzs hat
    have hfollows : Follows K 0 .firm .firm (fun _ => True) (enumEntry (n + 1) (grammar (n + 1)))
        (enumEntry (n + 1) (grammar (n + 1))) :=
      enumEntry_follows (grammar_follows (Nat.le_refl _)) (Nat.le_refl _)
    obtain ⟨x', t₁, hrun', hx', h₁⟩ :=
      hfollows.result_right h trivial (hkept hat.passes) hrun (hkept hat₁.passes) rfl
    have hentry : Likeness.bare.Alike e x' := hx.trans hx'
    rcases hothers with ⟨rfl, rfl⟩ | ⟨hmore, rfl⟩
    · refine ⟨[x'], s₁, t₁, hat₁, h₁, hentry.cons Likeness.alike_nil, fun k ys t'' hbehind => ?_⟩
      exact enumEntries_cons hident hrun' hbehind
    · obtain ⟨mark, ts, hrest₁, hmark, -⟩ := hat₁.shows.rest_cons (by simp)
      have hcomma : s₁.kind = .symbol .comma := hat₁.shows.kind_eq (by simp)
      have hended₁ : ¬K.Ended s₁ := by
        rintro ⟨-, hnil⟩
        rw [hrest₁] at hnil
        cases hnil
      have hcomma' : t₁.kind = .symbol .comma := (h₁.kind hended₁).trans hcomma
      obtain ⟨hshows₂, hpasses₂⟩ := hat₁.shows.advance (by simp)
      have hat₂ : first.At s₁.advance (rowKinds row ++ ending) :=
        ⟨hat₁.passes.trans hpasses₂, hshows₂⟩
      rcases h₁.advance (by simp [hrest₁]) (by rw [hcomma]; exact ⟨rfl, rfl⟩) with hlost | h₂
      · exact absurd hlost (hkept hat₂.passes)
      obtain ⟨xs, s', t', hat', h', hxs, hrest⟩ := ih h₂ hmore
        (fun e he => hrow e (List.mem_cons_of_mem _ he))
        (fun e he => hweight e (List.mem_cons_of_mem _ he)) hat₂
      refine ⟨x' :: xs, s', t', hat', h', hentry.cons hxs, fun k ys t'' hbehind => ?_⟩
      refine enumEntries_cons hident hrun' ?_
      obtain ⟨y, ys', hy, -⟩ := h₁.rest_cons hrest₁
      have hinside : ignoresNewlines t₁.groups = false := by
        obtain ⟨_, _, _, _, rfl⟩ := hat₁.passes
        rw [h₁.groups]
        exact (congrArg (fun groups => ignoresNewlines (groups ++ outer)) hgroups).trans plain
      rw [entriesBehind_comma hcomma' (by simp [hy]) hinside (h₂.isIdent_row hmore hshows₂)]
      exact hrest k ys t'' hbehind

/-- What may stand behind the entries. -/
inductive EntryEnd : List Piece → Prop
  | none : EntryEnd []
  | semi : EntryEnd [.mark .semi]
  | brace : EntryEnd [.mark .rBrace]

/-- It is at hand as it is written. -/
theorem EntryEnd.shown {ending : List Piece} {s : ParserState} (h : EntryEnd ending)
    (hshows : s.Shows (ending.map (·.kind))) :
    s.halfShift = false ∧ s.rest.map (·.kind) = ending.map (·.kind) := by
  cases h with
  | none =>
    obtain ⟨hrest, hhalf⟩ := hshows.rest_nil
    exact ⟨hhalf, by rw [hrest]; rfl⟩
  | semi | brace =>
    obtain ⟨t, ts, hrest, hkind, hhalf, hlater⟩ := hshows.rest_cons (by simp)
    cases hlater
    exact ⟨hhalf, by rw [hrest, List.map_cons, hkind]; rfl⟩

/-- No token is shown otherwise than it is. -/
theorem EntryEnd.calm {ending : List Piece} (h : EntryEnd ending) :
    ∀ p ∈ ending, p.kind ≠ .symbol .shr ∧ p.kind ≠ .newline ∧ p.kind ≠ .eof := by
  cases h <;> simp [Piece.mark]

/-- It may stand behind an entry. -/
theorem EntryEnd.head {ending : List Piece} (h : EntryEnd ending) :
    ∀ k ∈ (ending.map (·.kind)).head?, k.BehindEntry := by
  cases h <;> simp [Piece.mark, TokenKind.BehindEntry]

/-- A line of entries inside the braces, up to what stands behind them. -/
theorem InBlock.row {ms w : List Token} {t : ParserState} {row : List (Node .enumEntry)} {n : Nat}
    {ending : List Piece} (h : InBlock false 0 (ms ++ w) t) (hsome : row ≠ [])
    (hrow : ∀ e ∈ row, e.PrintableEntry) (hweight : ∀ e ∈ row, weigh e.entryPieces < n + 1)
    (hending : EntryEnd ending) (hms : ms.map (·.kind) = fused (rowPieces row ++ ending))
    (seam : Seam w) :
    ∃ xs t', InBlock false 0 t'.rest t' ∧ Likeness.bare.Alike row xs ∧
      t'.rest.map (·.kind) = ending.map (·.kind) ++ w.map (·.kind) ∧
      ∀ k ys t'', entriesBehind (n + 1) (grammar (n + 1)) k t' = .ok ys t'' →
        enumEntries (n + 1) (grammar (n + 1)) (k + row.length) t = .ok (xs ++ ys) t'' := by
  let s := ParserState.start ⟨0⟩ (ms ++ [⟨.eof, default⟩])
  have heof : ∀ x ∈ ms ++ w, x.kind ≠ .eof := fun x hx => h.sound.rest x (h.rest.symm ▸ hx)
  have hrest : s.rest = ms :=
    ParserState.start_alone fun x hx => heof x (List.mem_append_left _ hx)
  have hshows : s.Shows (rowKinds row ++ ending.map (·.kind)) := by
    have hneat := rowPieces_neat hsome hrow
    have hall : s.Shows ((rowPieces row ++ ending).map (·.kind)) :=
      ParserState.start_shows (fun p hp => ?_) hms
    · rwa [List.map_append] at hall
    · rcases List.mem_append.1 hp with hp | hp
      · obtain ⟨hshr, hnewline⟩ := rowPieces_shown hrow p hp
        refine ⟨hshr, hnewline, fun hend => ?_⟩
        have hlegible := hneat.legible p hp
        rw [hend] at hlegible
        cases hlegible
      · exact hending.calm p hp
  have hlinked : (Simulation.joining .bare [⟨false, true⟩] rfl 0 1 (by decide) t.warnings
      seam).Linked s t := h.linked (hrest.symm ▸ rfl) _ _
  have hat : s.At s (rowKinds row ++ ending.map (·.kind)) := hshows.at
  obtain ⟨xs, s', t', hat, hlinked', hxs, hbehind⟩ := hlinked.row rfl rfl hsome hrow hweight
    hending.head hat
  obtain ⟨hhalf, hkinds⟩ := hending.shown hat.shows
  obtain ⟨ms', hms', hrest'⟩ := hlinked'.rest_joined
  obtain ⟨⟨rest, span, half, id, rfl⟩, -⟩ := hat
  have hthere := InBlock.of_linked hlinked' rfl rfl
    fun x hx => heof x (List.mem_append_right _ hx)
  refine ⟨xs, t', ?_, hxs, ?_, hbehind⟩
  · rwa [hhalf] at hthere
  · rw [hrest', List.map_append, hms', hkinds]

/-- The kinds of the tokens of lines of entries, with what stands behind the last line. -/
def entryLinesKinds (ending : List Piece) (later : List TokenKind) :
    List (Node .enumEntry) → List (List (Node .enumEntry)) → List TokenKind
  | row, [] => fused (rowPieces row ++ ending) ++ later
  | row, row' :: rows =>
    fused (rowPieces row) ++ .newline :: entryLinesKinds ending later row' rows

/-- Behind the name a line begins with, no bracket is taken together with it. -/
theorem fused_row {row : List (Node .enumEntry)} (h : row ≠ []) (ps : List Piece) :
    ∃ name ks, fused (rowPieces row ++ ps) = .ident name :: ks := by
  obtain ⟨name, ks, hkinds⟩ := rowKinds_eq h
  obtain ⟨q, qs, hrow, hname, -⟩ := List.map_eq_cons_iff.1 hkinds
  refine ⟨name, fused (qs ++ ps), ?_⟩
  rw [hrow, List.cons_append, ← hname]
  obtain ⟨kind, blank⟩ := q
  obtain rfl : kind = .ident name := hname
  rfl

/-- What stands behind the entries is scanned as it is written. -/
theorem EntryEnd.fused_eq {ending : List Piece} (h : EntryEnd ending) :
    fused ending = ending.map (·.kind) := by
  cases h <;> rfl

/-- No line goes on with what is before it. -/
theorem fresh_row {ending : List Piece} (hending : EntryEnd ending) {row : List (Node .enumEntry)}
    {ms : List Token} (hms : ms.map (·.kind) = fused (rowPieces row ++ ending)) : Fresh ms := by
  rw [fresh_iff_kinds hms]
  by_cases hnone : row = []
  · subst hnone
    rw [show rowPieces [] ++ ending = ending from rfl, hending.fused_eq]
    cases hending <;> simp [Piece.mark, TokenKind.continues]
  · obtain ⟨name, ks, hkinds⟩ := fused_row hnone ending
    rw [hkinds]
    simp [TokenKind.continues]

/-- Nor do several lines. -/
theorem entryLines_fresh {ending : List Piece} (hending : EntryEnd ending) {later : List TokenKind}
    (hlater : ∀ v, v.map Token.kind = later → Seam v) {row : List (Node .enumEntry)}
    {rows : List (List (Node .enumEntry))} {v : List Token}
    (hv : v.map (·.kind) = entryLinesKinds ending later row rows) : Fresh v := by
  induction rows generalizing row v with
  | nil =>
    obtain ⟨ms, w, rfl, hms, hw⟩ := List.map_eq_append_iff.1 hv
    cases hlater w hw with
    | none => exact (List.append_nil ms).symm ▸ fresh_row hending hms
    | line newline fresh => exact (fresh_row hending hms).append newline fresh
  | cons row' rows ih =>
    obtain ⟨ms, y, v, rfl, hms, hy, hv⟩ := split_line hv
    have hclosed : ms.map (·.kind) = fused (rowPieces row ++ []) := by
      rw [List.append_nil]
      exact hms
    exact (fresh_row .none hclosed).append hy (ih hv)

/-- A line break between lines is skipped. -/
theorem InBlock.separated {y : Token} {v : List Token} {t : ParserState} {half : Bool} {count : Nat}
    (h : InBlock half count (y :: v) t) (newline : y.kind = .newline) :
    t.skipWhile separatesEntries = t.advance.skipWhile separatesEntries :=
  ParserState.skipWhile_stepped h.rest (by rw [newline]; rfl) (by rw [h.groups]; rfl)

/-- Only separators are skipped behind the last line of entries. -/
theorem InBlock.skipped_last {t : ParserState} {ks : List TokenKind} (h : InBlock false 0 t.rest t)
    (hkinds : t.rest.map (·.kind) = ks)
    (hlast : ∀ k ∈ (ks.dropWhile separatesEntries).head?, k.isIdent = false) :
    (t.skipWhile separatesEntries).kind.isIdent = false ∧
      (t.skipWhile separatesEntries).rest.map (·.kind) = ks.dropWhile separatesEntries := by
  have hskipped : (t.skipWhile separatesEntries).rest.map (·.kind) =
      ks.dropWhile separatesEntries := by
    rw [← hkinds, List.dropWhile_map]
    rfl
  refine ⟨?_, hskipped⟩
  cases hrest : (t.skipWhile separatesEntries).rest with
  | nil =>
    rw [(h.skipped separatesEntries).sound.kind_eq_eof.2 hrest]
    rfl
  | cons x xs =>
    rw [ParserState.kind_cons hrest]
    rw [hrest] at hskipped
    refine hlast x.kind ?_
    rw [← hskipped]
    rfl

/-- Nothing is skipped in front of a line that has an entry. -/
theorem skipWhile_row {t : ParserState} {row : List (Node .enumEntry)} {ps : List Piece}
    {ks : List TokenKind} (h : row ≠ [])
    (hkinds : t.rest.map (·.kind) = fused (rowPieces row ++ ps) ++ ks) :
    t.skipWhile separatesEntries = t := by
  obtain ⟨name, ks', hname⟩ := fused_row h ps
  rw [hname, List.cons_append] at hkinds
  obtain ⟨x, xs, hx, hkind, -⟩ := List.map_eq_cons_iff.1 hkinds
  refine ParserState.skipWhile_stays ?_
  rw [ParserState.kind_cons hx, hkind]
  rfl

/-- The entries of all lines are read, with the separators behind them. -/
theorem InBlock.entries {t : ParserState} {row : List (Node .enumEntry)}
    {rows : List (List (Node .enumEntry))} {n k : Nat} {ending : List Piece}
    {later : List TokenKind}
    (h : InBlock false 0 t.rest t) (hrows : ∀ e ∈ (row :: rows).flatten, e.PrintableEntry)
    (hweight : ∀ e ∈ (row :: rows).flatten, weigh e.entryPieces < n + 1) (hending : EntryEnd ending)
    (hrest : t.rest.map (·.kind) = entryLinesKinds ending later row rows)
    (hlater : ∀ v, v.map Token.kind = later → Seam v)
    (hlast : ∀ k ∈ ((ending.map (·.kind) ++ later).dropWhile separatesEntries).head?,
      k.isIdent = false) (hk : (row :: rows).flatten.length < k) :
    ∃ xs t', enumEntries (n + 1) (grammar (n + 1)) k (t.skipWhile separatesEntries) = .ok xs t' ∧
      Likeness.bare.Alike (row :: rows).flatten xs ∧ InBlock false 0 t'.rest t' ∧
      t'.rest.map (·.kind) = (ending.map (·.kind) ++ later).dropWhile separatesEntries := by
  induction rows generalizing row t k with
  | nil =>
    rw [List.flatten_singleton] at hrows hweight hk ⊢
    by_cases hempty : row = []
    · subst hempty
      obtain ⟨k, rfl⟩ : ∃ k', k = k' + 1 := ⟨k - 1, by omega⟩
      have hkinds : t.rest.map (·.kind) = ending.map (·.kind) ++ later := by
        rw [← hending.fused_eq]
        exact hrest
      obtain ⟨hother, hskipped⟩ := h.skipped_last hkinds hlast
      exact ⟨[], _, enumEntries_nil hother, rfl, h.skipped separatesEntries, hskipped⟩
    · rw [skipWhile_row hempty hrest]
      obtain ⟨ms, w, hmsw, hms, hw⟩ := List.map_eq_append_iff.1 hrest
      obtain ⟨xs, t', hthere, hxs, hkinds, hbehind⟩ := (hmsw ▸ h).row (w := w) hempty hrows hweight
        hending hms (hlater w hw)
      rw [hw] at hkinds
      obtain ⟨hother, hskipped⟩ := hthere.skipped_last hkinds hlast
      obtain ⟨k, rfl⟩ : ∃ k', k = k' + 1 + row.length := ⟨k - row.length - 1, by omega⟩
      have hrun := hbehind (k + 1) [] _ (entriesBehind_last hother)
      rw [List.append_nil] at hrun
      exact ⟨xs, _, hrun, hxs, hthere.skipped separatesEntries, hskipped⟩
  | cons row' rows ih =>
    rw [List.flatten_cons] at hrows hweight hk ⊢
    rw [List.length_append] at hk
    -- The lines behind a line break are read as if they were the first ones.
    have hothers {u : ParserState} {y : Token} {v : List Token} {k : Nat}
        (hu : InBlock false 0 (y :: v) u) (hy : y.kind = .newline)
        (hv : v.map (·.kind) = entryLinesKinds ending later row' rows)
        (hk : (row' :: rows).flatten.length < k) := by
      have hall := ih (t := u.advance) (k := k) (hu.stepped.rest.symm ▸ hu.stepped)
        (fun e he => hrows e (List.mem_append_right row he))
        (fun e he => hweight e (List.mem_append_right row he)) (hu.stepped.rest.symm ▸ hv) hk
      rwa [← hu.separated hy] at hall
    obtain ⟨ms, y, v, hmsv, hms, hy, hv⟩ := split_line hrest
    by_cases hempty : row = []
    · subst hempty
      obtain rfl : ms = [] := List.map_eq_nil_iff.1 hms
      rw [hmsv] at h
      exact hothers h hy hv (by simpa using hk)
    · have hclosed : ms.map (·.kind) = fused (rowPieces row ++ []) := by
        rw [List.append_nil]
        exact hms
      have hwhole : t.rest.map (·.kind) = fused (rowPieces row ++ []) ++
          .newline :: entryLinesKinds ending later row' rows := by
        rw [List.append_nil]
        exact hrest
      rw [skipWhile_row hempty hwhole]
      obtain ⟨xs, t', hthere, hxs, hkinds, hbehind⟩ := (hmsv ▸ h).row (w := y :: v) hempty
        (fun e he => hrows e (List.mem_append_left _ he))
        (fun e he => hweight e (List.mem_append_left _ he)) .none hclosed
        (.line hy (entryLines_fresh hending hlater hv))
      obtain ⟨y', v', hrest', hsame, hv'⟩ := List.map_eq_cons_iff.1 hkinds
      have hy' : y'.kind = .newline := hsame.trans hy
      rw [hrest'] at hthere
      obtain ⟨k, rfl⟩ : ∃ k', k = k' + row.length := ⟨k - row.length, by omega⟩
      obtain ⟨ys, t'', hrun, hys, hlast', hkinds'⟩ :=
        hothers (k := k) hthere hy' (hv'.trans hv) (by omega)
      have hseparates : separatesEntries t'.kind = true := by
        rw [hthere.kind, hy']
        rfl
      refine ⟨xs ++ ys, t'', ?_, hxs.append hys, hlast', hkinds'⟩
      exact hbehind k ys t'' ((entriesBehind_separated hseparates).trans hrun)

/-- The brace behind the members closes an enumeration. -/
theorem InBlock.close_enum {half : Bool} {mark : Token} {t : ParserState}
    (h : InBlock half 0 [mark] t) (hmark : mark.kind = .symbol .rBrace) :
    ∃ s', AtEnd s' ∧ s'.errorCount = 0 ∧ ∀ {β : Type} (f : Parser β),
      (closeGroup >>= fun _ => skipTerminators >>= fun _ =>
        discard (expectSymbol .rBrace) >>= fun _ => f) t = f s' := by
  let t' : ParserState := { t with groups := [], allowsBrace := true }
  have hclosed : t.closeGroup = t' := by
    unfold ParserState.closeGroup
    rw [h.groups]
  have hkind : t'.kind = .symbol .rBrace := h.kind.trans hmark
  have hstays : t'.skipWhile TokenKind.terminates = t' :=
    ParserState.skipWhile_stays (by rw [hkind]; rfl)
  have hadvance : t'.advance = { t' with rest := [], lastSpan := mark.span } :=
    ParserState.advance_outside h.rest rfl
  refine ⟨t'.advance, ⟨by rw [hadvance], by rw [hadvance]; exact h.sound.final⟩,
    by rw [hadvance]; exact h.count, fun f => ?_⟩
  have hclose : closeGroup t = .ok () t' := congrArg (EStateM.Result.ok ()) hclosed
  have hskip : skipTerminators t' = .ok () t' := congrArg (EStateM.Result.ok ()) hstays
  exact (bind_run hclose).trans ((bind_run hskip).trans (bind_run (discard_expect hkind)))

end FrontEnd
