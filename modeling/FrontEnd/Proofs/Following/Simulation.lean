import FrontEnd.Proofs.Following.Comparison

/-!
# Two token streams side by side

The parser is run twice, on a left and on a right stream of tokens that are read alike: the right
one may go on where the left one ends, or may have line breaks where they have no meaning. A
simulation says how the two streams are related while groups are opened and closed; from it follows
how the states of the two runs are related, and that every single step of the parser keeps them so.
-/

namespace FrontEnd

/-- The groups before and after a token of some kind is read. -/
inductive TokenKind.Moves (k : TokenKind) : List Group → List Group → Prop
  /-- Most tokens leave the groups alone. -/
  | inside {groups : List Group} (opening : k.isOpening = false) (closing : k.isClosing = false) :
    k.Moves groups groups
  /-- An opening delimiter; line breaks may count only after a brace. -/
  | enter {g : Group} {groups : List Group} (opening : k.isOpening = true)
    (brace : k ≠ .symbol .lBrace → g.ignoresNewlines = true) : k.Moves groups (g :: groups)
  /-- A closing delimiter. -/
  | leave {g : Group} {groups : List Group} (closing : k.isClosing = true) :
    k.Moves (g :: groups) groups

/-- Two last spans from which all later places are read alike. -/
def Likeness.Ends (l : Likeness) (last last' : Span) : Prop :=
  ∀ ⦃a a' : Span⦄, l.Alike a a' → l.Alike (if last.pos < a.pos then a else a.cover last)
    (if last'.pos < a'.pos then a' else a'.cover last')

/-- Places are read alike up to places that are alike. -/
theorem Likeness.ends_of_alike {l : Likeness} {last last' : Span} (h : l.Alike last last') :
    l.Ends last last' := fun _ _ ha => l.upTo ha h

/-- They are read alike behind tokens that are alike. -/
theorem Likeness.Ends.after {l : Likeness} {last last' : Span} (h : l.Ends last last')
    {xs ys : List Token} (htokens : l.Alike xs ys) :
    l.Ends (lastSpanAfter last xs) (lastSpanAfter last' ys) := by
  induction xs generalizing ys last last' with
  | nil =>
    obtain rfl : ys = [] := List.map_eq_nil_iff.1 htokens.symm
    exact h
  | cons x xs ih =>
    obtain ⟨y, ys, rfl, htoken, htail⟩ := List.map_eq_cons_iff.1 htokens.symm
    rw [lastSpanAfter_cons, lastSpanAfter_cons]
    exact ih (l.ends_of_alike (Likeness.Alike.span htoken.symm)) htail.symm

/-- Two streams after all tokens of some kind were stepped over in both. -/
structure SkippedAlike (l : Likeness) (stream : List Token → List Token → Prop)
    (p : TokenKind → Bool) (xs ys : List Token) : Prop where
  stream : stream (xs.dropWhile (p ·.kind)) (ys.dropWhile (p ·.kind))
  ends : ∀ {last last' : Span}, l.Ends last last' →
    l.Ends (lastSpanAfter last (xs.takeWhile (p ·.kind)))
      (lastSpanAfter last' (ys.takeWhile (p ·.kind)))

/-- How a left and a right stream of tokens are read alike. -/
structure Simulation where
  /-- When results are taken for the same. -/
  like : Likeness
  /-- The groups that are open on the right only, around all others. -/
  base : List Group
  base_plain : ignoresNewlines base = false
  /-- The number of errors found earlier on the right. -/
  extra : Nat
  /-- The number of errors from which on the left run is given up. -/
  limit : Nat
  limit_le : limit + extra ≤ maxErrors
  /-- The warnings given earlier on the right. -/
  earlier : List Diagnostic
  /-- Whether the right stream goes on where the left one ends. -/
  extended : Prop
  /-- Whether the left stream is cut off there: a run that reads all of it is given up. -/
  cut : Prop := False
  /-- The grip behind a condition without a second branch: slack if the right stream goes on with
  one where the left one ends. -/
  tail : Grip := .firm
  /-- The streams that are read alike inside some groups. -/
  stream : List Group → List Token → List Token → Prop
  /-- Where the left stream ends a line break follows on the right, or it ends too. -/
  nil : ∀ {groups : List Group} {ys : List Token}, stream groups [] ys →
    extended ∧ (∃ y ys', ys = y :: ys' ∧ y.kind = .newline) ∨ ¬extended ∧ ys = []
  /-- The tokens at hand are the same. -/
  cons : ∀ {groups : List Group} {x : Token} {xs ys : List Token}, stream groups (x :: xs) ys →
    ∃ y ys', ys = y :: ys' ∧ y.kind = x.kind ∧ like.Alike x.span y.span
  /-- A token is read, with the line breaks behind it where they have no meaning. -/
  move : ∀ {groups groups' : List Group} {x y : Token} {xs ys : List Token} {p : TokenKind → Bool},
    stream groups (x :: xs) (y :: ys) → x.kind.Moves groups groups' →
    (∀ k, p k = true → k = .newline) → (ignoresNewlines groups' = true → p .newline = true) →
    extended ∧ (p .newline = true ∨ cut) ∧ xs.dropWhile (p ·.kind) = [] ∨
      SkippedAlike like (stream groups') p xs ys
  /-- Separators are stepped over. -/
  skip : ∀ {groups : List Group} {xs ys : List Token} {p : TokenKind → Bool},
    stream groups xs ys → p .newline = true →
    (∀ k, p k = true → k.isOpening = false ∧ k.isClosing = false) →
    extended ∧ xs.dropWhile (p ·.kind) = [] ∨ SkippedAlike like (stream groups) p xs ys
  /-- The token behind a name is seen alike where it matters. -/
  label : ∀ {groups : List Group} {x y : Token} {xs ys : List Token},
    stream groups (x :: xs) (y :: ys) → x.kind.isIdent = true →
    (xs.head?.map (·.kind) = some (.symbol .colon) ↔ ys.head?.map (·.kind) = some (.symbol .colon))
  /-- So is the token behind a borrow. -/
  borrow : ∀ {groups : List Group} {x y : Token} {xs ys : List Token},
    stream groups (x :: xs) (y :: ys) → x.kind = .symbol .ampersand →
    (xs.head?.map (·.kind) = some (.keyword .mut_) ↔ ys.head?.map (·.kind) = some (.keyword .mut_))
  /-- Behind the end of the left stream nothing continues its last statement, but for an `else`. -/
  fresh : ∀ {groups : List Group} {xs ys : List Token}, extended → stream groups xs ys →
    (∀ x ∈ xs, x.kind = .newline) →
    ∀ y ∈ (ys.dropWhile (·.kind = .newline)).head?, y.kind.continues = false ∨
      y.kind = .keyword .else_ ∧ tail = .slack ∧ xs = []
  /-- Where the left run may go on after errors, the right stream is the left one with some tokens
  behind it. -/
  exact : 1 < limit → ∃ w, ∀ groups xs ys, stream groups xs ys ↔
    ∃ ms, like.Alike xs ms ∧ ys = ms ++ w

/-- Outside of all groups line breaks have a meaning. -/
theorem ignoresNewlines_nil : ignoresNewlines [] = false := rfl

/-- A run may be given up with its first error. -/
theorem first_le_maxErrors : 1 + 0 ≤ maxErrors := by decide

namespace Simulation

variable (K : Simulation)

/-- The left run is at its end while the right one goes on. -/
def Ended (s : ParserState) : Prop := K.extended ∧ s.rest = []

/-- The left run cannot end well any more: its text ends inside a group or where it was cut off, or
it has too many errors. -/
def Lost (s : ParserState) : Prop :=
  s.rest = [] ∧ (s.groups ≠ [] ∨ K.cut) ∨ K.limit ≤ s.errorCount

/-- Two states from which the parser goes on alike. -/
structure Linked (s t : ParserState) : Prop where
  sound : s.Sound
  final : t.final.kind = .eof
  stream : K.stream s.groups s.rest t.rest
  groups : t.groups = s.groups ++ K.base
  brace : t.allowsBrace = s.allowsBrace
  half : t.halfShift = s.halfShift
  ids : ∀ i, K.like.Alike (⟨s.nextId + i⟩ : NodeId) ⟨t.nextId + i⟩
  count : t.errorCount = s.errorCount + K.extra
  warned : ∃ ws, t.warnings = K.earlier ++ ws ∧ K.like.Alike s.warnings ws
  ends : K.like.Ends s.lastSpan t.lastSpan
  finals : ¬K.extended → K.like.Alike s.final.span t.final.span

variable {K} {s t : ParserState}

/-- What is lost stays so. -/
theorem Lost.onward {s' : ParserState} (h : K.Lost s) (on : s.Onward s')
    (hgroups : s.rest = [] → s'.groups = s.groups) : K.Lost s' := by
  rcases h with ⟨hrest, hopen⟩ | hlimit
  · exact Or.inl ⟨on.rest_nil hrest, hgroups hrest ▸ hopen⟩
  · exact Or.inr (Nat.le_trans hlimit on.count)

/-- Where the first error ends a run, no state without errors is lost that has tokens left or is
outside of all groups, if the text is not cut off. -/
theorem not_lost (hlimit : K.limit = 1) (hcount : s.errorCount = 0)
    (hkept : s.rest ≠ [] ∨ s.groups = [] ∧ ¬K.cut) : ¬K.Lost s := by
  rintro (⟨hnil, hopen⟩ | hmany)
  · obtain ⟨hgroups, hcut⟩ := hkept.resolve_left fun hsome => hsome hnil
    exact hopen.elim (fun hopen => hopen hgroups) hcut
  · rw [hlimit, hcount] at hmany
    exact Nat.not_succ_le_zero 0 hmany

/-- A state at its end is followed only by such states. -/
theorem Ended.onward {s' : ParserState} (h : K.Ended s) (on : s.Onward s') : K.Ended s' :=
  ⟨h.1, on.rest_nil h.2⟩

/-- Groups around all others do not change whether line breaks count inside. -/
theorem ignoresNewlines_append (groups : List Group) :
    ignoresNewlines (groups ++ K.base) = ignoresNewlines groups := by
  cases groups with
  | nil => exact K.base_plain
  | cons g groups => rfl

theorem ne_nil_of_ignores {groups : List Group} (h : ignoresNewlines groups = true) :
    groups ≠ [] := by
  rintro rfl
  cases h

namespace Linked

/-- The token at hand on the right, where there is one on the left. -/
theorem rest_cons (h : K.Linked s t) {x : Token} {xs : List Token} (hrest : s.rest = x :: xs) :
    ∃ y ys, t.rest = y :: ys ∧ y.kind = x.kind ∧ K.like.Alike x.span y.span := by
  have hstream := h.stream
  rw [hrest] at hstream
  exact K.cons hstream

/-- The tokens at hand are the same, but for the ends of the streams. -/
theorem current (h : K.Linked s t) (hend : ¬K.Ended s) : K.like.Alike s.current t.current := by
  cases hrest : s.rest with
  | cons x xs =>
    obtain ⟨y, ys, hrest', hkind, hspan⟩ := h.rest_cons hrest
    unfold ParserState.current
    rw [hrest, hrest']
    exact (congr (congrArg Token.mk hkind.symm) hspan :)
  | nil =>
    have hstream := h.stream
    rw [hrest] at hstream
    obtain ⟨hext, -⟩ | ⟨hext, hrest'⟩ := K.nil hstream
    · exact absurd ⟨hext, hrest⟩ hend
    · unfold ParserState.current
      rw [hrest, hrest']
      exact (congr (congrArg Token.mk (h.sound.final.trans h.final.symm)) (h.finals hext) :)

theorem kind (h : K.Linked s t) (hend : ¬K.Ended s) : t.kind = s.kind :=
  (Likeness.Alike.kind (h.current hend)).symm

theorem span (h : K.Linked s t) (hend : ¬K.Ended s) :
    K.like.Alike s.current.span t.current.span :=
  Likeness.Alike.span (h.current hend)

/-- Where the left stream ends a line break is at hand on the right. -/
theorem kind_ended (h : K.Linked s t) (hend : K.Ended s) : t.kind = .newline := by
  have hstream := h.stream
  rw [hend.2] at hstream
  obtain ⟨-, y, ys, hrest', hkind⟩ | ⟨hext, -⟩ := K.nil hstream
  · unfold ParserState.kind ParserState.current
    rw [hrest']
    exact hkind
  · exact absurd hend.1 hext

/-- A token of the same kind is read on both sides, with the line breaks behind it where they have
no meaning. -/
theorem moved (h : K.Linked s t) {x y : Token} {xs ys : List Token} (hrest : s.rest = x :: xs)
    (hrest' : t.rest = y :: ys) {groups : List Group} (hmoves : x.kind.Moves s.groups groups)
    {ignored : Bool} (hignored : ignoresNewlines groups = true → ignored = true)
    (hopen : ignored = true → groups ≠ []) (brace : Bool) :
    let s' : ParserState := { s with
      rest := xs.dropWhile (ParserState.breaks ignored ·.kind)
      lastSpan := lastSpanAfter x.span (xs.takeWhile (ParserState.breaks ignored ·.kind))
      groups := groups
      allowsBrace := brace }
    let t' : ParserState := { t with
      rest := ys.dropWhile (ParserState.breaks ignored ·.kind)
      lastSpan := lastSpanAfter y.span (ys.takeWhile (ParserState.breaks ignored ·.kind))
      groups := groups ++ K.base
      allowsBrace := brace }
    K.Lost s' ∨ K.Linked s' t' := by
  intro s' t'
  have hstream := h.stream
  rw [hrest, hrest'] at hstream
  have hspan : K.like.Alike x.span y.span := by
    obtain ⟨_, _, heq, -, hspan⟩ := K.cons hstream
    cases heq
    exact hspan
  have hbreaks : ∀ k, ParserState.breaks ignored k = true → k = .newline := by
    intro k hk
    simp only [ParserState.breaks, Bool.and_eq_true, decide_eq_true_eq] at hk
    exact hk.2
  have hnewline : ParserState.breaks ignored .newline = ignored := by simp [ParserState.breaks]
  rcases K.move hstream hmoves hbreaks (by rwa [hnewline]) with ⟨-, hbreak, hnone⟩ | hskipped
  · exact Or.inl (Or.inl ⟨hnone, hbreak.imp_left fun hbreak => hopen (hnewline ▸ hbreak)⟩)
  · have hsuffix : s'.rest <:+ s.rest := by
      rw [hrest]
      exact (List.dropWhile_suffix _).trans (List.suffix_cons x xs)
    exact Or.inr
      { sound := ⟨h.sound.final, fun u hu => h.sound.rest u (hsuffix.subset hu)⟩
        final := h.final
        stream := hskipped.stream
        groups := rfl
        brace := rfl
        half := h.half
        ids := h.ids
        count := h.count
        warned := h.warned
        ends := hskipped.ends (K.like.ends_of_alike hspan)
        finals := h.finals }

/-- A token inside its group is stepped over. -/
theorem advance (h : K.Linked s t) (hrest : s.rest ≠ [])
    (hkind : s.kind.isOpening = false ∧ s.kind.isClosing = false) :
    K.Lost s.advance ∨ K.Linked s.advance t.advance := by
  obtain ⟨x, xs, hx⟩ := List.exists_cons_of_ne_nil hrest
  obtain ⟨y, ys, hy, -, -⟩ := h.rest_cons hx
  have hcurrent : s.kind = x.kind := by simp [ParserState.kind, ParserState.current, hx]
  have hmoves : x.kind.Moves s.groups s.groups := hcurrent ▸ .inside hkind.1 hkind.2
  have hmoved := h.moved hx hy hmoves id ne_nil_of_ignores s.allowsBrace
  rw [ParserState.advance_eq hx, ParserState.advance_eq hy, h.groups, ignoresNewlines_append,
    h.brace]
  exact hmoved

/-- A group is entered through its opening delimiter. -/
theorem enter (h : K.Linked s t) (hrest : s.rest ≠ []) (hkind : s.kind.isOpening = true)
    {i : Bool} (hi : s.kind ≠ .symbol .lBrace → i = true) :
    K.Lost (s.advance.openGroup i) ∨ K.Linked (s.advance.openGroup i) (t.advance.openGroup i) := by
  obtain ⟨x, xs, hx⟩ := List.exists_cons_of_ne_nil hrest
  obtain ⟨y, ys, hy, -, -⟩ := h.rest_cons hx
  have hcurrent : s.kind = x.kind := by simp [ParserState.kind, ParserState.current, hx]
  have hmoves : x.kind.Moves s.groups (⟨i, s.allowsBrace⟩ :: s.groups) :=
    .enter (hcurrent ▸ hkind) (hcurrent ▸ hi)
  have hignored : ignoresNewlines (⟨i, s.allowsBrace⟩ :: s.groups) = true →
      (ignoresNewlines s.groups || i) = true := by
    intro hi
    rw [show i = true from hi, Bool.or_true]
  have hmoved := h.moved hx hy hmoves hignored (fun _ => List.cons_ne_nil _ _) true
  rw [ParserState.enter_eq hx, ParserState.enter_eq hy, h.groups, ignoresNewlines_append, h.brace]
  exact hmoved

/-- A group is left through its closing delimiter. -/
theorem leave (h : K.Linked s t) (hrest : s.rest ≠ []) (hkind : s.kind.isClosing = true)
    (hgroups : s.groups ≠ []) :
    K.Lost s.closeGroup.advance ∨ K.Linked s.closeGroup.advance t.closeGroup.advance := by
  obtain ⟨x, xs, hx⟩ := List.exists_cons_of_ne_nil hrest
  obtain ⟨y, ys, hy, -, -⟩ := h.rest_cons hx
  obtain ⟨g, groups, hg⟩ := List.exists_cons_of_ne_nil hgroups
  have hcurrent : s.kind = x.kind := by simp [ParserState.kind, ParserState.current, hx]
  have hmoves : x.kind.Moves s.groups groups := hg ▸ .leave (hcurrent ▸ hkind)
  have hmoved := h.moved hx hy hmoves id ne_nil_of_ignores g.outerAllowsBrace
  have hg' : t.groups = g :: (groups ++ K.base) := by rw [h.groups, hg, List.cons_append]
  rw [ParserState.leave_eq hx hg, ParserState.leave_eq hy hg', ignoresNewlines_append]
  exact hmoved

/-- Separators are stepped over. -/
theorem skip (h : K.Linked s t) {p : TokenKind → Bool} (hnewline : p .newline = true)
    (hp : ∀ k, p k = true → k.isOpening = false ∧ k.isClosing = false) :
    K.Ended (s.skipWhile p) ∨ K.Linked (s.skipWhile p) (t.skipWhile p) := by
  rcases K.skip h.stream hnewline hp with hend | hskipped
  · exact Or.inl hend
  · have hsuffix : (s.skipWhile p).rest <:+ s.rest := List.dropWhile_suffix _
    exact Or.inr
      { sound := ⟨h.sound.final, fun u hu => h.sound.rest u (hsuffix.subset hu)⟩
        final := h.final
        stream := hskipped.stream
        groups := h.groups
        brace := h.brace
        half := h.half
        ids := h.ids
        count := h.count
        warned := h.warned
        ends := hskipped.ends h.ends
        finals := h.finals }

/-- A brace may be allowed or forbidden on both sides. -/
theorem setBrace (h : K.Linked s t) (brace : Bool) :
    K.Linked { s with allowsBrace := brace } { t with allowsBrace := brace } :=
  { h with sound := ⟨h.sound.final, h.sound.rest⟩, brace := rfl }

/-- Half of a `>>` may be used up on both sides. -/
theorem setHalf (h : K.Linked s t) (half : Bool) :
    K.Linked { s with halfShift := half } { t with halfShift := half } :=
  { h with sound := ⟨h.sound.final, h.sound.rest⟩, half := rfl }

/-- Numbers are given out on both sides. -/
theorem number (h : K.Linked s t) : K.like.Alike (⟨s.nextId⟩ : NodeId) ⟨t.nextId⟩ ∧
    K.Linked { s with nextId := s.nextId + 1 } { t with nextId := t.nextId + 1 } := by
  refine ⟨h.ids 0, { h with sound := ⟨h.sound.final, h.sound.rest⟩, ids := fun i => ?_ }⟩
  have hids := h.ids (1 + i)
  rwa [← Nat.add_assoc, ← Nat.add_assoc] at hids

/-- Problems are reported on both sides; warnings have to be alike. -/
theorem report (h : K.Linked s t) {d d' : Diagnostic} (hd : d'.isError = d.isError)
    (halike : d.isError = false → K.like.Alike d d') :
    K.Linked (s.report d) (t.report d') := by
  refine { h with sound := ⟨h.sound.final, h.sound.rest⟩, count := ?_, warned := ?_ }
  · have hcount := h.count
    unfold ParserState.errorCount Diagnostic.errorCount at hcount ⊢
    unfold ParserState.report
    dsimp only
    rw [List.countP_append, List.countP_append, hcount, List.countP_singleton,
      List.countP_singleton, hd]
    omega
  · obtain ⟨ws, hws, hwarnings⟩ := h.warned
    rw [ParserState.warnings_report, ParserState.warnings_report, hws, hd]
    cases hkind : d.isError with
    | true => exact ⟨ws, by simp, by simpa using hwarnings⟩
    | false =>
      exact ⟨ws ++ [d'], by simp, hwarnings.append ((halike hkind).cons Likeness.alike_nil)⟩

/-- Tokens that go on with a statement are seen alike behind line breaks, but for an `else` behind
the end of the left text. -/
theorem kindAfterNewlines (h : K.Linked s t) {k : TokenKind} (hk : k.continues = true) :
    (s.kindAfterNewlines = k ↔ t.kindAfterNewlines = k) ∨
      k = .keyword .else_ ∧ K.tail = .slack ∧ K.Ended s := by
  have hnot {j : TokenKind} (hj : j.continues = false) : j ≠ k := by
    rintro rfl
    rw [hk] at hj
    cases hj
  -- Where the left stream holds line breaks only, the right one goes on with something new.
  have hfresh (hext : K.extended) (hnone : s.rest.dropWhile (·.kind = .newline) = []) :
      (s.kindAfterNewlines = k ↔ t.kindAfterNewlines = k) ∨
        k = .keyword .else_ ∧ K.tail = .slack ∧ K.Ended s := by
    have hall : ∀ x ∈ s.rest, x.kind = .newline := by
      intro x hx
      simpa using List.dropWhile_eq_nil_iff.1 hnone x hx
    have hleft : s.kindAfterNewlines ≠ k := by
      unfold ParserState.kindAfterNewlines
      rw [hnone]
      exact hnot (h.sound.final ▸ rfl)
    by_cases hright : t.kindAfterNewlines = k
    · have hhead := K.fresh hext h.stream hall
      unfold ParserState.kindAfterNewlines at hright
      cases hys : (t.rest.dropWhile (·.kind = .newline)).head? with
      | none =>
        rw [hys] at hright
        exact absurd hright (hnot (h.final ▸ rfl))
      | some y =>
        rw [hys] at hright
        rcases hhead y hys with hy | ⟨helse, htail, hnil⟩
        · exact absurd hright (hnot hy)
        · exact Or.inr ⟨hright.symm.trans helse, htail, hext, hnil⟩
    · exact Or.inl (iff_of_false hleft hright)
  rcases K.skip (p := fun k => k = .newline) h.stream rfl (by simp [TokenKind.isOpening,
    TokenKind.isClosing]) with ⟨hext, hnone⟩ | hskipped
  · exact hfresh hext hnone
  · have hstream := hskipped.stream
    unfold ParserState.kindAfterNewlines at hfresh ⊢
    cases hxs : s.rest.dropWhile (·.kind = .newline) with
    | cons x xs =>
      rw [hxs] at hstream
      obtain ⟨y, ys, hys, hkind, -⟩ := K.cons hstream
      rw [hys]
      simp [hkind]
    | nil =>
      rw [hxs] at hstream
      obtain ⟨hext, -⟩ | ⟨-, hys⟩ := K.nil hstream
      · rw [← hxs]
        exact hfresh hext hxs
      · rw [hys]
        simp [h.sound.final, h.final]

/-- A label is seen alike. -/
theorem label (h : K.Linked s t) : s.kind.isIdent = true ∧ s.nextKind = .symbol .colon ↔
    t.kind.isIdent = true ∧ t.nextKind = .symbol .colon := by
  cases hrest : s.rest with
  | nil =>
    have heof : s.kind = .eof := h.sound.kind_eq_eof.2 hrest
    have hright : t.kind.isIdent = false := by
      by_cases hend : K.Ended s
      · rw [h.kind_ended hend]
        rfl
      · rw [h.kind hend, heof]
        rfl
    rw [heof, hright]
    simp [TokenKind.isIdent]
  | cons x xs =>
    obtain ⟨y, ys, hrest', -, -⟩ := h.rest_cons hrest
    have hstream := h.stream
    rw [hrest, hrest'] at hstream
    have hkind : s.kind = x.kind := by simp [ParserState.kind, ParserState.current, hrest]
    rw [h.kind fun hend => absurd (hrest.symm.trans hend.2) (by simp)]
    refine and_congr_right fun hident => ?_
    rw [ParserState.nextKind_eq_iff hrest h.sound.final (.symbol .colon) (by simp),
      ParserState.nextKind_eq_iff hrest' h.final (.symbol .colon) (by simp)]
    exact K.label hstream (hkind ▸ hident)

/-- The operator in front of an operand is seen alike. -/
theorem prefixOp (h : K.Linked s t) (hend : ¬K.Ended s) :
    PrefixOp.ofTokens? t.kind t.nextKind = PrefixOp.ofTokens? s.kind s.nextKind := by
  rw [h.kind hend]
  refine PrefixOp.ofTokens?_congr fun hborrow => ?_
  obtain ⟨x, xs, hrest⟩ := List.exists_cons_of_ne_nil
    (h.sound.rest_ne_nil (by rw [hborrow]; simp))
  obtain ⟨y, ys, hrest', -, -⟩ := h.rest_cons hrest
  have hstream := h.stream
  rw [hrest, hrest'] at hstream
  have hkind : x.kind = .symbol .ampersand := by
    rw [← hborrow]
    simp [ParserState.kind, ParserState.current, hrest]
  rw [ParserState.nextKind_eq_iff hrest h.sound.final (.keyword .mut_) (by simp),
    ParserState.nextKind_eq_iff hrest' h.final (.keyword .mut_) (by simp)]
  exact K.borrow hstream hkind

/-- A group is forgotten on both sides. -/
theorem closeGroup (h : K.Linked s t) (hlimit : 1 < K.limit) (hgroups : s.groups ≠ []) :
    K.Linked s.closeGroup t.closeGroup := by
  obtain ⟨w, hw⟩ := K.exact hlimit
  obtain ⟨g, groups, hg⟩ := List.exists_cons_of_ne_nil hgroups
  have hg' : t.groups = g :: (groups ++ K.base) := by rw [h.groups, hg, List.cons_append]
  unfold ParserState.closeGroup
  rw [hg, hg']
  exact { h with
    sound := ⟨h.sound.final, h.sound.rest⟩
    stream := (hw ..).2 ((hw ..).1 h.stream)
    groups := rfl
    brace := rfl }

/-- The groups opened since some earlier states are forgotten on both sides. -/
theorem restore {s₀ t₀ : ParserState} (h₀ : K.Linked s₀ t₀) (h : K.Linked s t)
    (hlimit : 1 < K.limit) : K.Linked (s.restore s₀) (t.restore t₀) := by
  obtain ⟨w, hw⟩ := K.exact hlimit
  refine { h with
    sound := ⟨h.sound.final, h.sound.rest⟩
    stream := (hw ..).2 ((hw ..).1 h.stream)
    groups := ?_
    brace := h₀.brace
    half := rfl }
  unfold ParserState.restore
  dsimp only
  rw [h.groups, h₀.groups, List.length_append, List.length_append, Nat.add_sub_add_right,
    List.drop_append_of_le_length (Nat.sub_le _ _)]

/-- As many tokens are stepped over on both sides, whatever they are. -/
theorem bumpBy (h : K.Linked s t) (hlimit : 1 < K.limit) (n : Nat) :
    K.Ended (s.bumpBy n) ∨ K.Linked (s.bumpBy n) (t.bumpBy n) := by
  obtain ⟨w, hw⟩ := K.exact hlimit
  obtain ⟨ms, hms, hrest⟩ := (hw ..).1 h.stream
  have hlength : s.rest.length = ms.length := by
    simpa [Labeled.relabel] using congrArg List.length hms
  rw [ParserState.bumpBy_eq, ParserState.bumpBy_eq, hrest]
  by_cases hend : K.extended ∧ s.rest.drop n = []
  · exact Or.inl hend
  -- Tokens behind the left stream are not reached, or there are none.
  have hinside : n ≤ ms.length ∨ w = [] := by
    by_cases hext : K.extended
    · have hsome : s.rest.drop n ≠ [] := fun hnone => hend ⟨hext, hnone⟩
      rw [ne_eq, List.drop_eq_nil_iff] at hsome
      exact Or.inl (by omega)
    · obtain ⟨hext', -⟩ | ⟨-, hnil⟩ := K.nil ((hw [] [] w).2 ⟨[], rfl, rfl⟩)
      · exact absurd hext' hext
      · exact Or.inr hnil
  have hparts : (ms ++ w).drop n = ms.drop n ++ w ∧ (ms ++ w).take n = ms.take n := by
    rcases hinside with hle | rfl
    · exact ⟨List.drop_append_of_le_length hle, List.take_append_of_le_length hle⟩
    · simp
  have hdrop : K.like.Alike (s.rest.drop n) (ms.drop n) := by
    change List.map _ _ = List.map _ _
    rw [List.map_drop, List.map_drop]
    exact congrArg (List.drop n) hms
  have htake : K.like.Alike (s.rest.take n) (ms.take n) := by
    change List.map _ _ = List.map _ _
    rw [List.map_take, List.map_take]
    exact congrArg (List.take n) hms
  rw [hparts.1, hparts.2]
  exact Or.inr { h with
    sound := ⟨h.sound.final, fun u hu => h.sound.rest u (List.mem_of_mem_drop hu)⟩
    stream := (hw ..).2 ⟨_, hdrop, rfl⟩
    ends := h.ends.after htake }

/-- The next boundary is looked for on both sides. -/
theorem synchronize {s₀ t₀ : ParserState} (h₀ : K.Linked s₀ t₀) (h : K.Linked s t)
    (hlimit : 1 < K.limit) :
    K.Ended (s.synchronize s₀) ∨ K.Linked (s.synchronize s₀) (t.synchronize t₀) := by
  obtain ⟨w, hw⟩ := K.exact hlimit
  have hlength {u v : ParserState} (huv : K.Linked u v) :
      v.rest.length = u.rest.length + w.length := by
    obtain ⟨ms, hms, hrest⟩ := (hw ..).1 huv.stream
    have hlength : u.rest.length = ms.length := by
      simpa [Labeled.relabel] using congrArg List.length hms
    rw [hrest, List.length_append, hlength]
  have hsame : t.rest.length = t₀.rest.length ↔ s.rest.length = s₀.rest.length := by
    rw [hlength h, hlength h₀]
    omega
  have hbound {u v : ParserState} (huv : K.Linked u v) :
      K.Ended (u.bumpBy (ParserState.boundary 0 u.rest)) ∨
        K.Linked (u.bumpBy (ParserState.boundary 0 u.rest))
          (v.bumpBy (ParserState.boundary 0 v.rest)) := by
    by_cases hend : K.Ended (u.bumpBy (ParserState.boundary 0 u.rest))
    · exact Or.inl hend
    obtain ⟨ms, hms, hrest⟩ := (hw ..).1 huv.stream
    have hkinds : u.rest.map (·.kind) = ms.map (·.kind) := by
      have hmapped := congrArg (List.map Token.kind) hms
      simpa [Labeled.relabel, Relabeling.token, Function.comp_def] using hmapped
    have hboundary : ParserState.boundary 0 v.rest = ParserState.boundary 0 u.rest := by
      rw [ParserState.boundary_kinds hkinds, hrest]
      by_cases hext : K.extended
      · refine ParserState.boundary_append 0 ms w fun hnone => hend ⟨hext, ?_⟩
        rw [ParserState.bumpBy_eq, ParserState.boundary_kinds hkinds]
        rw [List.drop_eq_nil_iff] at hnone ⊢
        have hcount := congrArg List.length hkinds
        rw [List.length_map, List.length_map] at hcount
        omega
      · obtain ⟨hext', -⟩ | ⟨-, rfl⟩ := K.nil ((hw [] [] w).2 ⟨[], rfl, rfl⟩)
        · exact absurd hext' hext
        · rw [List.append_nil]
    rw [hboundary]
    exact huv.bumpBy hlimit _
  unfold ParserState.synchronize
  dsimp only
  by_cases hstill : s.rest.length = s₀.rest.length
  · rw [if_pos hstill, if_pos (hsame.2 hstill)]
    rcases h.bumpBy hlimit 1 with hend | hlinked
    · left
      rw [ParserState.bumpBy_eq]
      have hnil : s.bump.rest = [] := hend.2
      exact ⟨hend.1, by simp [hnil]⟩
    · exact hbound hlinked
  · rw [if_neg hstill, if_neg (mt hsame.1 hstill)]
    exact hbound h

/-- Errors are recorded on both sides. -/
theorem record (h : K.Linked s t) (e e' : SyntaxError) : K.Linked (s.record e) (t.record e') :=
  h.report (by rw [SyntaxError.isError_toDiagnostic, SyntaxError.isError_toDiagnostic])
    fun hwarning => absurd e.isError_toDiagnostic (Bool.eq_false_iff.1 hwarning)

/-- A statement is ended on both sides, unless the left run ends there or has too many errors. -/
theorem settle {s₀ t₀ : ParserState} (h₀ : K.Linked s₀ t₀) (h : K.Linked s t) :
    K.Lost (s.settle s₀) ∨ K.Ended (s.settle s₀) ∨ K.Linked (s.settle s₀) (t.settle t₀) := by
  have hcounts : t₀.errorCount < t.errorCount ↔ s₀.errorCount < s.errorCount := by
    rw [h₀.count, h.count]
    omega
  unfold ParserState.settle
  by_cases hnew : s₀.errorCount < s.errorCount
  · rw [if_pos hnew, if_pos (hcounts.2 hnew)]
    by_cases hlimit : 1 < K.limit
    · exact Or.inr (h₀.synchronize (h₀.restore h hlimit) hlimit)
    · left
      right
      have hkept := ((s.restore s₀).synchronize_kept s₀).2
      unfold ParserState.errorCount at hnew ⊢
      rw [hkept]
      change K.limit ≤ Diagnostic.errorCount s.diagnostics
      omega
  · rw [if_neg hnew, if_neg (mt hcounts.1 hnew)]
    unfold ParserState.terminate
    by_cases hend : K.Ended s
    · have heof : s.kind = .eof := by
        unfold ParserState.kind ParserState.current
        rw [hend.2]
        exact h.sound.final
      rw [heof]
      simp [hend]
    · rw [h.kind hend]
      split
      · refine Or.inr (h.skip rfl fun k hk => ?_)
        simp only [decide_eq_true_eq] at hk
        rcases hk with rfl | rfl <;> exact ⟨rfl, rfl⟩
      · split
        · exact Or.inr (Or.inr h)
        · by_cases hlimit : 1 < K.limit
          · exact Or.inr (h₀.synchronize (h.record _ _) hlimit)
          · left
            right
            have hkept := ((s.record (s.expectedError "';' or new-line")).synchronize_kept s₀).2
            have hone := s.record_count (s.expectedError "';' or new-line")
            unfold ParserState.errorCount at hone ⊢
            rw [hkept]
            omega

end Linked

/-- A run that is lost is given up where it fails. -/
theorem Lost.given {s' : ParserState} {e : SyntaxError} (h : K.Lost s) (on : s.Onward s')
    (hfatal : s'.rest = [] → e.isFatal = true) :
    e.isFatal = true ∨ K.limit ≤ s'.errorCount + 1 := by
  rcases h with ⟨hrest, -⟩ | hlimit
  · exact Or.inl (hfatal (on.rest_nil hrest))
  · have hcount := on.count
    exact Or.inr (by omega)

/-- There are as many errors on both sides as long as the left run is not lost. -/
theorem Linked.full (h : K.Linked s t) (hlost : ¬K.Lost s) :
    maxErrors ≤ t.errorCount ↔ maxErrors ≤ s.errorCount := by
  have hlimit : s.errorCount < K.limit := Nat.lt_of_not_le fun hle => hlost (Or.inr hle)
  have hcount := h.count
  have hroom := K.limit_le
  omega

variable (K) in
/-- The comparison of two runs on streams that are read alike. A left run is given up where it fails
for good or has too many errors. -/
@[reducible] def comparison : Comparison where
  like := K.like
  Linked := K.Linked
  Lost := K.Lost
  Ended := K.Ended
  Given e s := e.isFatal = true ∨ K.limit ≤ s.errorCount + 1
  Errors e e' := e.isFatal = false ∧ e'.isFatal = false
  Records _ := True
  braces := True
  Bounds n m := n ≤ m
  tail := K.tail
  eof h := h.sound.final
  lost_onward := Lost.onward
  lost_given := Lost.given
  ended_rest h := h.2
  ended_onward := Ended.onward
  ended_given _ hfatal := Or.inl hfatal
  ended_lost h hgroups := Or.inl ⟨h.2, Or.inl hgroups⟩
  current := Linked.current
  kind_ended := Linked.kind_ended
  ahead h hk := h.kindAfterNewlines hk
  label := Linked.label
  prefixOp := Linked.prefixOp
  brace := Linked.brace
  half := Linked.half
  spanFrom h hstart := h.ends hstart
  advance := Linked.advance
  enter h hrest hkind hignored := h.enter hrest hkind hignored
  braced hbraces := absurd trivial hbraces
  leave := Linked.leave
  drop {s t} h hgroups := by
    by_cases hlimit : 1 < K.limit
    · exact Or.inr (h.closeGroup hlimit hgroups)
    · refine Or.inl fun e => ⟨Or.inr ?_, Or.inr (by omega)⟩
      rw [ParserState.record_count]
      omega
  skip h := h.skip
  setBrace brace h := h.setBrace brace
  lost_setBrace _ := Iff.rfl
  ended_setBrace _ := Iff.rfl
  given_setBrace _ := Iff.rfl
  setHalf half h := h.setHalf half
  number := Linked.number
  throws {s t} problem _ _ := by
    cases hfatal : (SyntaxError.mk problem s.current.span).isFatal with
    | true => exact Or.inl (Or.inl rfl)
    | false => exact Or.inr ⟨rfl, hfatal⟩
  errors_fatal he := he.2.trans he.1.symm
  warn text h hspan := h.report rfl fun _ => congrArg (Diagnostic.message .warning text) hspan
  record _ h _ := Or.inr (h.record _ _)
  gaps _ := trivial
  recordError _ h _ := Or.inr (h.record _ _)
  given_record {s e} _ hgiven hfatal := by
    rcases hgiven with hfatal' | hlimit
    · exact absurd hfatal' (Bool.eq_false_iff.1 hfatal)
    · exact Or.inr (s.record_count e ▸ hlimit)
  settle _ h₀ h := h₀.settle h
  full _ := Linked.full
  bump {s t} e e' _ h := by
    by_cases hlimit : 1 < K.limit
    · exact Or.inr (h.bumpBy hlimit 1)
    · left
      right
      have hcount := (s.record e).bump_onward.count
      have hone := s.record_count e
      omega
  bounds_succ {n m} hnm := ⟨m - 1, by omega, by omega⟩
  bounds_zero _ := Or.inr fun _ _ hfatal => Or.inl hfatal

end Simulation

instance : Coe Simulation Comparison := ⟨Simulation.comparison⟩

end FrontEnd
