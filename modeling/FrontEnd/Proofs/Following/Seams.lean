import FrontEnd.Proofs.Following.Beginnings

/-!
# Going on behind a text

The right text goes on behind a line break where the left one ends. The last statement of the left
text then ends on the right too, and the terminators behind it are stepped over, those of the text
that follows included. After errors the next boundary is looked for; it lies right behind the left
text if no delimiter is left open there.
-/

namespace FrontEnd

/-- How many delimiters are open behind some tokens; closing ones that match nothing are passed
over. -/
def depthBehind : Nat → List Token → Nat
  | depth, [] => depth
  | depth, t :: rest =>
    if t.kind.isOpening then depthBehind (depth + 1) rest
    else if t.kind.isClosing then depthBehind (depth - 1) rest
    else depthBehind depth rest

/-- How deep some tokens lead is seen from their kinds. -/
theorem depthBehind_kinds {xs ys : List Token} (h : xs.map (·.kind) = ys.map (·.kind))
    (depth : Nat) : depthBehind depth xs = depthBehind depth ys := by
  induction xs generalizing ys depth with
  | nil =>
    obtain rfl : ys = [] := List.map_eq_nil_iff.1 h.symm
    rfl
  | cons x xs ih =>
    obtain ⟨y, ys, rfl, hkind, htail⟩ := List.map_eq_cons_iff.1 h.symm
    unfold depthBehind
    rw [hkind, ih htail.symm, ih htail.symm, ih htail.symm]

/-- Of two lists of tokens the second goes on at the depth behind the first. -/
theorem depthBehind_append (depth : Nat) (xs ys : List Token) :
    depthBehind depth (xs ++ ys) = depthBehind (depthBehind depth xs) ys := by
  induction xs generalizing depth with
  | nil => rfl
  | cons x xs ih =>
    simp only [List.cons_append, depthBehind]
    split
    · exact ih _
    · split <;> exact ih _

/-- The search for a boundary that reaches the end of a text ends there, or with the line break
behind it. -/
theorem ParserState.boundary_seam {y : Token} (newline : y.kind = .newline) (v : List Token)
    {xs : List Token} {depth : Nat} (hdepth : depthBehind depth xs = 0)
    (hend : xs.drop (boundary depth xs) = []) :
    boundary depth (xs ++ y :: v) = xs.length ∨ boundary depth (xs ++ y :: v) = xs.length + 1 := by
  induction xs generalizing depth with
  | nil =>
    obtain rfl : depth = 0 := hdepth
    right
    unfold boundary
    rw [List.nil_append]
    simp [newline, TokenKind.isOpening]
  | cons x xs ih =>
    rw [List.cons_append, List.length_cons]
    unfold boundary at hend ⊢
    unfold depthBehind at hdepth
    split
    · rename_i hopening
      rw [if_pos hopening] at hdepth hend
      rw [List.drop_succ_cons] at hend
      exact (ih hdepth hend).imp (congrArg (· + 1)) (congrArg (· + 1))
    · rename_i hopening
      rw [if_neg hopening] at hdepth hend
      split
      · rename_i hterminator
        rw [if_pos hterminator, List.drop_succ_cons, List.drop_zero] at hend
        rw [hend]
        exact Or.inl rfl
      · rename_i hterminator
        rw [if_neg hterminator] at hend
        split
        · rename_i hbegins
          rw [if_pos hbegins] at hend
          cases hend
        · rename_i hbegins
          rw [if_neg hbegins] at hend
          split
          · rename_i hclosing
            rw [if_pos hclosing] at hdepth hend
            rw [List.drop_succ_cons] at hend
            exact (ih hdepth hend).imp (congrArg (· + 1)) (congrArg (· + 1))
          · rename_i hclosing
            rw [if_neg hclosing] at hdepth hend
            rw [List.drop_succ_cons] at hend
            exact (ih hdepth hend).imp (congrArg (· + 1)) (congrArg (· + 1))

/-- The state at the next statement. -/
theorem ParserState.atStatement_eq (s : ParserState) : s.atStatement = { s with
    rest := s.rest.dropWhile (·.kind.terminates)
    lastSpan := lastSpanAfter s.lastSpan (s.rest.takeWhile (·.kind.terminates)) } := rfl

/-- In front of a statement there is nothing to step over. -/
theorem ParserState.atStatement_stays {s : ParserState} {t : Token} {ts : List Token}
    (hrest : s.rest = t :: ts) (ht : t.kind.terminates = false) : s.atStatement = s := by
  have hstays : ¬t.kind.terminates = true := by simp [ht]
  have hdrop : s.rest.dropWhile (·.kind.terminates) = s.rest := by
    rw [hrest]
    exact List.dropWhile_cons_of_neg hstays
  have htake : s.rest.takeWhile (·.kind.terminates) = [] := by
    rw [hrest]
    exact List.takeWhile_cons_of_neg hstays
  rw [ParserState.atStatement_eq, hdrop, htake]
  rfl

/-- Nothing is left to skip at a statement. -/
theorem ParserState.atStatement_atStatement (s : ParserState) :
    s.atStatement.atStatement = s.atStatement := by
  obtain ⟨hdrop, htake⟩ := skipped_twice (·.kind.terminates) s.rest
  rw [atStatement_eq, atStatement_eq]
  dsimp only
  rw [hdrop, htake]
  rfl

/-- Tokens in front of the last ones do not matter for the last place. -/
theorem lastSpanAfter_append_cons (last : Span) (xs ys : List Token) (y : Token) :
    lastSpanAfter last (xs ++ y :: ys) = lastSpanAfter y.span ys := by
  induction xs generalizing last with
  | nil => exact lastSpanAfter_cons last y ys
  | cons x xs ih =>
    rw [List.cons_append, lastSpanAfter_cons]
    exact ih x.span

/-- Where only terminators and a line break are left of a text, they are all stepped over. -/
theorem ParserState.atStatement_behind {s : ParserState} {y : Token} (newline : y.kind = .newline)
    {xs v : List Token} (hrest : s.rest = xs ++ y :: v)
    (hall : ∀ t ∈ xs, t.kind.terminates = true) :
    s.atStatement = { s with rest := v, lastSpan := y.span : ParserState }.atStatement := by
  have hy : y.kind.terminates = true := by
    rw [newline]
    rfl
  have htake : (xs ++ y :: v).takeWhile (·.kind.terminates) =
      xs ++ y :: v.takeWhile (·.kind.terminates) := by
    rw [List.takeWhile_append_of_pos hall, List.takeWhile_cons, if_pos hy]
  have hdrop : (xs ++ y :: v).dropWhile (·.kind.terminates) =
      v.dropWhile (·.kind.terminates) := by
    rw [List.dropWhile_append_of_pos hall, List.dropWhile_cons, if_pos hy]
  rw [atStatement_eq, atStatement_eq, hrest, htake, hdrop, lastSpanAfter_append_cons]

namespace Simulation

variable {K : Simulation} {y : Token} {v : List Token} {s t : ParserState}

/-- On the right a line break `y` and the tokens `v` come behind the left text. -/
structure Continues (K : Simulation) (y : Token) (v : List Token) : Prop where
  newline : y.kind = .newline
  whole : ¬K.cut
  firm : K.tail = .firm
  stream : ∀ {groups : List Group} {xs ys : List Token}, K.stream groups xs ys →
    Joined K.like (y :: v) xs ys

/-- A right state right behind the left text, which ends in the state `s`. -/
structure Crossed (K : Simulation) (y : Token) (v : List Token) (s t : ParserState) : Prop where
  rest : t.rest = v
  last : t.lastSpan = y.span
  groups : t.groups = s.groups ++ K.base
  brace : t.allowsBrace = s.allowsBrace
  half : t.halfShift = s.halfShift
  ids : ∀ i, K.like.Alike (⟨s.nextId + i⟩ : NodeId) ⟨t.nextId + i⟩
  count : t.errorCount = s.errorCount + K.extra
  warned : ∃ ws, t.warnings = K.earlier ++ ws ∧ K.like.Alike s.warnings ws

/-- Another text is read from there on. -/
theorem Crossed.linked {K' : Simulation} {file : FileId} {tokens : List Token}
    (h : K.Crossed y v s t) (hgroups : s.groups = []) (hbrace : s.allowsBrace = true)
    (hhalf : s.halfShift = false) (hfinal : t.final.kind = .eof) (hbase : K'.base = K.base)
    (hextra : K'.extra = s.errorCount + K.extra) (hearlier : K'.earlier = t.warnings)
    (hstream : K'.stream [] (ParserState.start file tokens).rest v)
    (hids : ∀ i, K'.like.Alike (⟨0 + i⟩ : NodeId) ⟨t.nextId + i⟩)
    (hends : K'.like.Ends ⟨0, 0, file⟩ y.span)
    (hfinals : ¬K'.extended →
      K'.like.Alike (ParserState.start file tokens).final.span t.final.span) :
    K'.Linked (.start file tokens) t where
  sound := ParserState.start_sound file tokens
  final := hfinal
  stream := h.rest ▸ hstream
  groups := by
    rw [h.groups, hgroups, hbase]
    rfl
  brace := h.brace.trans hbrace
  half := h.half.trans hhalf
  ids := hids
  count := by
    rw [h.count, hextra, Nat.add_comm]
    exact (Nat.zero_add _).symm
  warned := ⟨[], by rw [hearlier, List.append_nil], rfl⟩
  ends := h.last ▸ hends
  finals := hfinals

/-- Two states at the beginning of a statement: either in the left text, or behind it. -/
inductive Arrived (K : Simulation) (y : Token) (v : List Token) (s t : ParserState) : Prop
  | inside (linked : K.Linked s t) (more : s.rest ≠ [])
  | behind (ended : s.rest = []) {u : ParserState} (crossed : K.Crossed y v s u)
    (same : t = u.atStatement)

/-- Numbers are given out alike from there. -/
theorem Arrived.ids (h : K.Arrived y v s t) (i : Nat) :
    K.like.Alike (⟨s.nextId + i⟩ : NodeId) ⟨t.nextId + i⟩ := by
  cases h with
  | inside linked _ => exact linked.ids i
  | behind _ crossed same =>
    rw [same]
    exact crossed.ids i

/-- On the right there are as many errors more as before. -/
theorem Arrived.count (h : K.Arrived y v s t) : t.errorCount = s.errorCount + K.extra := by
  cases h with
  | inside linked _ => exact linked.count
  | behind _ crossed same =>
    rw [same]
    exact crossed.count

/-- Numbers are given out on both sides. -/
theorem Arrived.number (h : K.Arrived y v s t) :
    K.Arrived y v { s with nextId := s.nextId + 1 } { t with nextId := t.nextId + 1 } := by
  cases h with
  | inside linked more => exact .inside linked.number.2 more
  | @behind ended u crossed same =>
    refine .behind (u := { u with nextId := u.nextId + 1 }) ended
      { crossed with ids := fun i => ?_ } (by rw [same]; rfl)
    have hids := crossed.ids (1 + i)
    rwa [← Nat.add_assoc, ← Nat.add_assoc] at hids

namespace Linked

/-- Terminators are stepped over on both sides. -/
theorem arrived (h : K.Linked s t) (hK : K.Continues y v) :
    K.Arrived y v s.atStatement t.atStatement := by
  by_cases hnone : s.atStatement.rest = []
  · obtain ⟨ms, hms, hrest⟩ := hK.stream h.stream
    have hall : ∀ t ∈ ms, t.kind.terminates = true :=
      List.dropWhile_eq_nil_iff.1 ((hms.skip TokenKind.terminates).1.nil_iff.1 hnone)
    refine .behind (u := { t with rest := v, lastSpan := y.span }) hnone
      ⟨rfl, rfl, h.groups, h.brace, h.half, h.ids, h.count, h.warned⟩ ?_
    exact ParserState.atStatement_behind hK.newline hrest hall
  · have hskip : ∀ k, TokenKind.terminates k = true →
        k.isOpening = false ∧ k.isClosing = false := by
      intro k hk
      rcases of_decide_eq_true hk with rfl | rfl <;> exact ⟨rfl, rfl⟩
    rcases h.skip rfl hskip with hended | hlinked
    · exact absurd hended.2 hnone
    · exact .inside hlinked hnone

/-- A search for a boundary that ends with the left text, or with the line break behind it. -/
theorem synchronize_arrived {s₀ t₀ : ParserState} (h₀ : K.Linked s₀ t₀) (h : K.Linked s t)
    (hK : K.Continues y v) (hsome : s₀.rest ≠ []) (hend : (s.synchronize s₀).rest = [])
    (hclosed : ∀ u, u <:+ s.rest → depthBehind 0 u = 0) :
    K.Arrived y v (s.synchronize s₀).atStatement (t.synchronize t₀).atStatement := by
  obtain ⟨ms, hms, hrest⟩ := hK.stream h.stream
  obtain ⟨ms₀, hms₀, hrest₀⟩ := hK.stream h₀.stream
  have hkinds : s.rest.map (·.kind) = ms.map (·.kind) := by
    have hmapped := congrArg (List.map Token.kind) hms
    simpa [Labeled.relabel, Relabeling.token, Function.comp_def] using hmapped
  have hlength : s.rest.length = ms.length := by
    simpa [Labeled.relabel] using congrArg List.length hms
  have hlength₀ : s₀.rest.length = ms₀.length := by
    simpa [Labeled.relabel] using congrArg List.length hms₀
  -- At least one token is stepped over on both sides.
  obtain ⟨k, hk, hleft, hright⟩ : ∃ k, k ≤ ms.length ∧
      s.synchronize s₀ = (s.bumpBy k).bumpBy (ParserState.boundary 0 (s.bumpBy k).rest) ∧
      t.synchronize t₀ = (t.bumpBy k).bumpBy (ParserState.boundary 0 (t.bumpBy k).rest) := by
    unfold ParserState.synchronize
    by_cases hstill : s.rest.length = s₀.rest.length
    · have hpos := List.length_pos_iff.2 hsome
      refine ⟨1, by omega, ?_, ?_⟩
      · rw [if_pos hstill]
        rfl
      · rw [if_pos (by simp [hrest, hrest₀]; omega)]
        rfl
    · refine ⟨0, Nat.zero_le _, ?_, ?_⟩
      · rw [if_neg hstill]
        rfl
      · rw [if_neg (by simp [hrest, hrest₀]; omega)]
        rfl
  have hdropped : (ms ++ y :: v).drop k = ms.drop k ++ y :: v := List.drop_append_of_le_length hk
  have hsame : (s.rest.drop k).map (·.kind) = (ms.drop k).map (·.kind) := by
    rw [List.map_drop, List.map_drop, hkinds]
  have hdepth : depthBehind 0 (ms.drop k) = 0 := by
    rw [← depthBehind_kinds hsame]
    exact hclosed _ (List.drop_suffix k s.rest)
  have hleftEnd : (ms.drop k).drop (ParserState.boundary 0 (ms.drop k)) = [] := by
    rw [hleft, ParserState.bumpBy_eq, ParserState.bumpBy_eq] at hend
    dsimp only at hend
    rw [ParserState.boundary_kinds hsame, List.drop_eq_nil_iff, List.length_drop] at hend
    rw [List.drop_eq_nil_iff, List.length_drop]
    omega
  refine .behind (u := { t with rest := v, lastSpan := y.span }) ?_ ?_ ?_
  · rw [ParserState.atStatement_eq, hend]
    rfl
  · rw [hleft, ParserState.bumpBy_eq, ParserState.bumpBy_eq]
    exact ⟨rfl, rfl, h.groups, h.brace, h.half, h.ids, h.count, h.warned⟩
  · rw [hright, t.bumpBy_eq k, hrest, hdropped, ParserState.bumpBy_eq]
    dsimp only
    rcases ParserState.boundary_seam hK.newline v hdepth hleftEnd with hstop | hstop
    · rw [hstop, List.drop_left, List.take_left]
      have hseam : y :: v = [] ++ y :: v := rfl
      exact ParserState.atStatement_behind hK.newline hseam (by simp)
    · rw [hstop, List.drop_length_add_append, List.take_length_add_append, List.drop_succ_cons,
        List.drop_zero, List.take_succ_cons, List.take_zero, lastSpanAfter_append_cons]
      rfl

/-- The terminator of a statement is read on both sides, in the left text or behind it. -/
theorem terminate_arrived {s₀ t₀ : ParserState} (h₀ : K.Linked s₀ t₀) (h : K.Linked s t)
    (hK : K.Continues y v) (hsome : s₀.rest ≠ []) (hended : K.Ended (s.terminate s₀))
    (hquiet : (s.terminate s₀).errorCount = s.errorCount ∨
      ∀ u, u <:+ s.rest → depthBehind 0 u = 0) :
    K.Arrived y v (s.terminate s₀).atStatement (t.terminate t₀).atStatement := by
  by_cases hstop : K.Ended s
  · have hsame : s.terminate s₀ = s := by
      unfold ParserState.terminate
      rw [h.sound.kind_eq_eof.2 hstop.2]
      rfl
    have hskips : t.terminate t₀ = t.atStatement := by
      unfold ParserState.terminate
      rw [if_pos (Or.inl (h.kind_ended hstop))]
      rfl
    rw [hsame, hskips, ParserState.atStatement_atStatement]
    exact h.arrived hK
  · have hkind := h.kind hstop
    by_cases hterminator : s.kind = .newline ∨ s.kind = .symbol .semi
    · have hsame : s.terminate s₀ = s.atStatement := if_pos hterminator
      have hskips : t.terminate t₀ = t.atStatement := if_pos (hkind.symm ▸ hterminator)
      rw [hsame, hskips, ParserState.atStatement_atStatement, ParserState.atStatement_atStatement]
      exact h.arrived hK
    · by_cases hstands : s.kind = .eof ∨ s.kind = .symbol .rBrace
      · have hsame : s.terminate s₀ = s := by
          unfold ParserState.terminate
          rw [if_neg hterminator, if_pos hstands]
        rw [hsame] at hended
        exact absurd hended hstop
      · -- A missing terminator is reported, and a boundary is searched for.
        let e := s.expectedError "';' or new-line"
        let e' := t.expectedError "';' or new-line"
        have hsame : s.terminate s₀ = (s.record e).synchronize s₀ := by
          unfold ParserState.terminate
          rw [if_neg hterminator, if_neg hstands]
        have hsync : t.terminate t₀ = (t.record e').synchronize t₀ := by
          unfold ParserState.terminate
          rw [hkind, if_neg hterminator, if_neg hstands]
        have hcount : (s.terminate s₀).errorCount = s.errorCount + 1 := by
          rw [← s.record_count e, hsame]
          unfold ParserState.errorCount
          rw [((s.record e).synchronize_kept s₀).2]
        have hclosed := hquiet.resolve_left (by omega)
        rw [hsame] at hended ⊢
        rw [hsync]
        exact h₀.synchronize_arrived (h.record e e') hK hsome hended.2 hclosed

/-- A statement ends on both sides, in the left text or behind it. -/
theorem settle_arrived {s₀ t₀ : ParserState} (h₀ : K.Linked s₀ t₀) (h : K.Linked s t)
    (hK : K.Continues y v) (hsome : s₀.rest ≠ []) (hlost : ¬K.Lost (s.settle s₀))
    (hquiet : (s.settle s₀).errorCount = s₀.errorCount ∨ ∀ u, u <:+ s.rest → depthBehind 0 u = 0)
    (hmore : s₀.errorCount ≤ s.errorCount) :
    K.Arrived y v (s.settle s₀).atStatement (t.settle t₀).atStatement := by
  by_cases hended : K.Ended (s.settle s₀)
  · have hcounts : t₀.errorCount < t.errorCount ↔ s₀.errorCount < s.errorCount := by
      rw [h₀.count, h.count]
      omega
    have hlimit : (s.settle s₀).errorCount < K.limit :=
      Nat.lt_of_not_le fun hle => hlost (Or.inr hle)
    by_cases hnew : s₀.errorCount < s.errorCount
    · have hleft : s.settle s₀ = (s.restore s₀).synchronize s₀ := if_pos hnew
      have hright : t.settle t₀ = (t.restore t₀).synchronize t₀ := if_pos (hcounts.2 hnew)
      have hcount : (s.settle s₀).errorCount = s.errorCount := by
        unfold ParserState.errorCount
        rw [hleft, ((s.restore s₀).synchronize_kept s₀).2]
        rfl
      have hclosed := hquiet.resolve_left (by omega)
      rw [hleft] at hended ⊢
      rw [hright]
      exact h₀.synchronize_arrived (h₀.restore h (by omega)) hK hsome hended.2 hclosed
    · have hleft : s.settle s₀ = s.terminate s₀ := if_neg hnew
      have hright : t.settle t₀ = t.terminate t₀ := if_neg (mt hcounts.1 hnew)
      have hsame : s₀.errorCount = s.errorCount := Nat.le_antisymm hmore (Nat.le_of_not_lt hnew)
      rw [hleft, hsame] at hquiet
      rw [hleft] at hended ⊢
      rw [hright]
      exact h₀.terminate_arrived h hK hsome hended hquiet
  · rcases h₀.settle h with hlost' | hended' | hlinked
    · exact absurd hlost' hlost
    · exact absurd hended' hended
    · exact hlinked.arrived hK

end Linked

/-- What is needed to go on behind a text with errors: places are not compared, and no delimiter is
left open in any end part of the text. -/
structure Forgives (K : Simulation) (tokens : List Token) : Prop where
  places : ∀ a b : Span, K.like.Alike a b
  closed : ∀ u, u <:+ tokens → depthBehind 0 u = 0

/-- What is forgiven of some tokens is forgiven of those at their end. -/
theorem Forgives.suffix {xs ys : List Token} (h : K.Forgives ys) (hsuffix : xs <:+ ys) :
    K.Forgives xs :=
  ⟨h.places, fun u hu => h.closed u (hu.trans hsuffix)⟩

end Simulation

namespace Parse

variable {K : Simulation} {y : Token} {v : List Token} {s s' t : ParserState} {n m : Nat}
  {g g' : Grammar}

/-- The end of a statement on both sides, in the left text or behind it. -/
theorem finished_arrived {β : Type} {s₀ t₀ : ParserState} (hK : K.Continues y v)
    (h₀ : K.Linked s₀ t₀) (h : K.Linked s t) (onward : s₀.Onward s) (hsome : s₀.rest ≠ [])
    (hlost : ¬K.Lost (s.settle s₀))
    (hquiet : (s.settle s₀).errorCount = s₀.errorCount ∨ K.Forgives s₀.rest) (r : β) :
    finished t₀ r t = .ok r (t.settle t₀) ∧
      K.Arrived y v (s.settle s₀).atStatement (t.settle t₀).atStatement := by
  have harrived := h₀.settle_arrived h hK hsome hlost
    (hquiet.imp_right fun hforgives => (hforgives.suffix onward.rest).closed) onward.count
  have hcount : (t.settle t₀).errorCount = (s.settle s₀).errorCount + K.extra := harrived.count
  have hlimit : (s.settle s₀).errorCount < K.limit :=
    Nat.lt_of_not_le fun hle => hlost (Or.inr hle)
  have hroom := K.limit_le
  exact ⟨if_neg (by omega), harrived⟩

/-- A statement outside of all groups is not lost before there are too many errors. -/
theorem settle_not_lost {s₀ : ParserState} (hK : K.Continues y v) (hgroups : s₀.groups = [])
    (hframe : s.errorCount ≤ s₀.errorCount → s₀.SameFrame s)
    (hlimit : (s.settle s₀).errorCount < K.limit) : ¬K.Lost (s.settle s₀) := by
  rintro (⟨-, hopen | hcut⟩ | hle)
  · have hsuffix : s₀.groups <:+ s.groups := hgroups ▸ List.nil_suffix
    exact hopen ((ParserState.settle_frame hsuffix hframe).1.trans hgroups)
  · exact hK.whole hcut
  · omega

/-- One statement is read on both sides, in the left text or over its end. -/
theorem stmtOrStub_arrived (hK : K.Continues y v) (hg : GrammarFollows K g g') (hnm : n ≤ m)
    (hlinked : K.Linked s t) (hsome : s.rest ≠ []) (hgroups : s.groups = []) {x : Stmt}
    (h : stmtOrStub n g s = .ok x s') (hlimit : s'.errorCount < K.limit)
    (hquiet : s'.errorCount = s.errorCount ∨ K.Forgives s.rest) :
    ∃ z t', stmtOrStub m g' t = .ok z t' ∧ K.like.Alike x z ∧
      K.Arrived y v s'.atStatement t'.atStatement := by
  have hwhole : Follows K 0 .firm .slack (fun _ => True) (stmtOrStub n g) (stmtOrStub m g') :=
    stmtOrStub_follows trivial hg hnm
  have hfollows : Follows K 0 .firm K.tail (fun _ => True) (stmt n g) (stmt m g') :=
    stmt_follows hg hnm
  have hcount : s.errorCount ≤ s'.errorCount := by
    have run := hwhole.runs hlinked.sound.final trivial
    rw [h] at run
    exact run.onward.count
  have hfree : ¬K.Lost s := by
    rintro (⟨hnil, -⟩ | hle)
    · exact hsome hnil
    · omega
  have run := hfollows.runs hlinked.sound.final trivial
  have pair := hfollows.pairs hlinked trivial hfree (by simp) (Nat.zero_le _)
  rw [stmtOrStub_run, recovering_run]
  rcases (stmtOrStub_ok h).2 with ⟨s₁, hrun, rfl⟩ | ⟨e, s₁, s₂, hrun, hfatal, rfl, rfl, rfl⟩
  · rw [hrun] at run pair
    have hframe : s.SameFrame s₁ := ⟨run.groups, run.brace⟩
    have hlost := settle_not_lost hK hgroups (fun _ => hframe) hlimit
    rcases pair with hlost₁ | ⟨hslack, -⟩ | ⟨z, t₁, hrun', halike, hlinked₁⟩
    · have hsettled := ParserState.settle_frame (hframe.1 ▸ List.suffix_refl _) fun _ => hframe
      have hgroups₁ := hsettled.1.trans hframe.1.symm
      exact absurd (hlost₁.onward (s₁.settle_onward s) fun _ => hgroups₁) hlost
    · cases hslack.symm.trans hK.firm
    · obtain ⟨hfinished, harrived⟩ :=
        finished_arrived hK hlinked hlinked₁ run.onward hsome hlost hquiet (some z)
      rw [hrun']
      dsimp only
      rw [hfinished]
      exact ⟨z, _, rfl, halike, harrived⟩
  · rw [hrun] at run pair
    have hsuffix : s.groups <:+ (s₁.record e).groups := hgroups ▸ List.nil_suffix
    have hrecorded := s₁.record_count e
    have hmore := run.onward.count
    have hsettled := ((s₁.record e).settle_onward s).count
    have hlost : ¬K.Lost ((s₁.record e).settle s) :=
      settle_not_lost hK hgroups (fun hle => by omega) hlimit
    rcases pair with (hfatal' | hlimit') | ⟨e', t₁, hrun', ⟨-, hfatal'⟩, hlinked₁⟩
    · rw [hfatal] at hfatal'
      cases hfatal'
    · have hbelow : ((s₁.record e).settle s).errorCount < K.limit := hlimit
      omega
    · have onward : s.Onward (s₁.record e) := run.onward.trans (s₁.report_onward _)
      obtain ⟨hfinished, harrived⟩ := finished_arrived (β := Option Stmt) hK hlinked
        (hlinked₁.record e e') onward hsome hlost hquiet none
      have hplaces := hquiet.resolve_left (by
        have hsame : ((s₁.record e).settle s).errorCount ≠ s.errorCount := by omega
        exact hsame)
      rw [hrun']
      dsimp only
      rw [if_neg (by rw [hfatal']; exact Bool.false_ne_true), hfinished]
      refine ⟨_, _, rfl, ?_, harrived.number⟩
      have horigin := congr (congrArg Origin.mk (harrived.ids 0)) (hplaces.places
        (((s₁.record e).settle s).spanFrom s.current.span)
        (((t₁.record e').settle t).spanFrom t.current.span))
      exact (congrFun (congrArg Node.stmt horigin) .errorStmt :)

/-- A run of statements up to the end of the left text is followed on the right, up to the next
statement behind it. -/
theorem Statements.follow (hK : K.Continues y v) (hg : GrammarFollows K (grammar n) g')
    (hnm : n ≤ m) {xs : List Stmt} (h : Statements (stmtOrStub n (grammar n)) s xs s')
    (harrived : K.Arrived y v s t) (sound : s.Sound) (hend : s'.rest = []) (hgroups : s.groups = [])
    (hlimit : s'.errorCount < K.limit)
    (hquiet : s'.errorCount = s.errorCount ∨ K.Forgives s.rest) :
    ∃ zs u, Statements (stmtOrStub m g') t zs u.atStatement ∧ K.like.Alike xs zs ∧
      K.Crossed y v s' u := by
  induction h generalizing t with
  | nil s =>
    cases harrived with
    | inside _ more => exact absurd hend more
    | behind _ crossed same =>
      rw [same]
      exact ⟨[], _, .nil _, rfl, crossed⟩
  | @cons s s₁ s' x xs more inside first others ih =>
    cases harrived with
    | behind ended _ _ => exact absurd (sound.kind_eq_eof.2 ended) more
    | inside hlinked hsome =>
      have hended : ¬K.Ended s := fun hended => hsome hended.2
      obtain ⟨onward, hframe⟩ := stmtOrStub_onward sound first
      have hskip : s.Onward s₁.atStatement :=
        onward.trans (s₁.skipWhile_onward TokenKind.terminates)
      have hfirst : s.errorCount ≤ s₁.errorCount := onward.count
      have hothers : s₁.errorCount ≤ s'.errorCount :=
        (others.onward (hskip.sound sound)).1.count
      have hquiet₁ : s₁.errorCount = s.errorCount ∨ K.Forgives s.rest :=
        hquiet.imp_left fun hsame => by omega
      obtain ⟨z, t₁, hrun, hx, harrived₁⟩ := stmtOrStub_arrived hK hg hnm hlinked hsome hgroups
        first (by omega) hquiet₁
      obtain ⟨zs, u, hzs, hxs, hcrossed⟩ := ih harrived₁ (hskip.sound sound) hend
        (hframe.1.trans hgroups) hlimit (hquiet.imp (fun hsame => by
          change s'.errorCount = s₁.errorCount
          omega) fun hforgives => hforgives.suffix hskip.rest)
      refine ⟨z :: zs, u, .cons ?_ ?_ hrun hzs, hx.cons hxs, hcrossed⟩
      · rwa [hlinked.kind hended]
      · rwa [hlinked.kind hended]

/-- A whole text is followed on the right, up to the next statement behind it. -/
theorem file_follow (hK : K.Continues y v) (hg : GrammarFollows K (grammar n) g') (hnm : n ≤ m)
    {file : FileId} {tokens : List Token} (hlinked : K.Linked (.start file tokens) t)
    {xs : List Stmt} (h : Parse.file n (.start file tokens) = .ok xs s')
    (hstray : ∀ span, strayBraceAt span ∉ s'.diagnostics) (hlimit : s'.errorCount < K.limit)
    (hquiet : s'.errorCount = 0 ∨ K.Forgives (ParserState.start file tokens).rest) :
    ∃ zs u, Statements (stmtOrStub m g') t.atStatement zs u.atStatement ∧ K.like.Alike xs zs ∧
      K.Crossed y v s' u ∧ zs.length < n := by
  have onward := (ParserState.start file tokens).skipWhile_onward TokenKind.terminates
  obtain ⟨hstatements, sound, hlength, hend⟩ := file_statements h hstray
  obtain ⟨zs, u, hzs, hxs, hcrossed⟩ := hstatements.follow hK hg hnm (hlinked.arrived hK) sound hend
    rfl hlimit (hquiet.imp_right fun hforgives => hforgives.suffix onward.rest)
  have hcount : zs.length = xs.length := by
    simpa [Labeled.relabel] using (congrArg List.length hxs).symm
  exact ⟨zs, u, hzs, hxs, hcrossed, by omega⟩

end Parse

end FrontEnd
