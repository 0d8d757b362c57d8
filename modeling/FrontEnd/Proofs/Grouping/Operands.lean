import FrontEnd.Proofs.Grouping.Names

/-!
# Expressions that are one operand

Where no operator stands behind an operand, the operand is the whole expression. Names and literals
are operands.
-/

namespace FrontEnd

/-- Whether an expression ends in front of a token, whatever the expression is. -/
structure Closes (t : Token) : Prop where
  detached : t.kind.attaches = false
  levels : ∀ level ∈ Level.all, level.op? t = none
  power : t.kind ≠ .symbol .power
  assign : AssignOp.ofToken? t.kind = none

/-- Separators, closing delimiters and the end are such tokens. -/
theorem Closes.of_canStartValue {t : Token} (h : t.kind.canStartValue = false) : Closes t := by
  have hstands : Stands none t.kind := h
  have seen := hstands.seen
  refine ⟨seen.detached, fun level hlevel => ?_, fun hpower => ?_, seen.assign⟩
  · have hmem : level.op? t ∈ Level.all.map (·.op? t) := List.mem_map_of_mem hlevel
    rw [seen.levels] at hmem
    obtain ⟨k, -, hk⟩ := List.mem_map.1 hmem
    exact hk.symm
  · exact absurd (seen.power.1 hpower) nofun

/-- So is the arrow of an entry. -/
theorem Closes.doubleArrow {t : Token} (h : t.kind = .symbol .doubleArrow) : Closes t := by
  obtain ⟨kind, span⟩ := t
  obtain rfl : kind = .symbol .doubleArrow := h
  have hnone : Level.all.map (·.op? ⟨.symbol .doubleArrow, span⟩) = List.replicate 16 none := rfl
  refine ⟨rfl, fun level hlevel => ?_, nofun, rfl⟩
  have hmem : level.op? _ ∈ Level.all.map (·.op? ⟨.symbol .doubleArrow, span⟩) :=
    List.mem_map_of_mem hlevel
  rw [hnone] at hmem
  exact List.eq_of_mem_replicate hmem

namespace ParserState

variable {s : ParserState}

/-- Without line breaks only the token at hand matters. -/
theorem idle_unbroken (h : ∀ t ∈ s.rest, t.kind ≠ .newline) (hdetached : s.kind.attaches = false) :
    s.Idle := by
  have hafter : s.kindAfterNewlines = s.kind := by
    unfold kindAfterNewlines kind current
    cases hrest : s.rest with
    | nil => rfl
    | cons t ts =>
      have ht : t.kind ≠ .newline := h t (by rw [hrest]; exact List.mem_cons_self)
      rw [List.dropWhile_cons_of_neg (by simp [ht])]
  refine ⟨hdetached, ?_, fun t ht => ?_⟩
  · rw [hafter]
    constructor
    all_goals
      intro hkind
      rw [hkind] at hdetached
      cases hdetached
  · have ht' : t.kind ≠ .newline := h t (List.mem_of_mem_head? ht)
    simp [breaks, ht']

end ParserState

namespace Parse

variable {s s₁ s₂ : ParserState} {n : Nat} {g : Grammar} {e inner right : Expr}

/-- The loop of a level ends where none of its operators stands. -/
theorem chain_stop {level : Level} {tighter : Parser Expr} (hop : level.op? s.current = none) :
    chain level tighter (n + 1) e s = .ok e s := by
  have hcurrent : current s = .ok s.current s := rfl
  rw [chain]
  refine (bind_run hcurrent).trans ?_
  rw [hop]
  rfl

/-- An operand with its casts is a chain of its own where no power follows. -/
theorem power_stop (h : operand n g s = .ok inner s₁) (hcasts : casts g n inner s₁ = .ok e s₂)
    (hpower : s₂.kind ≠ .symbol .power) : power n g s = .ok e s₂ := by
  have haccept : acceptSymbol .power s₂ = .ok false s₂ :=
    (accept_run (.symbol .power) s₂).trans (if_neg hpower)
  unfold power
  exact (bind_run h).trans ((bind_run hcasts).trans (bind_run haccept))

/-- Otherwise it is the base of the power. -/
theorem power_step {s₃ : ParserState} (h : operand n g s = .ok inner s₁)
    (hcasts : casts g n inner s₁ = .ok e s₂) (hpower : s₂.kind = .symbol .power)
    (hright : g .power s₂.advance.skipNewlines = .ok right s₃) :
    power n g s = .ok
      (.expr ⟨⟨s₃.nextId⟩, e.span.cover right.span⟩ (.binary e .power right))
      { s₃ with nextId := s₃.nextId + 1 } := by
  have haccept : acceptSymbol .power s₂ = .ok true s₂.advance :=
    (accept_run (.symbol .power) s₂).trans (if_pos hpower)
  unfold power
  refine (bind_run h).trans ((bind_run hcasts).trans ((bind_run haccept).trans ?_))
  change (g .power >>= _) s₂.advance.skipNewlines = _
  exact bind_run hright

/-- An operand in front of a token that ends the expression is the whole expression. -/
theorem expr_operand (h : operand (n + 1) g s = .ok e s₁) (hidle : s₁.Idle)
    (hcloses : Closes s₁.current) : expr (n + 1) g s = .ok e s₁ := by
  have hpower : power (n + 1) g s = .ok e s₁ := power_stop h (casts_idle hidle e) hcloses.power
  have hbinary (levels : List Level) (hlevels : ∀ level ∈ levels, level.op? s₁.current = none) :
      binary (n + 1) g levels s = .ok e s₁ := by
    induction levels with
    | nil => exact hpower
    | cons level levels ih =>
      refine (bind_run (ih fun l hl => hlevels l (List.mem_cons_of_mem level hl))).trans ?_
      exact chain_stop (hlevels level List.mem_cons_self)
  unfold expr
  refine (bind_run (hbinary Level.all hcloses.levels)).trans ((bind_run (kind_run s₁)).trans ?_)
  rw [show AssignOp.ofToken? s₁.kind = none from hcloses.assign]
  rfl

/-- So is a name. -/
theorem expr_name {name : Ident} (hcurrent : s.current = name.token) (hidle : s.advance.Idle)
    (hcloses : Closes s.advance.current) : ∃ o, expr (n + 1) g s =
      .ok (.expr o (.name name .empty)) { s.advance with nextId := s.advance.nextId + 1 } := by
  obtain ⟨o, hoperand⟩ := operand_name (n := n) (g := g) hcurrent rfl hidle.whole
  have hidle' : ({ s.advance with nextId := s.advance.nextId + 1 } : ParserState).Idle :=
    hidle.moved rfl ⟨_, _, _, rfl⟩
  exact ⟨o, expr_operand hoperand hidle' hcloses⟩

/-- The tokens of literals. -/
theorem literal_token {k : TokenKind} {l : Literal} (h : Literal.ofToken? k = some l) :
    (∃ form lexeme, k = .literal form lexeme) ∨ k = .keyword .true_ ∨ k = .keyword .false_ := by
  unfold Literal.ofToken? at h
  split at h
  · exact Or.inl ⟨_, _, rfl⟩
  · exact Or.inr (Or.inl rfl)
  · exact Or.inr (Or.inr rfl)
  · cases h

/-- A literal is an operand. -/
theorem operand_literal {t : Token} {ts : List Token} {l : Literal} (hrest : s.rest = t :: ts)
    (hl : Literal.ofToken? t.kind = some l)
    (hs₁ : s₁ = { s with rest := ts, lastSpan := t.span }) (hidle : s₁.Idle) :
    ∃ o, operand (n + 1) g s = .ok (.expr o (.literal l)) { s₁ with nextId := s₁.nextId + 1 } := by
  have hkind : s.kind = t.kind := by
    unfold ParserState.kind ParserState.current
    rw [hrest]
    rfl
  have hform : simpleForm? g s = .ok (some (.literal l)) s₁ := by
    unfold simpleForm?
    rw [bind_run (kind_run s), hkind]
    dsimp only
    rw [hl, ← ParserState.advance_whole hrest hs₁ hidle.whole]
    rfl
  let o : Origin := ⟨⟨s₁.nextId⟩, s₁.spanFrom s.current.span⟩
  have hidle₂ : ({ s₁ with nextId := s₁.nextId + 1 } : ParserState).Idle :=
    ⟨hidle.detached, hidle.behind, hidle.calm⟩
  have hprimary : primary (n + 1) g s = .ok (.expr o (.literal l))
      { s₁ with nextId := s₁.nextId + 1 } := by
    unfold primary
    rw [bind_run (kind_run s), hkind]
    obtain ⟨_, _, hmark⟩ | hmark | hmark := literal_token hl <;> rw [hmark]
    all_goals
      change (simpleForm? g >>= _) s = _
      exact bind_run hform
  have hprefix : PrefixOp.ofTokens? s.kind s.nextKind = none := by
    rw [hkind]
    obtain ⟨_, _, hmark⟩ | hmark | hmark := literal_token hl <;> rw [hmark] <;> rfl
  refine ⟨o, ?_⟩
  rw [operand_plain hprefix, bind_run hprimary]
  exact suffixes_whole hidle₂.whole _ _

end Parse

end FrontEnd
