import FrontEnd.Proofs.Grouping.Operands
import FrontEnd.Proofs.LineBreaks

/-!
# Chains of operators

A chain of names with operators between them, up to something that ends an expression, is read to
its end and without errors, to the one operation that is grouped by how tight the operators bind.
Each level of the grammar takes the operators that are at least as tight as its own and leaves the
others to the looser levels.
-/

namespace FrontEnd

namespace Parse

/-- An expression is a grouped operation whose operators are at least of some strength, and it reads
a beginning of a sequence. -/
def Groups (k : Nat) (first : Ident) (others : List (InfixOp × Ident)) (e : Expr)
    (left : List (InfixOp × Ident)) : Prop :=
  ∃ t, e.operation? = some t ∧ t.Grouped ∧ k ≤ t.strength ∧ t.reading.first = first ∧
    t.reading.others ++ left = others

variable {s : ParserState} {n m k l : Nat} {name first : Ident}
  {others left left' : List (InfixOp × Ident)} {e e' : Expr} {op : InfixOp} {rest : List Token}

/-- Two expressions are put together by the operator between them. -/
theorem Groups.apply (h : Groups k first others e ((op, name) :: left))
    (h' : Groups l name left e' left') {form : ExprForm}
    (hform : form.operation? = do return .apply (← e.operation?) op (← e'.operation?))
    (hsides : if op.groupsRight then op.strength < k ∧ op.strength ≤ l
      else op.strength ≤ k ∧ op.strength < l) (o : Origin) :
    Groups op.strength first others (.expr o form) left' := by
  obtain ⟨t, ht, hgrouped, hk, hfirst, hothers⟩ := h
  obtain ⟨t', ht', hgrouped', hl, hfirst', hothers'⟩ := h'
  refine ⟨.apply t op t', ?_, ⟨hgrouped, hgrouped', ?_⟩, Nat.le_refl _, hfirst, ?_⟩
  · change form.operation? = _
    rw [hform, ht, ht']
    rfl
  · split
    all_goals
      rename_i hgroups
      simp only [hgroups] at hsides
      simp at hsides
      omega
  · change (t.reading.others ++ (op, t'.reading.first) :: t'.reading.others) ++ left' = others
    rw [List.append_assoc, List.cons_append, hothers', hfirst', hothers]

theorem Groups.mono (h : Groups k first others e left) (hle : l ≤ k) :
    Groups l first others e left := by
  obtain ⟨t, ht, hgrouped, hk, hreading⟩ := h
  exact ⟨t, ht, hgrouped, hle.trans hk, hreading⟩

theorem Groups.length_le (h : Groups k first others e left) : left.length ≤ others.length := by
  obtain ⟨t, -, -, -, -, hothers⟩ := h
  rw [← hothers, List.length_append]
  omega

/-- A parser reads the beginning of a sequence up to the first operator that is looser than some
strength, without errors. -/
def Takes (k : Nat) (p : Parser Expr) (s : ParserState) (first : Ident)
    (others : List (InfixOp × Ident)) (rest : List Token) : Prop :=
  ∃ e s' left, p s = .ok e s' ∧ s.Reaches s' ∧ s'.Before left rest ∧ Groups k first others e left ∧
    ∀ x ∈ left.head?, x.1.strength < k

/-- A round of the loop over an operator that is no name. -/
theorem chain_step {level : Level} {tighter : Parser Expr} {bop : BinaryOp} {right : Expr}
    {s₁ : ParserState} (hop : level.op? s.current = some bop) (hlevel : level ≠ .customNames)
    (hright : tighter s.advance.skipNewlines = .ok right s₁) :
    chain level tighter (n + 1) e s =
      chain level tighter n
        (.expr ⟨⟨s₁.nextId⟩, e.span.cover right.span⟩ (.binary e bop right))
        { s₁ with nextId := s₁.nextId + 1 } := by
  have hcurrent : current s = .ok s.current s := rfl
  rw [chain]
  refine (bind_run hcurrent).trans ?_
  rw [hop]
  cases level with
  | customNames => exact absurd rfl hlevel
  | operators ops =>
    change (tighter >>= _) s.advance.skipNewlines = _
    exact (bind_run hright).trans rfl

/-- The operators of a level. -/
theorem chain_takes {level : Level} {tighter : Parser Expr} (hk : 1 ≤ k ∧ k ≤ 16)
    (hlevel : ∀ op? t, Stands op? t.kind → level.op? t = InfixOp.ofStrength? op? k)
    (htighter : ∀ {s name left}, s.Opens name left rest → left.length < m →
      Takes (k + 1) tighter s name left rest)
    (h : Groups k first others e left) (hs : s.Before left rest)
    (hhead : ∀ x ∈ left.head?, x.1.strength < k + 1) (hn : left.length < n) (hm : left.length ≤ m) :
    Takes k (chain level tighter n e) s first others rest := by
  induction n generalizing e s left with
  | zero => exact absurd hn (Nat.not_lt_zero _)
  | succ n ih =>
    have hop := hlevel _ s.current hs.stands
    cases hfound : InfixOp.ofStrength? (left.head?.map (·.1)) k with
    | none =>
      refine ⟨e, s, left, chain_stop (hop.trans hfound), ⟨_, _, _, rfl⟩, hs, h, fun x hx => ?_⟩
      rw [hx] at hfound
      have hne := InfixOp.ofStrength_none hk.1 hfound
      have hle : x.1.strength < k + 1 := hhead x hx
      exact Nat.lt_of_le_of_ne (Nat.le_of_lt_succ hle) hne
    | some bop =>
      obtain ⟨hhead?, rfl⟩ := InfixOp.ofStrength_some hfound
      obtain ⟨⟨op, name⟩, left, rfl⟩ : ∃ x xs, left = x :: xs := by
        cases left with
        | nil => cases hhead?
        | cons x xs => exact ⟨x, xs, rfl⟩
      obtain rfl : op = .binary bop := Option.some.inj hhead?
      obtain ⟨hreaches, hopens⟩ := hs.step
      obtain ⟨right, s₁, left', hright, hreaches₁, hs₁, hgroups, hhead'⟩ :=
        htighter hopens hm
      let o : Origin := ⟨⟨s₁.nextId⟩, e.span.cover right.span⟩
      let s₂ : ParserState := { s₁ with nextId := s₁.nextId + 1 }
      have hreaches₂ : s.Reaches s₂ := hreaches.trans (hreaches₁.trans ⟨_, _, _, rfl⟩)
      have hrun := chain_step (n := n) (e := e) (hop.trans hfound)
        (InfixOp.Written.not_names hs.stands (hop.trans hfound)) hright
      have hjoined : Groups bop.strength first others (.expr o (.binary e bop right)) left' := by
        refine h.apply hgroups rfl ?_ o
        have hside : (InfixOp.binary bop).groupsRight ≠ true := by
          rw [ne_eq, InfixOp.groupsRight_iff]
          change ¬(bop.strength = 0 ∨ bop.strength = 17)
          omega
        rw [if_neg hside]
        exact ⟨Nat.le_refl _, Nat.lt_succ_self _⟩
      have hleft : left'.length ≤ left.length := hgroups.length_le
      rw [List.length_cons] at hn hm
      have hs₂ : s₂.Before left' rest := hs₁.moved rfl ⟨_, _, _, rfl⟩
      obtain ⟨e', s₃, left'', hchain, hreaches₃, hs₃, hgroups', hhead''⟩ :=
        ih hjoined hs₂ hhead' (by omega) (by omega)
      exact ⟨e', s₃, left'', hrun.trans hchain, hreaches₂.trans hreaches₃, hs₃, hgroups', hhead''⟩

/-- Powers. -/
theorem power_takes (hs : s.Opens first others rest) (hn : others.length < n)
    (hm : others.length ≤ m) : Takes 17 (power n (grammar m)) s first others rest := by
  induction hlength : others.length using Nat.strong_induction_on generalizing s first
    others n m with
  | _ length ih =>
    obtain ⟨n, rfl⟩ : ∃ k, n = k + 1 := ⟨n - 1, by omega⟩
    obtain ⟨ts, hrest, hbehind⟩ := hs
    obtain ⟨o, hoperand⟩ := operand_name (n := n) (g := grammar m)
      (ParserState.current_of_rest hrest) (ParserState.advance_whole hrest rfl hbehind.idle.whole)
      hbehind.idle.whole
    let s₁ : ParserState := { s with rest := ts, lastSpan := first.span, nextId := s.nextId + 1 }
    let e : Expr := .expr o (.name first .empty)
    have hs₁ : s₁.Before others rest := hbehind.moved rfl ⟨_, _, _, rfl⟩
    have hreaches : s.Reaches s₁ := ⟨_, _, _, rfl⟩
    have hname : Groups 18 first others e others :=
      ⟨.operand first, rfl, trivial, Nat.le_refl _, rfl, rfl⟩
    have hcasts : casts (grammar m) (n + 1) e s₁ = .ok e s₁ := casts_idle hs₁.idle e
    have seen := hs₁.stands.seen (t := s₁.current)
    by_cases hpower : s₁.kind = .symbol .power
    · obtain ⟨⟨op, name⟩, left, rfl⟩ : ∃ x xs, others = x :: xs := by
        cases others with
        | nil => cases seen.power.1 hpower
        | cons x xs => exact ⟨x, xs, rfl⟩
      obtain rfl : op = .binary .power := Option.some.inj (seen.power.1 hpower)
      obtain ⟨m, rfl⟩ : ∃ k, m = k + 1 := ⟨m - 1, by rw [List.length_cons] at hm; omega⟩
      obtain ⟨hreaches₁, hopens⟩ := hs₁.step
      rw [List.length_cons] at hlength hm
      have htaken : Takes 17 (power (m + 1) (grammar m)) s₁.advance.skipNewlines name left rest :=
        ih left.length (by omega) hopens (by omega) (by omega) rfl
      obtain ⟨right, s₂, left', hright, hreaches₂, hs₂, hgroups, hhead⟩ := htaken
      let o' : Origin := ⟨⟨s₂.nextId⟩, e.span.cover right.span⟩
      refine ⟨.expr o' (.binary e .power right), { s₂ with nextId := s₂.nextId + 1 }, left',
        power_step hoperand hcasts hpower hright,
        hreaches.trans (hreaches₁.trans (hreaches₂.trans ⟨_, _, _, rfl⟩)),
        hs₂.moved rfl ⟨_, _, _, rfl⟩, hname.apply hgroups rfl ?_ o', hhead⟩
      rw [if_pos (show (InfixOp.binary .power).groupsRight = true from rfl)]
      exact ⟨by decide, by decide⟩
    · refine ⟨e, s₁, others, power_stop hoperand hcasts hpower, hreaches, hs₁, ?_, fun x hx => ?_⟩
      · exact hname.mono (by decide)
      · refine InfixOp.strength_lt fun hop => hpower (seen.power.2 ?_)
        rw [hx, ← hop]
        rfl

/-- The operators of several levels, up to the tightest one. -/
theorem binary_takes {levels : List Level} (hk : 1 ≤ k) (hlevels : k + levels.length = 17)
    (hops : ∀ op? t, Stands op? t.kind →
      levels.map (·.op? t) = (List.range' k levels.length).map (InfixOp.ofStrength? op?))
    (hs : s.Opens first others rest) (hn : others.length < n) (hm : others.length ≤ m) :
    Takes k (binary n (grammar m) levels) s first others rest := by
  induction levels generalizing k s first others with
  | nil =>
    obtain rfl : k = 17 := hlevels
    exact power_takes hs hn hm
  | cons level levels ih =>
    have hlevel (op? : Option InfixOp) (t : Token) (ht : Stands op? t.kind) :
        level.op? t = InfixOp.ofStrength? op? k := (List.cons.inj (hops op? t ht)).1
    have htighter {s : ParserState} {first : Ident} {others : List (InfixOp × Ident)}
        (hs : s.Opens first others rest) (hn : others.length < n) (hm : others.length ≤ m) :
        Takes (k + 1) (binary n (grammar m) levels) s first others rest :=
      ih (by omega) (by simp at hlevels; omega)
        (fun op? t ht => (List.cons.inj (hops op? t ht)).2) hs hn hm
    obtain ⟨e, s₁, left, hrun, hreaches, hs₁, hgroups, hhead⟩ := htighter hs hn hm
    have hleft : left.length ≤ others.length := hgroups.length_le
    have htakes : Takes k (chain level (binary n (grammar m) levels) n e) s₁ first others rest :=
      chain_takes ⟨hk, by simp at hlevels; omega⟩ hlevel
        (fun hs (hlt : _ < others.length) => htighter hs (by omega) (by omega))
        (hgroups.mono (Nat.le_succ k)) hs₁ hhead (by omega) hleft
    obtain ⟨e', s₂, left', hchain, hreaches', hs₂, hgroups', hhead'⟩ := htakes
    exact ⟨e', s₂, left', (bind_run hrun).trans hchain, hreaches.trans hreaches', hs₂, hgroups',
      hhead'⟩

/-- Assignments, too: the whole sequence is read. -/
theorem expr_takes (hs : s.Opens first others rest) (hn : others.length < n)
    (hm : others.length ≤ m) : Takes 0 (expr n (grammar m)) s first others rest := by
  induction hlength : others.length using Nat.strong_induction_on generalizing s first
    others n m with
  | _ length ih =>
    have htakes : Takes 1 (binary n (grammar m) Level.all) s first others rest :=
      binary_takes (Nat.le_refl 1) rfl (fun op? t ht => ht.seen.levels) hs hn hm
    obtain ⟨e, s₁, left, hrun, hreaches, hs₁, hgroups, hhead⟩ := htakes
    have hleft : left.length ≤ others.length := hgroups.length_le
    have seen := hs₁.stands.seen (t := s₁.current)
    have hassign : AssignOp.ofToken? s₁.kind = _ := seen.assign
    have hexpr := show expr n (grammar m) s = _ from
      (bind_run hrun).trans (bind_run (kind_run s₁))
    rw [hassign] at hexpr
    cases left with
    | nil => exact ⟨e, s₁, [], hexpr, hreaches, hs₁, hgroups.mono (Nat.zero_le 1), nofun⟩
    | cons x left =>
      obtain ⟨op, name⟩ := x
      have hzero : op.strength = 0 := Nat.lt_one_iff.1 (hhead _ rfl)
      obtain ⟨aop, rfl⟩ : ∃ aop, op = .assign aop := by
        cases op with
        | assign aop => exact ⟨aop, rfl⟩
        | binary bop => exact absurd hzero bop.strength_pos.ne'
      obtain ⟨m, rfl⟩ : ∃ k, m = k + 1 := ⟨m - 1, by rw [List.length_cons] at hleft; omega⟩
      obtain ⟨hreaches₁, hopens⟩ := hs₁.step
      rw [List.length_cons] at hleft
      have htaken : Takes 0 (expr (m + 1) (grammar m)) s₁.advance.skipNewlines name left rest :=
        ih left.length (by omega) hopens (by omega) (by omega) rfl
      obtain ⟨value, s₂, left', hvalue, hreaches₂, hs₂, hgroups', hhead'⟩ := htaken
      let o : Origin := ⟨⟨s₂.nextId⟩, e.span.cover value.span⟩
      refine ⟨.expr o (.assign e aop value), { s₂ with nextId := s₂.nextId + 1 }, left', ?_,
        hreaches.trans (hreaches₁.trans (hreaches₂.trans ⟨_, _, _, rfl⟩)),
        hs₂.moved rfl ⟨_, _, _, rfl⟩, hgroups.apply hgroups' rfl ?_ o, hhead'⟩
      · rw [hexpr]
        change (grammar (m + 1) .expr >>= _) s₁.advance.skipNewlines = _
        exact bind_run hvalue
      · rw [if_pos (show (InfixOp.assign aop).groupsRight = true from rfl)]
        exact ⟨Nat.one_pos, Nat.le_refl 0⟩

end Parse

end FrontEnd
