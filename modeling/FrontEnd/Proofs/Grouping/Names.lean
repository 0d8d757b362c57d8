import FrontEnd.Proofs.Following.Beginnings
import FrontEnd.Proofs.Grouping.Operations

/-!
# Names between operators

Where an operator or the end of an expression stands behind a name, nothing goes on with the name:
it is an operand of its own. The token behind it is an operator of one level at most.
-/

namespace FrontEnd

/-- The token of a name. -/
def Ident.token (name : Ident) : Token := ⟨.ident name.name, name.span⟩

/-- Whether an operator is written with a token of some kind. Names are no operators here. -/
def InfixOp.Written (op : InfixOp) (k : TokenKind) : Prop :=
  match op with
  | .binary (.custom _) => False
  | .binary op => k = op.token
  | .assign op => AssignOp.ofToken? k = some op

/-- A level at which it is found is not the one of names. -/
theorem InfixOp.Written.not_names {bop : BinaryOp} {t : Token} {level : Level}
    (h : InfixOp.Written (.binary bop) t.kind) (hop : level.op? t = some bop) :
    level ≠ .customNames := by
  rintro rfl
  unfold Level.op? at hop
  dsimp only at hop
  split at hop
  · cases hop
    exact h
  · cases hop

/-- Operators with the names behind them, token by token. -/
inductive Spelled : List (InfixOp × Ident) → List Token → Prop
  | nil : Spelled [] []
  | cons {op : InfixOp} {t : Token} {name : Ident} {others : List (InfixOp × Ident)}
      {ts : List Token}
    (written : op.Written t.kind) (tail : Spelled others ts) :
    Spelled ((op, name) :: others) (t :: name.token :: ts)

theorem Spelled.length_le {others : List (InfixOp × Ident)} {ts : List Token}
    (h : Spelled others ts) : others.length ≤ ts.length := by
  induction h with
  | nil => exact Nat.le_refl _
  | cons _ _ ih =>
    simp only [List.length_cons]
    omega

/-- The tokens of a sequence. -/
def Sequence.Spells (xs : Sequence) (tokens : List Token) : Prop :=
  ∃ ts, tokens = xs.first.token :: ts ∧ Spelled xs.others ts

/-- Tokens that go on with an operand or with the casts behind it. -/
def TokenKind.attaches : TokenKind → Bool
  | .symbol .path | .symbol .lParen | .symbol .lBracket | .symbol .lBrace | .symbol .dot
  | .symbol .safeCall | .symbol .inc | .symbol .dec | .symbol .quest | .keyword .as_
  | .keyword .asSafe => true
  | _ => false

/-- What can stand behind a name of a chain: the next operator, or none at the end. -/
def Stands (op? : Option InfixOp) (k : TokenKind) : Prop :=
  match op? with
  | some op => op.Written k
  | none => k.canStartValue = false

/-- The operator of a strength. -/
def InfixOp.ofStrength? (op? : Option InfixOp) (k : Nat) : Option BinaryOp :=
  match op? with
  | some (.binary op) => if op.strength = k then some op else none
  | _ => none

/-- The operator of a strength is what stands there. -/
theorem InfixOp.ofStrength_some {op? : Option InfixOp} {bop : BinaryOp} {k : Nat}
    (h : InfixOp.ofStrength? op? k = some bop) : op? = some (.binary bop) ∧ bop.strength = k := by
  unfold InfixOp.ofStrength? at h
  split at h
  · split at h
    · rename_i hstrength
      cases h
      exact ⟨rfl, hstrength⟩
    · cases h
  · cases h

/-- Another operator is not of the strength. -/
theorem InfixOp.ofStrength_none {op : InfixOp} {k : Nat} (hk : 1 ≤ k)
    (h : InfixOp.ofStrength? (some op) k = none) : op.strength ≠ k := by
  cases op with
  | binary bop =>
    intro hstrength
    exact Option.some_ne_none bop ((if_pos hstrength).symm.trans h)
  | assign aop => exact fun hzero => absurd hzero (by change 0 ≠ k; omega)

/-- What the parser finds out about the token behind a name of a chain. -/
structure Seen (op? : Option InfixOp) (t : Token) : Prop where
  detached : t.kind.attaches = false
  newline : op? ≠ none → t.kind ≠ .newline
  levels : Level.all.map (·.op? t) = (List.range' 1 16).map (InfixOp.ofStrength? op?)
  power : t.kind = .symbol .power ↔ op? = some (.binary .power)
  assign : AssignOp.ofToken? t.kind = match op? with
    | some (.assign op) => some op
    | _ => none

theorem Stands.seen {op? : Option InfixOp} {t : Token} (h : Stands op? t.kind) : Seen op? t := by
  obtain ⟨k, span⟩ := t
  cases op? with
  | none =>
    change k.canStartValue = false at h
    unfold TokenKind.canStartValue at h
    split at h
    all_goals cases h
    all_goals exact ⟨rfl, absurd rfl, rfl, by simp, rfl⟩
  | some op =>
    cases op with
    | binary op =>
      cases op with
      | custom ident => exact h.elim
      | _ =>
        cases h
        exact ⟨rfl, by simp, rfl, by simp, rfl⟩
    | assign op =>
      change AssignOp.ofToken? k = some op at h
      unfold AssignOp.ofToken? at h
      split at h
      all_goals cases h
      all_goals exact ⟨rfl, by simp, rfl, by simp, rfl⟩

/-- The state in front of a token that ends an expression: a separator, a closing delimiter or the
end of the text. A line break ends an expression only where it has a meaning, and not in front of a
member. -/
structure ParserState.Ends (s : ParserState) : Prop where
  closes : s.kind.canStartValue = false
  broken : s.kind = .newline → ignoresNewlines s.groups = false
  behind : s.kindAfterNewlines ≠ .symbol .dot ∧ s.kindAfterNewlines ≠ .symbol .safeCall

/-- A state of the same text that differs only in how far it has come. -/
def ParserState.Reaches (s s' : ParserState) : Prop :=
  ∃ rest span id, s' = { s with rest := rest, lastSpan := span, nextId := id }

/-- The state behind a name, in front of operators with names and the end of the expression. -/
structure ParserState.Before (s : ParserState) (others : List (InfixOp × Ident))
    (rest : List Token) : Prop where
  spelled : ∃ ts, Spelled others ts ∧ s.rest = ts ++ rest
  ends : ({ s with rest := rest } : ParserState).Ends

/-- The state behind a name that nothing goes on with. -/
structure ParserState.Idle (s : ParserState) : Prop where
  detached : s.kind.attaches = false
  behind : s.kindAfterNewlines ≠ .symbol .dot ∧ s.kindAfterNewlines ≠ .symbol .safeCall
  calm : ∀ t ∈ s.rest.head?, breaks (ignoresNewlines s.groups) t.kind = false

/-- The state behind an operand that nothing but casts goes on with. -/
structure ParserState.Whole (s : ParserState) : Prop where
  detached : s.kind.attaches = true → s.kind = .keyword .as_ ∨ s.kind = .keyword .asSafe
  behind : s.kindAfterNewlines ≠ .symbol .dot ∧ s.kindAfterNewlines ≠ .symbol .safeCall
  calm : ∀ t ∈ s.rest.head?, breaks (ignoresNewlines s.groups) t.kind = false

namespace ParserState

variable {s s' s'' : ParserState} {op : InfixOp} {name : Ident} {others : List (InfixOp × Ident)}
  {ts rest : List Token}

theorem Reaches.trans (h : s.Reaches s') (h' : s'.Reaches s'') : s.Reaches s'' := by
  obtain ⟨_, _, _, rfl⟩ := h
  obtain ⟨rest, span, id, rfl⟩ := h'
  exact ⟨rest, span, id, rfl⟩

/-- Where an expression ends, it also ends from another state of the same text. -/
theorem Ends.reaches (h : ({ s with rest := rest } : ParserState).Ends) (hmoved : s.Reaches s') :
    ({ s' with rest := rest } : ParserState).Ends := by
  obtain ⟨_, _, _, rfl⟩ := hmoved
  exact ⟨h.closes, h.broken, h.behind⟩

/-- Only what is left to read matters. -/
theorem Before.moved (h : s.Before others rest) (hrest : s'.rest = s.rest) (hmoved : s.Reaches s') :
    s'.Before others rest := by
  obtain ⟨⟨ts, hspelled, hts⟩, hends⟩ := h
  exact ⟨⟨ts, hspelled, hrest.trans hts⟩, hends.reaches hmoved⟩

/-- Behind the last name the expression ends. -/
theorem Before.rest_eq (h : s.Before [] rest) : s.rest = rest := by
  obtain ⟨⟨ts, hspelled, hrest⟩, -⟩ := h
  cases hspelled
  exact hrest

/-- An operator, its name and what is behind them. -/
theorem Before.rest_cons (h : s.Before ((op, name) :: others) rest) : ∃ t ts,
    op.Written t.kind ∧ s.rest = t :: name.token :: ts ∧
      ∀ {s' : ParserState}, s.Reaches s' → s'.rest = ts → s'.Before others rest := by
  obtain ⟨⟨ts, hspelled, hrest⟩, hends⟩ := h
  cases hspelled with
  | cons written tail =>
    exact ⟨_, _, written, hrest, fun hmoved h => ⟨⟨_, tail, h⟩, hends.reaches hmoved⟩⟩

/-- What is at hand there. -/
theorem Before.stands (h : s.Before others rest) : Stands (others.head?.map (·.1)) s.kind := by
  cases others with
  | nil =>
    have hends := h.ends.closes
    rw [← h.rest_eq] at hends
    exact hends
  | cons x others =>
    obtain ⟨t, ts, written, hrest, -⟩ := h.rest_cons
    unfold kind current
    rw [hrest]
    exact written

/-- Only what is left to read matters. -/
theorem Idle.moved (h : s.Idle) (hrest : s'.rest = s.rest) (hmoved : s.Reaches s') : s'.Idle := by
  obtain ⟨_, _, _, rfl⟩ := hmoved
  obtain rfl : _ = s.rest := hrest
  exact ⟨h.detached, h.behind, h.calm⟩

theorem Idle.whole (h : s.Idle) : s.Whole :=
  ⟨fun hattaches => absurd (h.detached.symm.trans hattaches) Bool.false_ne_true, h.behind, h.calm⟩

/-- A token that is no line break is the first one behind line breaks. -/
theorem kindAfterNewlines_eq (h : s.kind ≠ .newline) : s.kindAfterNewlines = s.kind := by
  unfold kind current at h
  unfold kindAfterNewlines kind current
  cases hrest : s.rest with
  | nil => rfl
  | cons t ts =>
    have ht : t.kind ≠ .newline := by simpa [hrest] using h
    rw [List.dropWhile_cons_of_neg (by simp [ht])]

/-- The first token is the one at hand. -/
theorem kind_of_head {t : Token} (h : t ∈ s.rest.head?) : s.kind = t.kind := by
  obtain ⟨ts, hrest⟩ := List.head?_eq_some_iff.1 h
  unfold kind current
  rw [hrest]
  rfl

/-- Nothing is skipped in front of a token that is no line break. -/
theorem calm_of_kind (h : s.kind ≠ .newline) :
    ∀ t ∈ s.rest.head?, breaks (ignoresNewlines s.groups) t.kind = false := by
  intro t ht
  rw [kind_of_head ht] at h
  unfold breaks
  rw [decide_eq_false h, Bool.and_false]

/-- A token that goes on with nothing follows, and no line break. -/
theorem idle_of_kind (hdetached : s.kind.attaches = false) (hnewline : s.kind ≠ .newline) :
    s.Idle := by
  refine ⟨hdetached, ?_, calm_of_kind hnewline⟩
  rw [kindAfterNewlines_eq hnewline]
  constructor
  all_goals
    intro hkind
    rw [hkind] at hdetached
    cases hdetached

/-- An operand ends where an operator stands or the expression ends. -/
theorem idle_of_stands {op? : Option InfixOp} (h : Stands op? s.kind)
    (hends : op? = none → s.Ends) : s.Idle := by
  have seen : Seen op? s.current := h.seen
  cases op? with
  | none =>
    refine ⟨seen.detached, (hends rfl).behind, fun t ht => ?_⟩
    have hkind := kind_of_head ht
    by_cases hbroken : t.kind = .newline
    · unfold breaks
      rw [(hends rfl).broken (hkind.trans hbroken), Bool.false_and]
    · exact calm_of_kind (by rw [hkind]; exact hbroken) t ht
  | some op => exact idle_of_kind seen.detached (seen.newline (Option.some_ne_none op))

theorem Before.idle (h : s.Before others rest) : s.Idle := by
  refine idle_of_stands h.stands fun hnone => ?_
  cases others with
  | nil =>
    have hends := h.ends
    rw [← h.rest_eq] at hends
    exact hends
  | cons x others => cases hnone

/-- The first token is at hand. -/
theorem current_of_rest {x : Token} (hrest : s.rest = x :: ts) : s.current = x := by
  unfold current
  rw [hrest]
  rfl

/-- A token is stepped over where no line breaks are skipped. -/
theorem advance_calm {x : Token} (hrest : s.rest = x :: ts)
    (hcalm : ∀ t ∈ ts.head?, breaks (ignoresNewlines s.groups) t.kind = false) :
    s.advance = { s with rest := ts, lastSpan := x.span } := by
  rw [advance_eq hrest]
  cases ts with
  | nil => rfl
  | cons t ts =>
    have ht : ¬breaks (ignoresNewlines s.groups) t.kind = true := by
      rw [hcalm t rfl]
      exact Bool.false_ne_true
    rw [List.dropWhile_cons_of_neg (p := fun t : Token => breaks _ t.kind) ht,
      List.takeWhile_cons_of_neg (p := fun t : Token => breaks _ t.kind) ht]
    rfl

/-- So is the last token of an operand. -/
theorem advance_whole {x : Token} {s₁ : ParserState} (hrest : s.rest = x :: ts)
    (hs₁ : s₁ = { s with rest := ts, lastSpan := x.span }) (hwhole : s₁.Whole) :
    s.advance = s₁ := by
  subst hs₁
  exact advance_calm hrest hwhole.calm

/-- An operator in front of a name is stepped over. -/
theorem advance_operator {x : Token} (hrest : s.rest = x :: name.token :: ts) :
    s.advance.skipNewlines = { s with rest := name.token :: ts, lastSpan := x.span } := by
  have hadvance := advance_calm hrest fun t ht => by
    cases ht
    exact Bool.and_false _
  rw [hadvance]
  rfl

/-- The state in front of a sequence and the end of the expression. -/
def Opens (s : ParserState) (name : Ident) (others : List (InfixOp × Ident)) (rest : List Token) :
    Prop :=
  ∃ ts, s.rest = name.token :: ts ∧
    ({ s with rest := ts, lastSpan := name.span } : ParserState).Before others rest

/-- Behind an operator stands its name. -/
theorem Before.step (h : s.Before ((op, name) :: others) rest) :
    s.Reaches s.advance.skipNewlines ∧ s.advance.skipNewlines.Opens name others rest := by
  obtain ⟨t, ts, -, hrest, hbehind⟩ := h.rest_cons
  rw [advance_operator hrest]
  exact ⟨⟨_, _, _, rfl⟩, ts, rfl, hbehind ⟨_, _, _, rfl⟩ rfl⟩

end ParserState

namespace Parse

variable {s s₁ : ParserState} {n m : Nat} {g : Grammar} {name : Ident} {ts : List Token}

/-- No symbol goes on with an operand. -/
theorem symbol_whole {mark : Symbol} (hmark : (TokenKind.symbol mark).attaches = true)
    (hwhole : s.Whole) : s.kind ≠ .symbol mark := by
  intro hkind
  rcases hwhole.detached (by rw [hkind]; exact hmark) with hcast | hcast
  all_goals exact absurd (hkind.symm.trans hcast) nofun

theorem accept_whole {mark : Symbol} (hmark : (TokenKind.symbol mark).attaches = true)
    (hwhole : s.Whole) : acceptSymbol mark s = .ok false s :=
  (accept_run (.symbol mark) s).trans (if_neg (symbol_whole hmark hwhole))

/-- A name is a path, in a type unless type arguments follow. -/
theorem path_name {inType : Bool} (hcurrent : s.current = name.token) (hs₁ : s.advance = s₁)
    (hwhole : s₁.Whole) (hangle : inType = true → s₁.kind ≠ .symbol .lAngle) :
    path (n + 1) g inType s =
      .ok (.path false (.ofList [.segment name .nil]) (s₁.spanFrom name.span) .empty) s₁ := by
  have hglobal : acceptSymbol .path s = .ok false s := by
    refine (accept_run (.symbol .path) s).trans (if_neg ?_)
    unfold ParserState.kind
    rw [hcurrent]
    exact nofun
  have hname : expectIdent s = .ok name s₁ := by
    rw [expectIdent_run hcurrent, hs₁]
  have hat : atSymbol .lAngle s₁ = .ok (s₁.kind == .symbol .lAngle) s₁ := rfl
  have hdirect : ¬(inType = true ∧ (s₁.kind == .symbol .lAngle) = true) :=
    fun h => hangle h.1 (eq_of_beq h.2)
  have hsegments : segments (n + 1) g inType (n + 1) s = .ok [.segment name .nil] s₁ := by
    unfold segments
    refine (bind_run hname).trans ((bind_run hat).trans ?_)
    rw [if_neg hdirect]
    exact bind_run (accept_whole rfl hwhole)
  unfold path
  change ((do
    let global ← acceptSymbol .path
    let names ← segments (n + 1) g inType (n + 1)
    return .path global (.ofList names) (← spanFrom s.current.span) .empty) : Parser Path) s = _
  rw [bind_run hglobal, bind_run hsegments, hcurrent]
  rfl

/-- Nothing goes on with an operand. -/
theorem suffixes_whole (hwhole : s.Whole) (bound : Nat) (e : Expr) :
    suffixes bound g (n + 1) e s = .ok e s := by
  have hkind : ¬(s.kindAfterNewlines = .symbol .dot ∨ s.kindAfterNewlines = .symbol .safeCall) :=
    not_or.2 hwhole.behind
  have hattaches := hwhole.detached
  unfold suffixes
  change (if s.kindAfterNewlines = .symbol .dot ∨ s.kindAfterNewlines = .symbol .safeCall then _
    else _ : Parser Expr) s = _
  rw [if_neg hkind]
  refine (bind_run (kind_run s)).trans ?_
  dsimp only
  have hsuffix : PostfixOp.ofToken? s.kind = none := by
    unfold PostfixOp.ofToken?
    split
    all_goals first
      | rfl
      | rename_i hmark; rw [hmark] at hattaches; cases hattaches rfl <;> contradiction
  rw [hsuffix]
  generalize s.kind = k at hattaches
  dsimp only
  split
  all_goals first
    | rfl
    | cases hattaches rfl <;> contradiction

/-- Nothing casts it. -/
theorem casts_idle (hidle : s.Idle) (e : Expr) : casts g (n + 1) e s = .ok e s := by
  have hattaches := hidle.detached
  have hkind : ¬(s.kind = .keyword .as_ ∨ s.kind = .keyword .asSafe) := by
    rintro (hkind | hkind)
    all_goals
      rw [hkind] at hattaches
      cases hattaches
  unfold casts
  refine (bind_run (kind_run s)).trans ?_
  exact congrFun (if_neg hkind) s

/-- A name is an operand. -/
theorem operand_name (hcurrent : s.current = name.token) (hs₁ : s.advance = s₁)
    (hwhole : s₁.Whole) : ∃ o, operand (n + 1) g s = .ok (.expr o (.name name .empty))
      { s₁ with nextId := s₁.nextId + 1 } := by
  have hkind : s.kind = .ident name.name := congrArg Token.kind hcurrent
  have hbrace : atSymbol .lBrace s₁ = .ok false s₁ :=
    congrArg (EStateM.Result.ok · s₁) (beq_eq_false_iff_ne.2 (symbol_whole rfl hwhole))
  let o : Origin := ⟨⟨s₁.nextId⟩, s₁.spanFrom name.span⟩
  have hwhole₂ : ({ s₁ with nextId := s₁.nextId + 1 } : ParserState).Whole :=
    ⟨hwhole.detached, hwhole.behind, hwhole.calm⟩
  have hprimary : primary (n + 1) g s = .ok (.expr o (.name name .empty))
      { s₁ with nextId := s₁.nextId + 1 } := by
    unfold primary
    rw [bind_run (kind_run s), hkind]
    change pathOrConstruct (n + 1) g s = _
    unfold pathOrConstruct
    refine (bind_run (path_name hcurrent hs₁ hwhole (fun h =>
      absurd h Bool.false_ne_true))).trans ?_
    have hget : (get : Parser ParserState) s₁ = .ok s₁ s₁ := rfl
    refine (bind_run hget).trans ((bind_run hbrace).trans ?_)
    rw [if_neg fun h => Bool.false_ne_true h.2]
    have hsimple : (Node.path false (Node.ofList [Node.segment name Node.nil])
        (s₁.spanFrom name.span) Slot.empty).simpleName? = some name := rfl
    rw [hsimple]
    rfl
  refine ⟨o, ?_⟩
  rw [operand_plain (by rw [hkind]; rfl), bind_run hprimary]
  exact suffixes_whole hwhole₂ _ _

end Parse

end FrontEnd
