import FrontEnd.Proofs.Following.Relabeling
import FrontEnd.Proofs.Grouping.Chains

/-!
# Casts between operators

Casts bind tighter than every operator between operands, so they do not change how a chain is
grouped. Two runs of the parser are followed side by side, over names alone and over the same names
with casts: they take the same steps, but that the second one has casts around its operands. One
operator does not get along with casts. Behind the type of a cast `<` begins type arguments.
-/

namespace FrontEnd

/-- A cast to a type that is a name. -/
structure Cast where
  /-- Whether it is written with a question mark. -/
  safe : Bool
  /-- The name of the type. -/
  type : String
deriving DecidableEq

/-- A name with casts behind it. -/
structure Operand where
  /-- The name. -/
  name : String
  /-- The casts from the left to the right. -/
  casts : List Cast
deriving DecidableEq

/-- The tokens of a cast. -/
def Cast.kinds (c : Cast) : List TokenKind :=
  [.keyword (if c.safe then .asSafe else .as_), .ident c.type]

/-- What a cast makes of an expression. -/
def Cast.apply (c : Cast) (e : Expr) : Expr :=
  let named := Node.path false (.ofList [.segment ⟨c.type, default⟩ .nil]) default .empty
  .expr default (.cast e (.type default (.pathType named)) c.safe)

namespace Operand

/-- The tokens of an operand. -/
def kinds (x : Operand) : List TokenKind := .ident x.name :: x.casts.flatMap Cast.kinds

/-- An operand without its casts. -/
def bare (x : Operand) : Operand := { x with casts := [] }

/-- The expression that an operand is. Its first cast is the innermost one. -/
def expr (x : Operand) : Expr :=
  x.casts.foldl (fun e c => c.apply e) (.expr default (.name ⟨x.name, default⟩ .empty))

end Operand

/-- An operand, and binary operators with an operand behind each of them. -/
structure CastSequence where
  /-- The first operand. -/
  first : Operand
  /-- The operators, each with the operand behind it. -/
  others : List (BinaryOp × Operand)
deriving DecidableEq

/-- The tokens of operators with operands behind them. -/
def spelling (others : List (BinaryOp × Operand)) : List TokenKind :=
  others.flatMap fun x => x.1.token :: x.2.kinds

/-- Operators with operands behind them that have lost their casts. -/
def bareOperands (others : List (BinaryOp × Operand)) : List (BinaryOp × Operand) :=
  others.map fun x => (x.1, x.2.bare)

/-- Whether operators can stand behind an operand with some casts and behind each other: no operator
is a name, and none is `<` directly behind a cast. -/
def Separate (casts : List Cast) : List (BinaryOp × Operand) → Prop
  | [] => True
  | (op, x) :: others =>
    (∀ name, op ≠ .custom name) ∧ (op = .lt → casts = []) ∧ Separate x.casts others

namespace CastSequence

/-- The tokens of a sequence. -/
def kinds (xs : CastSequence) : List TokenKind := xs.first.kinds ++ spelling xs.others

/-- A sequence without its casts. -/
def bare (xs : CastSequence) : CastSequence := ⟨xs.first.bare, bareOperands xs.others⟩

/-- The operands from the left to the right. -/
def operands (xs : CastSequence) : List Operand := xs.first :: xs.others.map (·.2)

end CastSequence

/-- The second expression is the first one with some operands, from the left to the right, in the
places of their names. -/
inductive Casting : List Operand → Expr → Expr → Prop
  | operand {x : Operand} {e₀ e : Expr} (bare : Likeness.bare.Alike x.bare.expr e₀)
    (full : Likeness.bare.Alike x.expr e) : Casting [x] e₀ e
  | binary {xs ys : List Operand} {left₀ left right₀ right : Expr} {op : BinaryOp} {o₀ o : Origin}
    (before : Casting xs left₀ left) (behind : Casting ys right₀ right) :
    Casting (xs ++ ys) (.expr o₀ (.binary left₀ op right₀)) (.expr o (.binary left op right))

/-- What is left to read begins with tokens of some kinds. -/
def ParserState.Spells (s : ParserState) (ks : List TokenKind) (rest : List Token) : Prop :=
  ∃ ts, s.rest = ts ++ rest ∧ ts.map (·.kind) = ks

/-- The state in front of a sequence and the end of the expression. -/
structure ParserState.Faces (s : ParserState) (xs : CastSequence) (rest : List Token) : Prop where
  spells : s.Spells xs.kinds rest
  ends : ({ s with rest := rest } : ParserState).Ends

/-- The state behind an operand, in front of operators with operands and the end of the
expression. -/
structure ParserState.Behind (s : ParserState) (others : List (BinaryOp × Operand))
    (rest : List Token) : Prop where
  spells : s.Spells (spelling others) rest
  ends : ({ s with rest := rest } : ParserState).Ends

variable {op : BinaryOp} {x : Operand} {others left : List (BinaryOp × Operand)} {cs : List Cast}

namespace Separate

/-- Behind a name there may be all that may be there behind casts. -/
theorem weaken (h : Separate cs others) : Separate [] others := by
  cases others with
  | nil => trivial
  | cons x others => exact ⟨h.1, fun _ => rfl, h.2.2⟩

/-- Nothing stands in the way without casts. -/
theorem bareOperands (h : Separate cs others) : Separate [] (bareOperands others) := by
  induction others generalizing cs with
  | nil => trivial
  | cons x others ih => exact ⟨h.1, fun _ => rfl, ih h.2.2⟩

/-- What stands behind an operand. -/
theorem stands (h : Separate cs ((op, x) :: others)) : Stands (some (.binary op)) op.token := by
  change InfixOp.Written _ _
  cases op with
  | custom name => exact absurd rfl (h.1 name)
  | _ => rfl

/-- Behind casts it begins no type arguments. -/
theorem not_angle (h : Separate cs ((op, x) :: others)) (hcs : cs ≠ []) :
    op.token ≠ .symbol .lAngle := by
  intro htoken
  cases op with
  | lt => exact hcs (h.2.1 rfl)
  | custom name => exact absurd rfl (h.1 name)
  | _ => cases htoken

end Separate

theorem length_bareOperands (others : List (BinaryOp × Operand)) :
    (bareOperands others).length = others.length := List.length_map _

/-- How many tokens there are. -/
theorem CastSequence.length_kinds (x : Operand) (others : List (BinaryOp × Operand)) :
    (kinds ⟨x, others⟩).length = x.casts.length * 2 + (spelling others).length + 1 := by
  simp [kinds, Operand.kinds, Cast.kinds, List.length_flatMap]

theorem length_spelling_cons :
    (spelling ((op, x) :: others)).length = (CastSequence.kinds ⟨x, others⟩).length + 1 := rfl

theorem length_le_spelling (others : List (BinaryOp × Operand)) :
    others.length ≤ (spelling others).length := by
  induction others with
  | nil => exact Nat.le_refl 0
  | cons x others ih =>
    rw [length_spelling_cons, CastSequence.length_kinds, List.length_cons]
    omega

/-- Casts of expressions that are alike are alike. -/
theorem Cast.alike_apply {c : Cast} {inner e : Expr} {name : Ident} (hname : name.name = c.type)
    (he : Likeness.bare.Alike inner e) (origin : Origin) (span : Span) (o : Origin) :
    Likeness.bare.Alike (c.apply inner) (.expr o (.cast e (.type origin (.pathType
      (.path false (.ofList [.segment name .nil]) span .empty))) c.safe)) := by
  obtain ⟨_, _⟩ := name
  subst hname
  exact (congrArg (fun e => Node.expr default (.cast e (.type default (.pathType (.path false
    (.ofList [.segment ⟨c.type, default⟩ .nil]) default .empty))) c.safe)) he :)

/-- An operator between two expressions. -/
theorem Casting.apply {x y : Operand} {more more' : List (BinaryOp × Operand)}
    {left₀ left right₀ right : Expr} (h : Casting (CastSequence.operands ⟨x, more⟩) left₀ left)
    (h' : Casting (CastSequence.operands ⟨y, more'⟩) right₀ right) (o₀ o : Origin) :
    Casting (CastSequence.operands ⟨x, more ++ (op, y) :: more'⟩)
      (.expr o₀ (.binary left₀ op right₀)) (.expr o (.binary left op right)) := by
  have happend : CastSequence.operands ⟨x, more ++ (op, y) :: more'⟩ =
      CastSequence.operands ⟨x, more⟩ ++ CastSequence.operands ⟨y, more'⟩ := by
    simp [CastSequence.operands]
  rw [happend]
  exact .binary h h'

namespace ParserState

variable {s s' : ParserState} {k : TokenKind} {ks : List TokenKind} {rest : List Token}

theorem spells_nil (h : s.Spells [] rest) : s.rest = rest := by
  obtain ⟨ts, hrest, hts⟩ := h
  obtain rfl : ts = [] := List.map_eq_nil_iff.1 hts
  exact hrest

/-- The first token and the others. -/
theorem Spells.rest_cons (h : s.Spells (k :: ks) rest) : ∃ t us, s.rest = t :: us ∧ t.kind = k ∧
    ∀ s' : ParserState, s'.rest = us → s'.Spells ks rest := by
  obtain ⟨ts, hrest, hts⟩ := h
  obtain ⟨t, us, rfl, hkind, hus⟩ := List.map_eq_cons_iff.1 hts
  exact ⟨t, us ++ rest, hrest, hkind, fun _ h => ⟨us, h, hus⟩⟩

/-- The first token is a name. -/
theorem Spells.rest_name {name : String} (h : s.Spells (.ident name :: ks) rest) :
    ∃ ident us, s.rest = Ident.token ident :: us ∧ ident.name = name ∧
      ∀ s' : ParserState, s'.rest = us → s'.Spells ks rest := by
  obtain ⟨⟨_, span⟩, us, hrest, rfl, hbehind⟩ := h.rest_cons
  exact ⟨⟨name, span⟩, us, hrest, rfl, hbehind⟩

theorem Spells.kind_eq (h : s.Spells (k :: ks) rest) : s.kind = k := by
  obtain ⟨t, us, hrest, hkind, -⟩ := h.rest_cons
  unfold kind current
  rw [hrest]
  exact hkind

/-- Only what is left to read matters. -/
theorem Spells.moved (h : s.Spells ks rest) (hrest : s'.rest = s.rest) : s'.Spells ks rest := by
  obtain ⟨ts, hts, hkinds⟩ := h
  exact ⟨ts, hrest.trans hts, hkinds⟩

theorem Behind.moved (h : s.Behind others rest) (hrest : s'.rest = s.rest) (hmoved : s.Reaches s') :
    s'.Behind others rest :=
  ⟨h.spells.moved hrest, h.ends.reaches hmoved⟩

/-- What is at hand there. -/
theorem Behind.stands (h : s.Behind others rest) (hsep : Separate cs others) :
    Stands (others.head?.map fun x => .binary x.1) s.kind := by
  cases others with
  | nil =>
    have hends := h.ends.closes
    rw [← spells_nil h.spells] at hends
    exact hends
  | cons x others =>
    rw [show s.kind = x.1.token from h.spells.kind_eq]
    exact hsep.stands

theorem Behind.idle (h : s.Behind others rest) (hsep : Separate cs others) : s.Idle := by
  refine idle_of_stands (h.stands hsep) fun hnone => ?_
  cases others with
  | nil =>
    have hends := h.ends
    rw [← spells_nil h.spells] at hends
    exact hends
  | cons x others => cases hnone

/-- No type arguments begin there. -/
theorem Behind.not_angle (h : s.Behind others rest) (hsep : Separate cs others) (hcs : cs ≠ []) :
    s.kind ≠ .symbol .lAngle := by
  cases others with
  | nil =>
    have hstands : s.kind.canStartValue = false := h.stands hsep
    intro hkind
    rw [hkind] at hstands
    cases hstands
  | cons x others =>
    rw [show s.kind = x.1.token from h.spells.kind_eq]
    exact hsep.not_angle hcs

/-- Behind an operator stands its operand. -/
theorem Behind.step (h : s.Behind ((op, x) :: others) rest) :
    s.Reaches s.advance.skipNewlines ∧ s.advance.skipNewlines.Faces ⟨x, others⟩ rest := by
  obtain ⟨t, us, hrest, -, hbehind⟩ := h.spells.rest_cons
  have hspells : ({ s with rest := us } : ParserState).Spells (x.kinds ++ spelling others) rest :=
    hbehind _ rfl
  obtain ⟨name, vs, hus, -, -⟩ := hspells.rest_name
  obtain rfl : us = name.token :: vs := hus
  rw [advance_operator hrest]
  have hreaches : s.Reaches { s with rest := name.token :: vs, lastSpan := t.span } :=
    ⟨_, _, _, rfl⟩
  exact ⟨hreaches, hbehind _ rfl, h.ends.reaches hreaches⟩

/-- Casts go on with an operand, and where they end nothing else does. -/
theorem Spells.whole (h : s.Spells (cs.flatMap Cast.kinds ++ spelling others) rest)
    (hends : ({ s with rest := rest } : ParserState).Ends) (before : List Cast)
    (hsep : Separate (before ++ cs) others) :
    s.Whole ∧ (before ≠ [] → s.kind ≠ .symbol .lAngle) := by
  cases cs with
  | nil =>
    have hbehind : s.Behind others rest := ⟨h, hends⟩
    rw [List.append_nil] at hsep
    exact ⟨(hbehind.idle hsep).whole, hbehind.not_angle hsep⟩
  | cons c cs =>
    have hkind : s.kind = .keyword (if c.safe then .asSafe else .as_) := h.kind_eq
    refine ⟨⟨fun _ => ?_, ?_, calm_of_kind (by rw [hkind]; exact nofun)⟩, fun _ => ?_⟩
    · rw [hkind]
      cases c.safe <;> simp
    · rw [kindAfterNewlines_eq (by rw [hkind]; exact nofun), hkind]
      exact ⟨nofun, nofun⟩
    · rw [hkind]
      exact nofun

end ParserState

namespace Parse

variable {s s₀ : ParserState} {n m n₀ m₀ : Nat} {e e₀ : Expr} {rest rest₀ : List Token}
  {p p₀ : Parser Expr}

/-- The name of a type is read. -/
theorem type_name {name : Ident} {ts : List Token} {s₁ : ParserState} {g : Grammar}
    (hrest : s.rest = name.token :: ts)
    (hs₁ : s₁ = { s with rest := ts, lastSpan := name.span }) (hwhole : s₁.Whole)
    (hangle : s₁.kind ≠ .symbol .lAngle) :
    ∃ origin span, type (n + 1) g s = .ok (.type origin
      (.pathType (.path false (.ofList [.segment name .nil]) span .empty)))
      { s₁ with nextId := s₁.nextId + 1 } := by
  have hkind : s.kind = .ident name.name := by
    unfold ParserState.kind ParserState.current
    rw [hrest]
    rfl
  refine ⟨⟨⟨s₁.nextId⟩, s₁.spanFrom name.span⟩, s₁.spanFrom name.span, ?_⟩
  unfold type
  rw [bind_run (kind_run s), hkind]
  change (path (n + 1) g true >>= _) s = _
  exact bind_run (path_name (ParserState.current_of_rest hrest)
    (ParserState.advance_whole hrest hs₁ hwhole) hwhole fun _ => hangle)

/-- A cast that is read. -/
theorem casts_step {c : Cast} {t : TypeExpr} {g : Grammar} {s₁ : ParserState}
    (hkind : s.kind = .keyword (if c.safe then .asSafe else .as_))
    (ht : g .type s.advance = .ok t s₁) :
    casts g (n + 1) e s = casts g n
      (.expr ⟨⟨s₁.nextId⟩, e.span.cover t.typeSpan⟩ (.cast e t c.safe))
      { s₁ with nextId := s₁.nextId + 1 } := by
  have hcast : s.kind = .keyword .as_ ∨ s.kind = .keyword .asSafe := by
    rw [hkind]
    cases c.safe <;> simp
  have hsafe : (s.kind == .keyword .asSafe) = c.safe := by
    rw [hkind]
    cases c.safe <;> rfl
  rw [casts]
  refine (bind_run (kind_run s)).trans ?_
  rw [if_pos hcast, hsafe]
  change (g .type >>= _) s.advance = _
  exact (bind_run ht).trans rfl

/-- All casts behind an operand are read, the first one innermost. -/
theorem casts_read (before : List Cast) {inner : Expr}
    (h : s.Spells (cs.flatMap Cast.kinds ++ spelling others) rest)
    (hends : ({ s with rest := rest } : ParserState).Ends) (hsep : Separate (before ++ cs) others)
    (hn : cs.length < n) (he : Likeness.bare.Alike inner e) :
    ∃ e' s', casts (grammar (m + 1)) n e s = .ok e' s' ∧ s.Reaches s' ∧ s'.Behind others rest ∧
      Likeness.bare.Alike (cs.foldl (fun e c => c.apply e) inner) e' := by
  induction cs generalizing s n e inner before with
  | nil =>
    obtain ⟨n, rfl⟩ : ∃ k, n = k + 1 := ⟨n - 1, by omega⟩
    have hbehind : s.Behind others rest := ⟨h, hends⟩
    exact ⟨e, s, casts_idle (hbehind.idle hsep) e, ⟨_, _, _, rfl⟩, hbehind, he⟩
  | cons c cs ih =>
    obtain ⟨n, rfl⟩ : ∃ k, n = k + 1 := ⟨n - 1, by omega⟩
    have hsep' : Separate ((before ++ [c]) ++ cs) others := by
      rw [List.append_assoc]
      exact hsep
    obtain ⟨t, us, hrest, -, hbehind⟩ := h.rest_cons
    have hname : ({ s with rest := us } : ParserState).Spells
        (.ident c.type :: (cs.flatMap Cast.kinds ++ spelling others)) rest := hbehind _ rfl
    obtain ⟨name, vs, hus, htype, hbehind'⟩ := hname.rest_name
    obtain rfl : us = name.token :: vs := hus
    let s₁ : ParserState := { s with rest := name.token :: vs, lastSpan := t.span }
    let s₂ : ParserState := { s₁ with rest := vs, lastSpan := name.span }
    have hadvance : s.advance = s₁ := by
      refine ParserState.advance_calm hrest fun t ht => ?_
      cases ht
      exact Bool.and_false _
    have hspells₂ : s₂.Spells (cs.flatMap Cast.kinds ++ spelling others) rest := hbehind' _ rfl
    have hreaches₂ : s.Reaches s₂ := ⟨_, _, _, rfl⟩
    obtain ⟨hwhole, hangle⟩ := hspells₂.whole (hends.reaches hreaches₂) _ hsep'
    obtain ⟨origin, span, ht⟩ := type_name (n := m) (g := grammar m) (s := s₁) rfl rfl hwhole
      (hangle (by simp))
    have hrun := casts_step (n := n) (e := e) (g := grammar (m + 1)) h.kind_eq
      ((congrArg (grammar (m + 1) .type) hadvance).trans ht)
    have halike := Cast.alike_apply htype he origin span
      ⟨⟨s₂.nextId + 1⟩, e.span.cover origin.span⟩
    obtain ⟨e', s', hcasts, hreaches, hbehind, he'⟩ :=
      ih _ (s := { s₂ with nextId := s₂.nextId + 2 }) (hspells₂.moved rfl)
        (hends.reaches (hreaches₂.trans ⟨_, _, _, rfl⟩)) hsep' (by simpa using hn) halike
    exact ⟨e', s', hrun.trans hcasts, (hreaches₂.trans ⟨_, _, _, rfl⟩).trans hreaches, hbehind, he'⟩

/-- An operand is read with its casts. -/
theorem operand_read {x : Operand} (h : s.Faces ⟨x, others⟩ rest) (hsep : Separate x.casts others)
    (hn : x.casts.length ≤ n) :
    ∃ inner s₁ e s', operand (n + 1) (grammar (m + 1)) s = .ok inner s₁ ∧
      casts (grammar (m + 1)) (n + 1) inner s₁ = .ok e s' ∧ s.Reaches s' ∧ s'.Behind others rest ∧
      Likeness.bare.Alike x.expr e := by
  obtain ⟨name, us, hrest, hname, hbehind⟩ := h.spells.rest_name
  let s₁ : ParserState := { s with rest := us, lastSpan := name.span }
  have hspells : s₁.Spells (x.casts.flatMap Cast.kinds ++ spelling others) rest := hbehind _ rfl
  have hreaches : s.Reaches s₁ := ⟨_, _, _, rfl⟩
  obtain ⟨hwhole, -⟩ := hspells.whole (h.ends.reaches hreaches) [] hsep
  obtain ⟨o, hoperand⟩ := operand_name (n := n) (g := grammar (m + 1))
    (ParserState.current_of_rest hrest) (ParserState.advance_whole hrest rfl hwhole) hwhole
  have halike : Likeness.bare.Alike (Node.expr default (.name ⟨x.name, default⟩ .empty))
      (.expr o (.name name .empty)) :=
    (congrArg (fun name => Node.expr default (.name ⟨name, default⟩ .empty)) hname.symm :)
  obtain ⟨e, s', hcasts, hreaches', hbehind', he⟩ := casts_read (m := m) (n := n + 1)
    (s := { s₁ with nextId := s₁.nextId + 1 }) [] (hspells.moved rfl)
    (h.ends.reaches (hreaches.trans ⟨_, _, _, rfl⟩)) hsep (by omega) halike
  exact ⟨_, _, e, s', hoperand, hcasts, (hreaches.trans ⟨_, _, _, rfl⟩).trans hreaches', hbehind',
    he⟩

/-- Two states in front of the same sequence, the first one without casts. -/
structure BothFace (xs : CastSequence) (rest₀ rest : List Token) (s₀ s : ParserState) : Prop where
  bare : s₀.Faces xs.bare rest₀
  full : s.Faces xs rest
  separate : Separate xs.first.casts xs.others

/-- Two states behind the same operand, the casts that follow left out in the first one. -/
structure BothBehind (others : List (BinaryOp × Operand)) (rest₀ rest : List Token)
    (s₀ s : ParserState) : Prop where
  bare : s₀.Behind (bareOperands others) rest₀
  full : s.Behind others rest
  separate : Separate [] others

/-- Two parsers read as many operands from two states in front of a sequence. Neither reports
anything, and what they give differs in the casts alone. -/
def Carries (p₀ p : Parser Expr) (s₀ s : ParserState) (xs : CastSequence)
    (rest₀ rest : List Token) : Prop :=
  ∃ e₀ s₀' e s' more left, p₀ s₀ = .ok e₀ s₀' ∧ p s = .ok e s' ∧ s₀.Reaches s₀' ∧ s.Reaches s' ∧
    xs.others = more ++ left ∧ BothBehind left rest₀ rest s₀' s' ∧
    Casting (CastSequence.operands ⟨xs.first, more⟩) e₀ e

namespace BothBehind

variable {level : Level}

/-- What the parser finds out about the tokens at hand. -/
theorem seen (h : BothBehind others rest₀ rest s₀ s) :
    Seen (others.head?.map fun x => .binary x.1) s₀.current ∧
      Seen (others.head?.map fun x => .binary x.1) s.current := by
  have hhead : (bareOperands others).head?.map (fun x => InfixOp.binary x.1) =
      others.head?.map fun x => .binary x.1 := by
    cases others <;> rfl
  rw [← hhead]
  exact ⟨(h.bare.stands h.separate.bareOperands).seen, hhead ▸ (h.full.stands h.separate).seen⟩

/-- A level finds the same operator at both. -/
theorem op?_eq (h : BothBehind others rest₀ rest s₀ s) (hlevel : level ∈ Level.all) :
    level.op? s₀.current = level.op? s.current :=
  List.map_inj_left.1 (h.seen.1.levels.trans h.seen.2.levels.symm) level hlevel

/-- Both are in front of a power or neither is. -/
theorem power_iff (h : BothBehind others rest₀ rest s₀ s) :
    s₀.kind = .symbol .power ↔ s.kind = .symbol .power :=
  h.seen.1.power.trans h.seen.2.power.symm

/-- Nothing is assigned. -/
theorem assign_none (h : BothBehind others rest₀ rest s₀ s) :
    AssignOp.ofToken? s₀.kind = none ∧ AssignOp.ofToken? s.kind = none := by
  have hseen := h.seen
  unfold ParserState.kind
  rw [hseen.1.assign, hseen.2.assign]
  cases others <;> exact ⟨rfl, rfl⟩

/-- An operator that is found is the one of the sequence. -/
theorem rest_cons {bop : BinaryOp} (h : BothBehind others rest₀ rest s₀ s)
    (hlevel : level ∈ Level.all) (hop : level.op? s.current = some bop) :
    level ≠ .customNames ∧ ∃ x left, others = (bop, x) :: left := by
  have hmem : level.op? s.current ∈ Level.all.map (·.op? s.current) := List.mem_map_of_mem hlevel
  rw [h.seen.2.levels] at hmem
  obtain ⟨k, -, hk⟩ := List.mem_map.1 hmem
  obtain ⟨hhead, -⟩ := InfixOp.ofStrength_some (hk.trans hop)
  have hstands := h.full.stands h.separate
  rw [hhead] at hstands
  refine ⟨InfixOp.Written.not_names hstands hop, ?_⟩
  cases others with
  | nil => cases hhead
  | cons x left =>
    cases hhead
    exact ⟨x.2, left, rfl⟩

/-- The operator of a power is the one of the sequence. -/
theorem power_cons (h : BothBehind others rest₀ rest s₀ s) (hpower : s.kind = .symbol .power) :
    ∃ x left, others = (.power, x) :: left := by
  have hhead := h.seen.2.power.1 hpower
  cases others with
  | nil => cases hhead
  | cons x left =>
    cases x with
    | mk op x =>
      cases hhead
      exact ⟨x, left, rfl⟩

/-- Behind the next operator there is the next operand. -/
theorem step (h : BothBehind ((op, x) :: others) rest₀ rest s₀ s) :
    s₀.Reaches s₀.advance.skipNewlines ∧ s.Reaches s.advance.skipNewlines ∧
      BothFace ⟨x, others⟩ rest₀ rest s₀.advance.skipNewlines s.advance.skipNewlines := by
  obtain ⟨hreaches₀, hfaces₀⟩ := h.bare.step
  obtain ⟨hreaches, hfaces⟩ := h.full.step
  exact ⟨hreaches₀, hreaches, hfaces₀, hfaces, h.separate.2.2⟩

/-- Numbers do not matter. -/
theorem moved {s₀' s' : ParserState} (h : BothBehind others rest₀ rest s₀ s)
    (hrest₀ : s₀'.rest = s₀.rest) (hrest : s'.rest = s.rest) (hmoved₀ : s₀.Reaches s₀')
    (hmoved : s.Reaches s') : BothBehind others rest₀ rest s₀' s' :=
  ⟨h.bare.moved hrest₀ hmoved₀, h.full.moved hrest hmoved, h.separate⟩

end BothBehind

/-- Powers. -/
theorem power_carries (h : BothFace ⟨x, others⟩ rest₀ rest s₀ s) (hn₀ : others.length < n₀)
    (hm₀ : others.length < m₀) (hn : (CastSequence.kinds ⟨x, others⟩).length ≤ n)
    (hm : (CastSequence.kinds ⟨x, others⟩).length ≤ m) :
    Carries (power n₀ (grammar m₀)) (power n (grammar m)) s₀ s ⟨x, others⟩ rest₀ rest := by
  induction hlength : others.length using Nat.strong_induction_on
    generalizing s₀ s x others n₀ m₀ n m with
  | _ length ih =>
    have hkinds := CastSequence.length_kinds x others
    obtain ⟨n₀, rfl⟩ : ∃ k, n₀ = k + 1 := ⟨n₀ - 1, by omega⟩
    obtain ⟨m₀, rfl⟩ : ∃ k, m₀ = k + 1 := ⟨m₀ - 1, by omega⟩
    obtain ⟨n, rfl⟩ : ∃ k, n = k + 1 := ⟨n - 1, by omega⟩
    obtain ⟨m, rfl⟩ : ∃ k, m = k + 1 := ⟨m - 1, by omega⟩
    obtain ⟨_, _, e₀, t₀, hoperand₀, hcasts₀, hreaches₀, hbehind₀, he₀⟩ :=
      operand_read (n := n₀) (m := m₀) h.bare h.separate.bareOperands (Nat.zero_le n₀)
    obtain ⟨_, _, e, t, hoperand, hcasts, hreaches, hbehind, he⟩ :=
      operand_read (n := n) (m := m) h.full h.separate (by omega)
    have hboth : BothBehind others rest₀ rest t₀ t := ⟨hbehind₀, hbehind, h.separate.weaken⟩
    have hcasting : Casting (CastSequence.operands ⟨x, []⟩) e₀ e := .operand he₀ he
    by_cases hpower : t.kind = .symbol .power
    · obtain ⟨y, left, rfl⟩ := hboth.power_cons hpower
      obtain ⟨hreaches₀', hreaches', hfaces⟩ := hboth.step
      rw [length_spelling_cons] at hkinds
      rw [List.length_cons] at hn₀ hm₀ hlength
      have hcarries : Carries (power (m₀ + 1) (grammar m₀)) (power (m + 1) (grammar m))
          t₀.advance.skipNewlines t.advance.skipNewlines ⟨y, left⟩ rest₀ rest :=
        ih left.length (by omega) hfaces (by omega) (by omega) (by omega) (by omega) rfl
      obtain ⟨right₀, u₀, right, u, more, left', hright₀, hright, hmoved₀, hmoved, rfl, hboth',
        hcasting'⟩ := hcarries
      exact ⟨_, _, _, _, (.power, y) :: more, left',
        power_step hoperand₀ hcasts₀ (hboth.power_iff.2 hpower) hright₀,
        power_step hoperand hcasts hpower hright,
        hreaches₀.trans (hreaches₀'.trans (hmoved₀.trans ⟨_, _, _, rfl⟩)),
        hreaches.trans (hreaches'.trans (hmoved.trans ⟨_, _, _, rfl⟩)), rfl,
        hboth'.moved rfl rfl ⟨_, _, _, rfl⟩ ⟨_, _, _, rfl⟩, hcasting.apply hcasting' _ _⟩
    · exact ⟨e₀, t₀, e, t, [], others, power_stop hoperand₀ hcasts₀ (mt hboth.power_iff.1 hpower),
        power_stop hoperand hcasts hpower, hreaches₀, hreaches, rfl, hboth, hcasting⟩

/-- The operators of a level. -/
theorem chain_carries {level : Level} {more : List (BinaryOp × Operand)} {bound₀ bound : Nat}
    (hlevel : level ∈ Level.all)
    (htighter : ∀ {s₀ s y left}, BothFace ⟨y, left⟩ rest₀ rest s₀ s → left.length < bound₀ →
      (CastSequence.kinds ⟨y, left⟩).length < bound → Carries p₀ p s₀ s ⟨y, left⟩ rest₀ rest)
    (h : BothBehind others rest₀ rest s₀ s)
    (hcasting : Casting (CastSequence.operands ⟨x, more⟩) e₀ e) (hbound₀ : others.length ≤ bound₀)
    (hbound : (spelling others).length ≤ bound) (hn₀ : others.length < n₀)
    (hn : others.length < n) :
    ∃ e₀' s₀' e' s' more' left, chain level p₀ n₀ e₀ s₀ = .ok e₀' s₀' ∧
      chain level p n e s = .ok e' s' ∧ s₀.Reaches s₀' ∧ s.Reaches s' ∧
      others = more' ++ left ∧ BothBehind left rest₀ rest s₀' s' ∧
      Casting (CastSequence.operands ⟨x, more ++ more'⟩) e₀' e' := by
  induction hlength : others.length using Nat.strong_induction_on
    generalizing s₀ s others more e₀ e n₀ n with
  | _ length ih =>
    obtain ⟨n₀, rfl⟩ : ∃ k, n₀ = k + 1 := ⟨n₀ - 1, by omega⟩
    obtain ⟨n, rfl⟩ : ∃ k, n = k + 1 := ⟨n - 1, by omega⟩
    have hop := h.op?_eq hlevel
    cases hfound : level.op? s.current with
    | none =>
      refine ⟨e₀, s₀, e, s, [], others, chain_stop (hop.trans hfound), chain_stop hfound,
        ⟨_, _, _, rfl⟩, ⟨_, _, _, rfl⟩, rfl, h, ?_⟩
      rw [List.append_nil]
      exact hcasting
    | some bop =>
      obtain ⟨hnames, y, others, rfl⟩ := h.rest_cons hlevel hfound
      obtain ⟨hreaches₀, hreaches, hfaces⟩ := h.step
      rw [length_spelling_cons] at hbound
      rw [List.length_cons] at hbound₀ hn₀ hn hlength
      obtain ⟨right₀, t₀, right, t, more', left, hright₀, hright, hmoved₀, hmoved, hothers, hboth,
        hcasting'⟩ := htighter hfaces (by omega) (by omega)
      obtain rfl : others = more' ++ left := hothers
      have hrun₀ := chain_step (n := n₀) (e := e₀) (hop.trans hfound) hnames hright₀
      have hrun := chain_step (n := n) (e := e) hfound hnames hright
      have hshorter : left.length ≤ (more' ++ left).length := by simp
      have hmore₀ : left.length < n₀ := by omega
      have hmore : left.length < n := by omega
      have hsmaller : (spelling left).length ≤ (CastSequence.kinds ⟨y, more' ++ left⟩).length := by
        rw [CastSequence.length_kinds]
        simp [spelling]
        omega
      have hboth' : BothBehind left rest₀ rest { t₀ with nextId := t₀.nextId + 1 }
          { t with nextId := t.nextId + 1 } := hboth.moved rfl rfl ⟨_, _, _, rfl⟩ ⟨_, _, _, rfl⟩
      obtain ⟨e₀', t₀', e', t', more'', left', hchain₀, hchain, hmoved₀', hmoved', hleft, hboth'',
        hcasting''⟩ := ih left.length (by omega) hboth' (hcasting.apply hcasting' _ _)
          (by omega) (by omega) hmore₀ hmore rfl
      refine ⟨e₀', t₀', e', t', (bop, y) :: more' ++ more'', left', hrun₀.trans hchain₀,
        hrun.trans hchain, ?_, ?_, ?_, hboth'', ?_⟩
      · exact hreaches₀.trans (hmoved₀.trans (.trans ⟨_, _, _, rfl⟩ hmoved₀'))
      · exact hreaches.trans (hmoved.trans (.trans ⟨_, _, _, rfl⟩ hmoved'))
      · rw [hleft, List.cons_append, List.cons_append, List.append_assoc]
      · rw [← List.append_assoc]
        exact hcasting''

/-- The operators of several levels, up to the tightest one. -/
theorem binary_carries {levels : List Level} (hlevels : ∀ level ∈ levels, level ∈ Level.all)
    (h : BothFace ⟨x, others⟩ rest₀ rest s₀ s) (hn₀ : others.length < n₀)
    (hm₀ : others.length < m₀) (hn : (CastSequence.kinds ⟨x, others⟩).length ≤ n)
    (hm : (CastSequence.kinds ⟨x, others⟩).length ≤ m) :
    Carries (binary n₀ (grammar m₀) levels) (binary n (grammar m) levels) s₀ s ⟨x, others⟩ rest₀
      rest := by
  induction levels generalizing s₀ s x others with
  | nil => exact power_carries h hn₀ hm₀ hn hm
  | cons level levels ih =>
    have htighter {s₀ s : ParserState} {y : Operand} {left : List (BinaryOp × Operand)}
        (h : BothFace ⟨y, left⟩ rest₀ rest s₀ s) (hlength : left.length < others.length + 1)
        (hkinds : (CastSequence.kinds ⟨y, left⟩).length <
          (CastSequence.kinds ⟨x, others⟩).length + 1) :=
      ih (fun l hl => hlevels l (List.mem_cons_of_mem level hl)) h (by omega) (by omega) (by omega)
        (by omega)
    obtain ⟨e₀, t₀, e, t, more, left, hrun₀, hrun, hmoved₀, hmoved, hothers, hboth, hcasting⟩ :=
      htighter h (Nat.lt_succ_self _) (Nat.lt_succ_self _)
    obtain rfl : others = more ++ left := hothers
    have hkinds := CastSequence.length_kinds x (more ++ left)
    have hspelling : (spelling left).length ≤ (spelling (more ++ left)).length := by
      simp [spelling]
    have hshorter : left.length ≤ (more ++ left).length := by simp
    have hfewer := length_le_spelling left
    have hmore₀ : left.length < n₀ := by omega
    have hmore : left.length < n := by omega
    obtain ⟨e₀', t₀', e', t', more', left', hchain₀, hchain, hmoved₀', hmoved', hleft, hboth',
      hcasting'⟩ := chain_carries (hlevels level List.mem_cons_self) htighter hboth hcasting
        (by omega) (by omega) hmore₀ hmore
    refine ⟨e₀', t₀', e', t', more ++ more', left', (bind_run hrun₀).trans hchain₀,
      (bind_run hrun).trans hchain, hmoved₀.trans hmoved₀', hmoved.trans hmoved', ?_, hboth',
      hcasting'⟩
    rw [hleft, List.append_assoc]

/-- Nothing is assigned, so that is the whole expression. -/
theorem expr_carries (h : BothFace ⟨x, others⟩ rest₀ rest s₀ s) (hn₀ : others.length < n₀)
    (hm₀ : others.length < m₀) (hn : (CastSequence.kinds ⟨x, others⟩).length ≤ n)
    (hm : (CastSequence.kinds ⟨x, others⟩).length ≤ m) :
    Carries (expr n₀ (grammar m₀)) (expr n (grammar m)) s₀ s ⟨x, others⟩ rest₀ rest := by
  obtain ⟨e₀, t₀, e, t, more, left, hrun₀, hrun, hmoved₀, hmoved, hothers, hboth, hcasting⟩ :=
    binary_carries (fun _ hlevel => hlevel) h hn₀ hm₀ hn hm
  obtain ⟨hassign₀, hassign⟩ := hboth.assign_none
  have hstop {n : Nat} {g : Grammar} {s t : ParserState} {e : Expr}
      (hrun : binary n g Level.all s = .ok e t) (hassign : AssignOp.ofToken? t.kind = none) :
      expr n g s = .ok e t := by
    refine (bind_run hrun).trans ((bind_run (kind_run t)).trans ?_)
    rw [hassign]
    rfl
  exact ⟨e₀, t₀, e, t, more, left, hstop hrun₀ hassign₀, hstop hrun hassign, hmoved₀, hmoved,
    hothers, hboth, hcasting⟩

/-- Names with operators between them are a sequence of names. -/
theorem spelled_bare {ts : List Token} (hsep : Separate cs others)
    (hts : ts.map (·.kind) = spelling (bareOperands others)) :
    ∃ names : List (InfixOp × Ident), Spelled names ts ∧ names.length = others.length := by
  induction others generalizing ts cs with
  | nil =>
    obtain rfl : ts = [] := List.map_eq_nil_iff.1 hts
    exact ⟨[], .nil, rfl⟩
  | cons y others ih =>
    obtain ⟨op, x⟩ := y
    obtain ⟨t, us, rfl, hkind, hus⟩ := List.map_eq_cons_iff.1 hts
    obtain ⟨⟨_, span⟩, vs, rfl, rfl, hvs⟩ := List.map_eq_cons_iff.1 hus
    obtain ⟨names, hspelled, hlength⟩ := ih hsep.2.2 hvs
    refine ⟨(.binary op, ⟨x.name, span⟩) :: names, .cons ?_ hspelled, congrArg (· + 1) hlength⟩
    rw [hkind]
    exact hsep.stands

/-- Names are read to the end of the expression. -/
theorem expr_bare (h : s.Faces (CastSequence.bare ⟨x, others⟩) rest) (hsep : Separate cs others)
    (hn : others.length < n) (hm : others.length ≤ m) :
    ∃ e s', expr n (grammar m) s = .ok e s' ∧ s'.rest = rest := by
  obtain ⟨name, us, hrest, -, hbehind⟩ := h.spells.rest_name
  obtain ⟨ts, hus, hts⟩ := hbehind { s with rest := us } rfl
  obtain ⟨names, hspelled, hlength⟩ := spelled_bare hsep hts
  have hopens : s.Opens name names rest :=
    ⟨us, hrest, ⟨ts, hspelled, hus⟩, h.ends.reaches ⟨_, _, _, rfl⟩⟩
  obtain ⟨e, s', left, hrun, -, hs', -, hhead⟩ :=
    expr_takes hopens (hlength.trans_lt hn) (hlength.trans_le hm)
  obtain rfl : left = [] := by
    cases left with
    | nil => rfl
    | cons x left => exact absurd (hhead x rfl) (Nat.not_lt_zero _)
  exact ⟨e, s', hrun, hs'.rest_eq⟩

/-- Casts bind tighter than all operators between operands. Names with casts and operators between
them, none of the operators `<` directly behind a cast, are read to the end of the expression and
without errors, and so are the names alone. The two results are the same but for the casts, which
are around their names and nowhere else. -/
theorem casts_tightest {xs : CastSequence} (hsep : Separate xs.first.casts xs.others)
    (h₀ : s₀.Faces xs.bare rest₀) (h : s.Faces xs rest)
    (hn₀ : s₀.rest.length < n₀) (hm₀ : s₀.rest.length ≤ m₀)
    (hn : s.rest.length < n) (hm : s.rest.length ≤ m) :
    ∃ e₀ s₀' e s', expr n₀ (grammar m₀) s₀ = .ok e₀ s₀' ∧ s₀'.rest = rest₀ ∧ s₀.Reaches s₀' ∧
      expr n (grammar m) s = .ok e s' ∧ s'.rest = rest ∧ s.Reaches s' ∧
      Casting xs.operands e₀ e := by
  obtain ⟨x, others⟩ := xs
  have hlength₀ : others.length < s₀.rest.length := by
    obtain ⟨ts, hrest, hts⟩ := h₀.spells
    have hcount := congrArg List.length hts
    have hfewer := length_le_spelling (bareOperands others)
    rw [List.length_map, CastSequence.bare, CastSequence.length_kinds] at hcount
    rw [length_bareOperands] at hfewer
    rw [hrest, List.length_append]
    dsimp only at hcount
    omega
  have hlength : (CastSequence.kinds ⟨x, others⟩).length ≤ s.rest.length := by
    obtain ⟨ts, hrest, hts⟩ := h.spells
    rw [hrest, ← hts, List.length_append, List.length_map]
    exact Nat.le_add_right _ _
  obtain ⟨e₀, s₀', e, s', more, left, hrun₀, hrun, hmoved₀, hmoved, hothers, hboth, hcasting⟩ :=
    expr_carries ⟨h₀, h, hsep⟩ (hlength₀.trans hn₀) (hlength₀.trans_le hm₀)
      (hlength.trans hn.le) (hlength.trans hm)
  obtain ⟨_, _, hbare, hend⟩ := expr_bare (n := n₀) (m := m₀) h₀ hsep (hlength₀.trans hn₀)
    (hlength₀.le.trans hm₀)
  obtain ⟨-, rfl⟩ : _ ∧ s₀' = _ := by simpa using hrun₀.symm.trans hbare
  -- The names alone are read to the end, so nothing is left of the operands with casts either.
  obtain rfl : left = [] := by
    obtain ⟨ts, hts, hkinds⟩ := hboth.bare.spells
    have hcount := congrArg List.length hkinds
    have hfewer := length_le_spelling (bareOperands left)
    rw [length_bareOperands] at hfewer
    obtain rfl : ts = [] := by simpa [hend] using hts
    refine List.length_eq_zero_iff.1 ?_
    rw [List.map_nil, List.length_nil] at hcount
    omega
  obtain rfl : others = more := hothers.trans (List.append_nil more)
  exact ⟨e₀, s₀', e, s', hrun₀, hend, hmoved₀, hrun, ParserState.spells_nil hboth.full.spells,
    hmoved, hcasting⟩

/-- The chain `a as A * b as? B as C ** c < d` on a line of its own. -/
theorem casts_tightest_mixed :
    let xs : CastSequence := ⟨⟨"a", [⟨false, "A"⟩]⟩, [(.mul, ⟨"b", [⟨true, "B"⟩, ⟨false, "C"⟩]⟩),
      (.power, ⟨"c", []⟩), (.lt, ⟨"d", []⟩)]⟩
    let tokens := tokensOf xs.kinds
    let names := tokensOf xs.bare.kinds
    let mark : Token := ⟨.newline, default⟩
    ∃ e₀ s₀ e s, expr 9 (grammar 8) (.start ⟨0⟩ (names ++ [mark])) = .ok e₀ s₀ ∧ s₀.rest = [mark] ∧
      s₀.diagnostics = [] ∧
      expr 15 (grammar 14) (.start ⟨0⟩ (tokens ++ [mark])) = .ok e s ∧ s.rest = [mark] ∧
      s.diagnostics = [] ∧ Casting xs.operands e₀ e := by
  intro xs tokens names mark
  have hfaces₀ : (ParserState.start ⟨0⟩ (names ++ [mark])).Faces xs.bare [mark] :=
    ⟨⟨names, rfl, rfl⟩, rfl, fun _ => rfl, nofun, nofun⟩
  have hfaces : (ParserState.start ⟨0⟩ (tokens ++ [mark])).Faces xs [mark] :=
    ⟨⟨tokens, rfl, rfl⟩, rfl, fun _ => rfl, nofun, nofun⟩
  have hsep : Separate xs.first.casts xs.others :=
    ⟨nofun, nofun, nofun, nofun, nofun, fun _ => rfl, trivial⟩
  have hlength₀ : (ParserState.start ⟨0⟩ (names ++ [mark])).rest.length = 8 := rfl
  have hlength : (ParserState.start ⟨0⟩ (tokens ++ [mark])).rest.length = 14 := rfl
  obtain ⟨e₀, s₀, e, s, hrun₀, hrest₀, ⟨_, _, _, hs₀⟩, hrun, hrest, ⟨_, _, _, hs⟩, hcasting⟩ :=
    casts_tightest hsep hfaces₀ hfaces (Nat.lt_succ_self _) (Nat.le_refl _) (Nat.lt_succ_self _)
      (Nat.le_refl _)
  rw [hlength₀] at hrun₀
  rw [hlength] at hrun
  exact ⟨e₀, s₀, e, s, hrun₀, hrest₀, hs₀ ▸ rfl, hrun, hrest, hs ▸ rfl, hcasting⟩

/-- Behind a cast `<` is no operator: the chain `x as T < y` on a line of its own is not read. -/
theorem casts_lt_unread :
    let xs : CastSequence := ⟨⟨"x", [⟨false, "T"⟩]⟩, [(.lt, ⟨"y", []⟩)]⟩
    let mark : Token := ⟨.newline, default⟩
    let start : ParserState := .start ⟨0⟩ (tokensOf xs.kinds ++ [mark])
    start.Faces xs [mark] ∧ ∃ error s, expr 7 (grammar 6) start = .error error s := by
  intro xs mark start
  exact ⟨⟨⟨tokensOf xs.kinds, rfl, rfl⟩, rfl, fun _ => rfl, nofun, nofun⟩, _, _, rfl⟩

end Parse

end FrontEnd
