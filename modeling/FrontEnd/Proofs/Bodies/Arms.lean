import FrontEnd.Proofs.Bodies.Expressions
import FrontEnd.Proofs.Printing.Generics

/-!
# Entries of a choice

The entries of a choice stand on lines of their own: literals between commas, or `else`, then an
arrow and the text of an expression. They are read line by line, where the next line does not go on
with the expression.
-/

namespace FrontEnd

open Parse

/-- What stands in front of the body of an entry: its conditions, or that it is taken otherwise. -/
def armFront : List Literal → List Piece
  | [] => [⟨.keyword .else_, true⟩, .wide .doubleArrow]
  | [l] => [⟨l.token, true⟩, .wide .doubleArrow]
  | l :: l' :: ls => ⟨l.token, false⟩ :: .wide .comma :: armFront (l' :: ls)

/-- The kinds of its tokens. -/
def armKinds (ls : List Literal) : List TokenKind := (armFront ls).map (·.kind)

/-- Where no angle brackets are, every piece is a token. -/
theorem fused_eq_kinds {ps : List Piece} (h : ∀ p ∈ ps, p.kind ≠ .symbol .rAngle) :
    fused ps = ps.map (·.kind) := by
  induction ps using fused.induct with
  | case1 blank ps => exact absurd rfl (h _ List.mem_cons_self)
  | case2 p ps hother ih =>
    rw [fused, ih fun q hq => h q (List.mem_cons_of_mem p hq)]
    · rfl
    · exact hother
  | case3 => rfl

/-- A literal is no angle bracket. -/
theorem Literal.Written.not_rAngle {l : Literal} (h : l.Written) : l.token ≠ .symbol .rAngle := by
  intro hangle
  have hself := h.1
  rw [hangle] at hself
  cases hself

/-- What stands in front of a body fits together, and ends with a blank. -/
theorem armFront_fits {ls : List Literal} (h : ∀ l ∈ ls, l.Written) :
    (∀ p ∈ armFront ls, p.kind.Legible ∧ p.kind ≠ .symbol .rAngle) ∧
      (armFront ls).IsChain Piece.Before ∧ (armFront ls).getLast? = some (.wide .doubleArrow) := by
  have harrow (p : Piece) (hp : p.kind.Legible ∧ p.kind ≠ .symbol .rAngle)
    (hblank : p.blank = true) :
      (∀ q ∈ [p, .wide .doubleArrow], q.kind.Legible ∧ q.kind ≠ .symbol .rAngle) ∧
        [p, .wide .doubleArrow].IsChain Piece.Before ∧
        [p, .wide .doubleArrow].getLast? = some (.wide .doubleArrow) :=
    ⟨List.forall_mem_cons.2 ⟨hp, List.forall_mem_singleton.2 ⟨rfl, by simp⟩⟩,
      List.isChain_cons_cons.2 ⟨Piece.before_blank hblank, .singleton _⟩, rfl⟩
  induction ls using armFront.induct with
  | case1 => exact harrow _ ⟨by simp [TokenKind.Legible], by simp⟩ rfl
  | case2 l =>
    have hl := h l List.mem_cons_self
    exact harrow _ ⟨hl.2, hl.not_rAngle⟩ rfl
  | case3 l l' ls ih =>
    obtain ⟨hl, hothers⟩ := List.forall_mem_cons.1 h
    obtain ⟨hkinds, hjoined, hlast⟩ := ih hothers
    have hends : Piece.Ends ⟨l.token, false⟩ := hl.ends
    unfold armFront
    refine ⟨?_, ?_, ?_⟩
    · exact List.forall_mem_cons.2 ⟨⟨hl.2, hl.not_rAngle⟩, List.forall_mem_cons.2
        ⟨⟨rfl, by simp⟩, hkinds⟩⟩
    · exact List.isChain_cons.2 ⟨by rintro _ ⟨⟩; exact Piece.ends_before hends rfl,
        List.isChain_cons.2 ⟨fun q _ => Piece.before_blank rfl, hjoined⟩⟩
    · rw [List.getLast?_cons, List.getLast?_cons, hlast]
      rfl

open Lexer.Place in
/-- It may stand where no angle brackets are open, and opens none. -/
theorem armFront_admits {ls : List Literal} (h : ∀ l ∈ ls, l.Written) {p : Lexer.Place}
    (hp : p.angles = 0) : p.AdmitsAll (armFront ls) ∧ p.passing (armFront ls) = ⟨0, false⟩ := by
  have hliteral {l : Literal} (hl : l.Written) {p : Lexer.Place} (hp : p.angles = 0) :
      p.Admits l.token ∧ (p.after l.token).angles = 0 := by
    obtain ⟨angles, start⟩ := p
    obtain rfl : angles = 0 := hp
    obtain ⟨-, -, hangles⟩ := Node.literal_fits hl 0
    refine ⟨?_, hangles⟩
    have hself := hl.1
    generalize l.token = k at hself
    unfold Admits
    split
    · cases hself
    · exact Or.inl rfl
    · trivial
  have harrow {p : Lexer.Place} (hp : p.angles = 0) :
      p.AdmitsAll [.wide .doubleArrow] ∧ p.passing [.wide .doubleArrow] = ⟨0, false⟩ := by
    obtain ⟨angles, start⟩ := p
    obtain rfl : angles = 0 := hp
    exact ⟨⟨trivial, trivial⟩, rfl⟩
  induction ls using armFront.induct generalizing p with
  | case1 =>
    obtain ⟨angles, start⟩ := p
    obtain rfl : angles = 0 := hp
    exact ⟨⟨trivial, trivial, trivial⟩, rfl⟩
  | case2 l =>
    obtain ⟨hadmits, hangles⟩ := hliteral (h l List.mem_cons_self) hp
    obtain ⟨hothers, hpassing⟩ := harrow hangles
    exact ⟨⟨hadmits, hothers⟩, hpassing⟩
  | case3 l l' ls ih =>
    obtain ⟨hl, hothers⟩ := List.forall_mem_cons.1 h
    obtain ⟨hadmits, hangles⟩ := hliteral hl hp
    have hcomma : ((p.after l.token).after (.symbol .comma)).angles = 0 := hangles
    obtain ⟨hadmits', hpassing⟩ := ih hothers hcomma
    exact ⟨⟨hadmits, trivial, hadmits'⟩, hpassing⟩

/-- Pieces in front of a text are scanned into their tokens, where they lead to a place like the
start of a text. -/
theorem ScansAs.behind {file : FileId} {text : String} {ks : List TokenKind} {ps : List Piece}
    (h : ScansAs file text ks) (hlegible : ∀ p ∈ ps, p.kind.Legible)
    (hjoined : ps.IsChain Piece.Before) (hlast : ∀ p ∈ ps.getLast?, p.blank = true)
    (hplace : Lexer.Place.AdmitsAll ⟨0, false⟩ ps)
    (hpassing : Lexer.Place.passing ⟨0, false⟩ ps = ⟨0, false⟩) :
    ScansAs file (String.ofList (FrontEnd.written ps) ++ text) (fused ps ++ ks) := by
  obtain ⟨tokens, ⟨lexed, hlex, htokens⟩, rfl⟩ := h
  obtain ⟨ctx, ts, hctx, hfile, hts, hscans⟩ := Lexer.scans_pieces (.start file)
    (z := text.toList) hlegible hjoined (fun p hp => Or.inl (hlast p hp)) hplace
  have halike : (Lexer.Context.start file).Alike ctx :=
    Lexer.Context.alike_of_place (hpassing.symm.trans hctx.symm)
  have hmoved := (lex_scans hlex).moved halike (d := ctx.pos) hfile (Nat.zero_add _).symm
  obtain ⟨starts, hboth⟩ := hscans hmoved
  have htext : FrontEnd.written ps ++ text.toList =
      (String.ofList (FrontEnd.written ps) ++ text).toList := by
    rw [String.toList_append, String.toList_ofList]
  rw [htext] at hboth
  have hlex' := lex_of_scans hboth
  obtain ⟨_, hsame, hwhole⟩ := (ScansTo.of_lex hlex').1
  obtain rfl := Except.ok.inj (hlex'.symm.trans hsame)
  rw [htokens, List.map_append, ← List.append_assoc] at hlex' hwhole
  obtain ⟨hfront, -⟩ := List.append_inj' hwhole rfl
  refine ⟨_, (ScansTo.of_lex hlex').1, ?_⟩
  rw [← hfront, List.map_append, hts, kinds_moved]

/-- Conditions begin with a literal. -/
theorem armKinds_cons (l : Literal) (ls : List Literal) :
    ∃ ks, armKinds (l :: ls) = l.token :: ks := by
  cases ls <;> exact ⟨_, rfl⟩

/-- Literals as expressions, up to likeness. -/
def literals (ls : List Literal) : List Expr := ls.map fun l => .expr default (.literal l)

/-- An entry of a choice, up to likeness. -/
def armEntry (ls : List Literal) (e : Expr) : Node .selectEntry :=
  .selectEntry default (.ofList (literals ls)) e

namespace InBlock

variable {half : Bool} {t : ParserState} {n : Nat}

/-- Numbers may be given out. -/
theorem numbered {rest : List Token} (h : InBlock half 0 rest t) (i : Nat) :
    InBlock half 0 rest { t with nextId := i } :=
  ⟨⟨h.sound.final, h.sound.rest⟩, h.rest, h.groups, h.brace, h.half, h.count⟩

/-- A literal in front of a comma or an arrow is an expression. -/
theorem literal {x y : Token} {xs : List Token} {l : Literal} {g : Grammar}
    (h : InBlock half 0 (x :: y :: xs) t) (hl : Literal.ofToken? x.kind = some l)
    (hy : y.kind = .symbol .comma ∨ y.kind = .symbol .doubleArrow) : ∃ o t',
      expr (n + 1) g t = .ok (.expr o (.literal l)) t' ∧ InBlock half 0 (y :: xs) t' := by
  have hcloses : Closes y := hy.elim (fun hcomma => .of_canStartValue (by rw [hcomma]; rfl))
    Closes.doubleArrow
  have hplain : ignoresNewlines t.groups = false := by
    rw [h.groups]
    rfl
  have hthere := h.stepped
  rw [ParserState.advance_outside h.rest hplain] at hthere
  have hidle : ({ t with rest := y :: xs, lastSpan := x.span } : ParserState).Idle := by
    refine ParserState.idle_of_kind hcloses.detached ?_
    rw [hthere.kind]
    rcases hy with hy | hy <;> simp [hy]
  obtain ⟨o, hoperand⟩ := operand_literal (n := n) (g := g) h.rest hl rfl hidle
  exact ⟨o, _, expr_operand hoperand ⟨hidle.detached, hidle.behind, hidle.calm⟩ hcloses,
    hthere.numbered _⟩

/-- Literals between commas are the conditions of an entry. -/
theorem conditions {l : Literal} {ls : List Literal} {ks : List TokenKind} {k : Nat}
    (h : InBlock half 0 t.rest t) (hrest : t.rest.map (·.kind) = armKinds (l :: ls) ++ ks)
    (hwritten : ∀ x ∈ l :: ls, x.Written) (hk : ls.length < k) : ∃ es t',
      entryConditions (grammar (n + 1)) k t = .ok es t' ∧
      Likeness.bare.Alike (literals (l :: ls)) es ∧
      InBlock half 0 t'.rest t' ∧ t'.rest.map (·.kind) = .symbol .doubleArrow :: ks := by
  induction ls generalizing t l k with
  | nil =>
    obtain ⟨k, rfl⟩ : ∃ k', k = k' + 1 := ⟨k - 1, by omega⟩
    obtain ⟨x, _, htokens, hx, htail⟩ := List.map_eq_cons_iff.1 hrest
    obtain ⟨y, xs, rfl, hy, htail⟩ := List.map_eq_cons_iff.1 htail
    have hl : Literal.ofToken? x.kind = some l := hx ▸ (hwritten l List.mem_cons_self).1
    rw [htokens] at h
    obtain ⟨o, t', hrun, hthere⟩ := h.literal (n := n) (g := grammar n) hl (Or.inr hy)
    have hrest' : t'.rest = y :: xs := hthere.rest
    refine ⟨[.expr o (.literal l)], t', ?_, rfl, hrest'.symm ▸ hthere, ?_⟩
    · unfold entryConditions
      refine (bind_run (show grammar (n + 1) .expr t = _ from hrun)).trans ?_
      refine (bind_run ((accept_run (.symbol .comma) t').trans (if_neg ?_))).trans rfl
      rw [hthere.kind, hy]
      simp
    · rw [hrest', List.map_cons, hy]
      exact congrArg _ htail
  | cons l' ls ih =>
    obtain ⟨k, rfl⟩ : ∃ k', k = k' + 1 := ⟨k - 1, by omega⟩
    obtain ⟨hl, hothers⟩ := List.forall_mem_cons.1 hwritten
    obtain ⟨x, _, htokens, hx, htail⟩ := List.map_eq_cons_iff.1 hrest
    obtain ⟨y, xs, rfl, hy, htail⟩ := List.map_eq_cons_iff.1 htail
    rw [htokens] at h
    obtain ⟨o, t₁, hrun, hthere⟩ := h.literal (n := n) (g := grammar n)
      ((congrArg _ hx).trans hl.1) (Or.inl hy)
    have hbehind := hthere.stepped
    have hrest₂ : t₁.advance.rest = xs := hbehind.rest
    -- Behind the comma stands the next literal, and no line break.
    have hstays : t₁.advance.skipNewlines = t₁.advance := by
      obtain ⟨ks', hks'⟩ := armKinds_cons l' ls
      have hkinds : xs.map (·.kind) = l'.token :: (ks' ++ ks) := by
        rw [htail]
        exact congrArg (· ++ ks) hks'
      obtain ⟨x', xs, rfl, hx', -⟩ := List.map_eq_cons_iff.1 hkinds
      refine ParserState.skipWhile_stays (p := fun k => decide (k = .newline)) ?_
      rw [hbehind.kind, hx']
      exact decide_eq_false (Node.literal_fits (hothers l' List.mem_cons_self) 0).1.2
    obtain ⟨es, t', hmore, hes, hlast, hkinds⟩ := ih (t := t₁.advance) (k := k)
      (hrest₂.symm ▸ hbehind) (hrest₂.symm ▸ htail) hothers (by rw [List.length_cons] at hk; omega)
    refine ⟨.expr o (.literal l) :: es, t', ?_, ?_, hlast, hkinds⟩
    · unfold entryConditions
      refine (bind_run (show grammar (n + 1) .expr t = _ from hrun)).trans ?_
      refine (bind_run ((accept_run (.symbol .comma) t₁).trans
        (if_pos (hthere.kind.trans hy)))).trans ?_
      change (entryConditions (grammar (n + 1)) k >>= _) t₁.advance.skipNewlines = _
      rw [hstays]
      exact bind_run hmore
    · have hfirst : Likeness.bare.Alike (.expr default (.literal l) : Expr)
        (.expr o (.literal l)) := rfl
      exact hfirst.cons hes

/-- What stands in front of a body is read up to the arrow, and then the body. -/
theorem arm {ls : List Literal} {e : Expr} {size m : Nat} {ks next : List TokenKind}
    (h : InBlock false 0 t.rest t)
    (hrest : t.rest.map (·.kind) = armKinds ls ++ (ks ++ .newline :: next))
    (hwritten : ∀ l ∈ ls, l.Written) (hn : ls.length ≤ n) (hm : size ≤ m)
    (hbody : ReadsInFront e half size ks next) :
    ∃ z t', selectEntry n (grammar (m + 1)) t = .ok z t' ∧
      Likeness.bare.Alike (armEntry ls e) z ∧ InBlock half 0 t'.atStatement.rest t'.atStatement ∧
      t'.atStatement.rest.map (·.kind) = next := by
  -- Behind the conditions, the arrow is stepped over and the body is read.
  have hbehind {es : List Expr} {t₁ : ParserState} (hes : Likeness.bare.Alike (literals ls) es)
      (hthere : InBlock false 0 t₁.rest t₁)
      (hrest₁ : t₁.rest.map (·.kind) = .symbol .doubleArrow :: (ks ++ .newline :: next))
      (hrun : ∀ after : List Expr → Parser (Node .selectEntry), (do
        if ← accept (.keyword .else_) then after []
        else after (← entryConditions (grammar (m + 1)) n))
          t = after es t₁) : ∃ z t', selectEntry n (grammar (m + 1)) t = .ok z t' ∧
      Likeness.bare.Alike (armEntry ls e) z ∧ InBlock half 0 t'.atStatement.rest t'.atStatement ∧
      t'.atStatement.rest.map (·.kind) = next := by
    obtain ⟨x, xs, htokens, hx, htail⟩ := List.map_eq_cons_iff.1 hrest₁
    rw [htokens] at hthere
    have hinside := hthere.stepped
    have hrest₂ : t₁.advance.rest = xs := hinside.rest
    obtain ⟨z, t', hexpr, hz, hlast, hkinds⟩ := hbody (n := m + 1) (m := m)
      (hrest₂.symm ▸ hinside) (hrest₂.symm ▸ htail) (by omega) hm
    have hentry : selectEntry n (grammar (m + 1)) t = (do
        let span ← spanFrom t.current.span
        return .selectEntry (← origin span) (.ofList es) z : Parser (Node .selectEntry)) t' := by
      unfold selectEntry
      refine (bind_run (show here t = .ok t.current.span t from rfl)).trans ?_
      refine (hrun _).trans ((bind_run (discard_expect (hthere.kind.trans hx))).trans ?_)
      change (grammar (m + 1) .expr >>= _) t₁.advance.skipNewlines = _
      exact bind_run hexpr
    refine ⟨_, _, hentry, ?_, hlast.numbered _, hkinds⟩
    exact (congr (congrArg (Node.selectEntry default) hes.ofList) hz :)
  cases ls with
  | nil =>
    obtain ⟨x, xs, htokens, hx, htail⟩ := List.map_eq_cons_iff.1 hrest
    rw [htokens] at h
    have hthere := h.stepped
    have hrest₁ : t.advance.rest = xs := hthere.rest
    have hnone : Likeness.bare.Alike (literals []) [] := rfl
    rw [← hrest₁] at hthere htail
    refine hbehind hnone hthere htail fun after => ?_
    exact bind_run ((accept_run (.keyword .else_) t).trans (if_pos (h.kind.trans hx)))
  | cons l ls =>
    obtain ⟨es, t₁, hrun, hes, hthere, hrest₁⟩ := h.conditions (n := m) (k := n) hrest hwritten hn
    refine hbehind hes hthere hrest₁ fun after => ?_
    have hkind : t.kind = l.token := by
      obtain ⟨ks', hks'⟩ := armKinds_cons l ls
      rw [hks', List.cons_append] at hrest
      obtain ⟨x, xs, htokens, hx, -⟩ := List.map_eq_cons_iff.1 hrest
      exact (ParserState.kind_cons htokens).trans hx
    have hother : t.kind ≠ .keyword .else_ := by
      intro helse
      have hself := (hwritten l List.mem_cons_self).1
      rw [← hkind, helse] at hself
      cases hself
    refine (bind_run ((accept_run (.keyword .else_) t).trans (if_neg hother))).trans ?_
    exact bind_run hrun

end InBlock

/-- What stands in front of a body begins with a literal or with `else`. -/
theorem armKinds_head {ls : List Literal} (h : ∀ l ∈ ls, l.Written) :
    ∃ k ks, armKinds ls = k :: ks ∧ ((Literal.ofToken? k).isSome = true ∨ k = .keyword .else_) := by
  cases ls with
  | nil => exact ⟨_, _, rfl, Or.inr rfl⟩
  | cons l ls =>
    obtain ⟨ks, hks⟩ := armKinds_cons l ls
    exact ⟨_, ks, hks, Or.inl (by rw [(h l List.mem_cons_self).1]; rfl)⟩

/-- Entries of a choice on lines of their own up to the brace behind them: the entries, and the
kinds of all tokens. The flag tells whether half of a `>>` is left over from before; only the brace
may come behind one. -/
inductive ArmLines (size : Nat) : Bool → List (Node .selectEntry) → List TokenKind → Prop
  | close (half : Bool) : ArmLines size half [] [.symbol .rBrace]
  | arm {ls : List Literal} {e : Expr} {half : Bool} {entries : List (Node .selectEntry)}
    {ks later : List TokenKind} (written : ∀ l ∈ ls, l.Written) (few : ls.length ≤ size)
    (body : ReadsInFront e half size ks later) (others : ArmLines size half entries later) :
    ArmLines size false (armEntry ls e :: entries) (armKinds ls ++ (ks ++ .newline :: later))

namespace ArmLines

variable {size : Nat} {half : Bool} {entries : List (Node .selectEntry)} {ks : List TokenKind}

/-- They begin with no separator, and with a brace only where there are none. -/
theorem head (h : ArmLines size half entries ks) : ∃ k ks', ks = k :: ks' ∧ k ≠ .newline ∧
    k ≠ .symbol .semi ∧ k ≠ .symbol .comma ∧ k ≠ .eof ∧ (k = .symbol .rBrace ↔ entries = []) := by
  cases h with
  | close => exact ⟨_, _, rfl, by simp⟩
  | arm written few body others =>
    obtain ⟨k, ks', hks, hk⟩ := armKinds_head written
    refine ⟨k, _, congrArg (· ++ _) hks, ?_⟩
    obtain hliteral | rfl := hk
    · obtain ⟨l, hl⟩ := Option.isSome_iff_exists.1 hliteral
      obtain ⟨_, _, rfl⟩ | rfl | rfl := literal_token hl
      all_goals simp
    · simp

/-- There are no more of them than tokens. -/
theorem length_le (h : ArmLines size half entries ks) : entries.length ≤ ks.length := by
  induction h with
  | close => exact Nat.zero_le _
  | arm written few body others ih =>
    rw [List.length_cons, List.length_append, List.length_append, List.length_cons]
    omega

/-- Behind the separators in front of them, they are at hand. -/
theorem skipped (h : ArmLines size half entries ks) {t : ParserState}
    (hgroups : ignoresNewlines t.groups = false) (hks : t.atStatement.rest.map (·.kind) = ks) :
    skipSeparators t = .ok () t.atStatement := by
  obtain ⟨k, ks', rfl, hnewline, hsemi, hcomma, -⟩ := h.head
  obtain ⟨x, xs, hrest, hx, -⟩ := List.map_eq_cons_iff.1 hks
  refine congrArg (EStateM.Result.ok ()) (ParserState.skipWhile_more (fun k hk => ?_) ?_ hgroups)
  · have hmark : k = .newline ∨ k = .symbol .semi := of_decide_eq_true hk
    exact decide_eq_true (hmark.imp_right Or.inl)
  · change decide (t.atStatement.kind = _ ∨ t.atStatement.kind = _ ∨ t.atStatement.kind = _) = false
    rw [ParserState.kind_cons hrest, hx]
    exact decide_eq_false (not_or.2 ⟨hnewline, not_or.2 ⟨hsemi, hcomma⟩⟩)

/-- They are the entries up to the brace. -/
theorem selectEntries (h : ArmLines size half entries ks) {t : ParserState} {k n m : Nat}
    (ht : InBlock half 0 t.rest t) (hks : t.rest.map (·.kind) = ks) (hk : entries.length < k)
    (hn : size ≤ n) (hm : size ≤ m) : ∃ zs t' mark half',
      Parse.selectEntries n (grammar (m + 1)) k t = .ok zs t' ∧ Likeness.bare.Alike entries zs ∧
      mark.kind = .symbol .rBrace ∧ InBlock half' 0 [mark] t' := by
  obtain ⟨k, rfl⟩ : ∃ k', k = k' + 1 := ⟨k - 1, by omega⟩
  induction h generalizing t k with
  | close half =>
    obtain ⟨mark, hrest, hmark⟩ := List.map_eq_singleton_iff.1 hks
    rw [hrest] at ht
    refine ⟨[], t, mark, half, ?_, rfl, hmark, ht⟩
    unfold Parse.selectEntries
    change (if (t.kind == .symbol .rBrace) = true ∨ (t.kind == .eof) = true then _ else _ :
      Parser (List (Node .selectEntry))) t = _
    rw [if_pos (Or.inl (beq_iff_eq.2 (ht.kind.trans hmark)))]
    rfl
  | @arm ls e half entries ks later written few body others ih =>
    obtain ⟨z, t₁, hrun, hz, hthere, hkinds⟩ :=
      ht.arm (n := n) hks written (few.trans hn) hm body
    have hskip : skipSeparators t₁ = .ok () t₁.atStatement :=
      others.skipped (t := t₁) (by rw [show t₁.groups = _ from hthere.groups]; rfl) hkinds
    rw [List.length_cons] at hk
    obtain ⟨k, rfl⟩ : ∃ k', k = k' + 1 := ⟨k - 1, by omega⟩
    obtain ⟨zs, t', mark, half', hothers, hzs, hmark, hlast⟩ := ih hthere hkinds (k := k) (by omega)
    refine ⟨z :: zs, t', mark, half', ?_, hz.cons hzs, hmark, hlast⟩
    obtain ⟨k₀, ks₀, hfirst, -, -, -, heof, hbrace⟩ := (ArmLines.arm written few body others).head
    have hkind : t.kind = k₀ := by
      rw [hfirst] at hks
      obtain ⟨x, xs, hrest, hx, -⟩ := List.map_eq_cons_iff.1 hks
      exact (ParserState.kind_cons hrest).trans hx
    have hinside : ¬((t.kind == .symbol .rBrace) = true ∨ (t.kind == .eof) = true) := by
      rw [hkind, beq_iff_eq, beq_iff_eq, hbrace]
      exact not_or.2 ⟨List.cons_ne_nil _ _, heof⟩
    rw [Parse.selectEntries]
    change (if (t.kind == .symbol .rBrace) = true ∨ (t.kind == .eof) = true then _ else _ :
      Parser (List (Node .selectEntry))) t = _
    rw [if_neg hinside]
    exact (bind_run hrun).trans ((bind_run hskip).trans (bind_run hothers))

end ArmLines

end FrontEnd
