import FrontEnd.Proofs.Loosening.Calculus
import FrontEnd.Proofs.Loosening.Openings

/-!
# Single steps on tokens with more line breaks

The steps all parsers are made of. Behind a token that joins, line breaks may be at hand until they
are passed over, which happens at once where they are ignored.
-/

namespace FrontEnd

namespace Loosening

variable {K : Loosening} {a : Stance} {G G' : List Bool} {s : ParserState}

section Skipping

/-- The token read last covers no text if none does. -/
theorem flat_lastSpan {tokens : List Token} {last : Span} (h : ∀ t ∈ tokens, t.span.Flat)
    (hlast : last.Flat) : ((tokens.getLast?.map (·.span)).getD last).Flat := by
  cases hend : tokens.getLast? with
  | none => exact hlast
  | some t => exact h t (List.mem_of_getLast? hend)

/-- Line breaks that are put in cover no text. -/
theorem Spread.flat {xs ys : List Token} (h : K.Spread xs ys) (hxs : ∀ t ∈ xs, t.span.Flat) :
    ∀ t ∈ ys, t.span.Flat := by
  induction h with
  | nil => exact hxs
  | cons breaks place tail ih =>
    obtain ⟨hx, hxs⟩ := List.forall_mem_cons.1 hxs
    refine List.forall_mem_cons.2 ⟨hx, List.forall_mem_append.2 ⟨fun t ht => ?_, ih hxs⟩⟩
    rw [List.eq_of_mem_replicate ht]
    exact ⟨rfl, rfl⟩

/-- So the tokens to come cover none, either. -/
theorem Fits.flat {ys : List Token} (h : K.Fits a s.rest ys) (hs : K.Stands a G s) :
    ∀ t ∈ ys, t.span.Flat := by
  cases a with
  | loose =>
    obtain ⟨n, zs, rfl, spread⟩ := h
    refine List.forall_mem_append.2 ⟨fun t ht => ?_, spread.flat hs.flat⟩
    rw [List.eq_of_mem_replicate ht]
    exact ⟨rfl, rfl⟩
  | _ => exact Spread.flat h hs.flat

variable {p : TokenKind → Bool}

/-- Tokens are stepped over. -/
theorem Stands.skipWhile (hs : K.Stands a G s) (p : TokenKind → Bool) :
    K.Stands .firm G (s.skipWhile p) where
  final := hs.final
  flat t ht := hs.flat t ((List.dropWhile_suffix _).subset ht)
  last := flat_lastSpan (fun t ht => hs.flat t ((List.takeWhile_prefix _).subset ht)) hs.last
  groups_eq := hs.groups_eq
  holds := trivial

/-- Tokens that separate are passed over, and line breaks with them. -/
theorem skipWhile_moves (hp : p .newline = true) :
    K.Moves .firm .firm G G (ParserState.skipWhile p) where
  diagnostics _ := rfl
  stands _ hs := hs.skipWhile p
  weight s _ := weight_dropWhile_le _ s.rest
  follows _ hs _ _ _ fits hlast :=
    ⟨_, _, rfl, Spread.dropWhile fits hp,
      flat_lastSpan (fun t ht => fits.flat hs t ((List.takeWhile_prefix _).subset ht)) hlast⟩

/-- Where line breaks are passed over, none is left at hand. -/
theorem skipNewlines_kind (hfinal : s.final = K.final) : s.skipNewlines.kind ≠ .newline := by
  unfold ParserState.kind ParserState.current ParserState.skipNewlines
  change ((s.rest.dropWhile fun t => t.kind = .newline).head?.getD s.final).kind ≠ .newline
  cases hrest : s.rest.dropWhile fun t => t.kind = .newline with
  | nil =>
    intro h
    have heof := K.eof
    rw [← hfinal] at heof
    exact TokenKind.noConfusion (heof.symm.trans h)
  | cons x xs =>
    have hx := List.head?_dropWhile_not (fun t : Token => decide (t.kind = .newline)) s.rest
    rw [hrest] at hx
    simpa using hx

/-- Where line breaks are passed over, the first token behind them is at hand. -/
theorem skipPast_moves {k : TokenKind} :
    K.Moves (.past k) (.known k) G G ParserState.skipNewlines where
  diagnostics _ := rfl
  stands _ hs := { hs.skipWhile _ with holds := hs.holds }
  weight _ hs := (skipWhile_moves rfl).weight hs.firm
  follows _ hs hall _ _ fits hlast := (skipWhile_moves rfl).follows hs.firm hall fits hlast

/-- Line breaks that are put in are passed over; what comes behind them may be joined. -/
theorem skipNewlines_moves : K.Moves .loose .poised G G ParserState.skipNewlines where
  diagnostics _ := rfl
  stands _ hs := { hs.skipWhile _ with holds := skipNewlines_kind hs.final }
  weight s _ := Nat.le_of_eq (congrArg₂ (· + ·) (due_dropWhile s.rest) (weight_dropWhile s.rest))
  follows _ hs _ _ _ fits hlast := by
    have hflat := fits.flat hs
    obtain ⟨n, zs, rfl, spread⟩ := fits
    refine ⟨_, _, rfl, ?_,
      flat_lastSpan (fun t ht => hflat t ((List.takeWhile_prefix _).subset ht)) hlast⟩
    change K.Spread _ ((List.replicate n lineBreak ++ zs).dropWhile _)
    rw [Spread.dropWhile_breaks rfl]
    exact spread.dropWhile rfl

end Skipping

section Advancing

/-- The innermost group ignores line breaks. -/
theorem Stands.ignores (hs : K.Stands a (true :: G) s) : ignoresNewlines s.groups = true := by
  have hgroups := hs.groups_eq
  unfold ignoresNewlines
  cases hs : s.groups with
  | nil =>
    rw [hs] at hgroups
    cases hgroups
  | cons g groups =>
    rw [hs] at hgroups
    exact (List.cons.inj hgroups).1

/-- At the end of the text nothing happens. -/
theorem advance_nil (hrest : s.rest = []) : s.advance = s := by
  obtain ⟨rest, _⟩ := s
  obtain rfl : rest = [] := hrest
  unfold ParserState.advance
  dsimp only [ParserState.bump]
  split <;> rfl

/-- A step leaves the groups as they are. -/
theorem Stands.advance (hs : K.Stands a G s) : K.Stands .firm G s.advance := by
  have onward := s.advance_onward
  refine ⟨onward.final.trans hs.final, fun t ht => hs.flat t (onward.rest.subset ht), ?_,
    s.advance_groups ▸ hs.groups_eq, trivial⟩
  cases hrest : s.rest with
  | nil => exact (advance_nil hrest).symm ▸ hs.last
  | cons x xs =>
    rw [ParserState.advance_eq hrest]
    have hflat := hs.flat
    rw [hrest] at hflat
    obtain ⟨hx, hxs⟩ := List.forall_mem_cons.1 hflat
    exact flat_lastSpan (fun t ht => hxs t ((List.takeWhile_prefix _).subset ht)) hx

/-- Line breaks that count are not passed over. -/
theorem dropWhile_breaks_false (tokens : List Token) :
    tokens.dropWhile (ParserState.breaks false ·.kind) = tokens := by
  cases tokens <;> rfl

/-- Whether line breaks are passed over or not, what comes behind them is the same. -/
theorem weight_breaks (ignored : Bool) (tokens : List Token) :
    K.weight (tokens.dropWhile (ParserState.breaks ignored ·.kind)) = K.weight tokens ∧
      K.due (tokens.dropWhile (ParserState.breaks ignored ·.kind)) = K.due tokens := by
  cases ignored with
  | true => exact ⟨weight_dropWhile tokens, due_dropWhile tokens⟩
  | false => rw [dropWhile_breaks_false]; exact ⟨rfl, rfl⟩

/-- Line breaks are dropped from both texts. -/
theorem Spread.breaks {xs ys : List Token} (h : K.Spread xs ys) (ignored : Bool) :
    K.Spread (xs.dropWhile (ParserState.breaks ignored ·.kind))
      (ys.dropWhile (ParserState.breaks ignored ·.kind)) := by
  cases ignored with
  | true => exact h.dropWhile rfl
  | false => rwa [dropWhile_breaks_false, dropWhile_breaks_false]

/-- The same step over other tokens. -/
theorem over_advance {x : Token} {xs : List Token} (hrest : s.rest = x :: xs)
    (tokens : List Token) (last : Span) : (s.over (x :: tokens) last).advance = s.advance.over
      (tokens.dropWhile (ParserState.breaks (ignoresNewlines s.groups) ·.kind))
      (lastSpanAfter x.span
        (tokens.takeWhile (ParserState.breaks (ignoresNewlines s.groups) ·.kind))) := by
  rw [ParserState.advance_eq hrest,
    ParserState.advance_eq (show (s.over (x :: tokens) last).rest = x :: tokens from rfl)]
  rfl

/-- Line breaks put in behind the token at hand are left there, unless they are ignored. -/
theorem Spread.advance {x : Token} {xs zs : List Token} {last : Span} (spread : K.Spread xs zs)
    (hs : K.Stands a G s) (hrest : s.rest = x :: xs) (n : Nat) :
    ∃ m zs' last', (s.over (x :: (List.replicate n lineBreak ++ zs)) last).advance =
        s.advance.over (List.replicate m lineBreak ++ zs') last' ∧ K.Spread s.advance.rest zs' ∧
      last'.Flat ∧ (ignoresNewlines s.groups = true ∨ n = 0 → m = 0) := by
  have hflat := hs.flat
  rw [hrest] at hflat
  obtain ⟨hx, hxs⟩ := List.forall_mem_cons.1 hflat
  have hys : ∀ t ∈ List.replicate n lineBreak ++ zs, t.span.Flat :=
    List.forall_mem_append.2 ⟨fun t ht => List.eq_of_mem_replicate ht ▸ ⟨rfl, rfl⟩, spread.flat hxs⟩
  rw [over_advance hrest, ParserState.advance_eq hrest]
  dsimp only
  cases ignoresNewlines s.groups with
  | true =>
    refine ⟨0, _, _, congrArg (ParserState.over _ · _) (Spread.dropWhile_breaks rfl n zs),
      spread.breaks true, ?_, fun _ => rfl⟩
    exact flat_lastSpan (fun t ht => hys t ((List.takeWhile_prefix _).subset ht)) hx
  | false =>
    refine ⟨n, _, _, congrArg (ParserState.over _ · _) ?_, spread.breaks false, ?_,
      fun h => h.resolve_left nofun⟩
    · rw [dropWhile_breaks_false, dropWhile_breaks_false]
    · exact flat_lastSpan (fun t ht => hys t ((List.takeWhile_prefix _).subset ht)) hx

/-- A token other than the end of the text is at hand. -/
theorem Stands.rest_eq {k : TokenKind} (hs : K.Stands (.known k) G s) (hk : k ≠ .eof) :
    ∃ x xs, s.rest = x :: xs ∧ x.kind = k := by
  have hkind : s.kind = k := hs.holds
  unfold ParserState.kind ParserState.current at hkind
  cases hrest : s.rest with
  | nil =>
    rw [hrest] at hkind
    exact absurd (hkind.symm.trans (hs.final ▸ K.eof)) hk
  | cons x xs =>
    rw [hrest] at hkind
    exact ⟨x, xs, rfl, hkind⟩

/-- What is joined to a token that is stepped over is counted behind it. -/
theorem weight_advance {x : Token} {xs : List Token} (hrest : s.rest = x :: xs) :
    K.weight s.advance.rest = K.weight xs ∧ K.due s.advance.rest = K.due xs := by
  rw [ParserState.advance_eq hrest]
  exact weight_breaks _ xs

/-- A token that may join the next one to it is stepped over. -/
theorem advance_loose {k : TokenKind} (hk : k ≠ .newline ∧ k ≠ .eof) :
    K.Moves (.known k) .loose G G ParserState.advance where
  diagnostics s := s.advance_kept.2
  stands _ hs := { hs.advance with holds := trivial }
  weight s hs := by
    obtain ⟨x, xs, hrest, hx⟩ := hs.rest_eq hk.2
    obtain ⟨hweight, hdue⟩ := weight_advance (K := K) hrest
    change K.due s.advance.rest + K.weight s.advance.rest ≤ K.weight s.rest
    rw [hrest, weight_cons (hx ▸ hk.1), hweight, hdue]
  follows s hs _ ys last fits _ := by
    obtain ⟨x, xs, hrest, -⟩ := hs.rest_eq hk.2
    change K.Spread s.rest ys at fits
    rw [hrest] at fits
    cases fits with
    | cons n _ tail =>
      obtain ⟨m, zs', last', hover, spread, hlast', -⟩ := tail.advance hs hrest n
      exact ⟨_, last', hover, ⟨m, zs', rfl, spread⟩, hlast'⟩

/-- Where line breaks are ignored, they are passed over at once. -/
theorem advance_poised {k : TokenKind} (hk : k ≠ .newline ∧ k ≠ .eof) :
    K.Moves (.known k) .poised (true :: G) (true :: G) ParserState.advance where
  diagnostics s := s.advance_kept.2
  stands s hs := by
    refine { hs.advance with holds := ?_ }
    have hignored : ignoresNewlines s.groups = true := hs.ignores
    unfold ParserState.advance
    rw [if_pos hignored]
    exact skipNewlines_kind ((s.bumpBy_onward 1).final.trans hs.final)
  weight s hs := (advance_loose hk).weight hs
  follows s hs _ ys last fits _ := by
    obtain ⟨x, xs, hrest, -⟩ := hs.rest_eq hk.2
    change K.Spread s.rest ys at fits
    rw [hrest] at fits
    cases fits with
    | cons n _ tail =>
      obtain ⟨m, zs', last', hover, spread, hlast', hnone⟩ := tail.advance hs hrest n
      obtain rfl := hnone (Or.inl hs.ignores)
      exact ⟨_, last', hover, spread, hlast'⟩

/-- Behind other tokens there are no line breaks but those that were there. -/
theorem advance_apart : K.Moves .apart .firm G G ParserState.advance where
  diagnostics s := s.advance_kept.2
  stands _ hs := hs.advance
  weight s hs := by
    change K.weight s.advance.rest ≤ K.weight s.rest
    cases hrest : s.rest with
    | nil =>
      have hnil : s.advance.rest = [] := s.advance_onward.rest_nil hrest
      rw [hnil]
    | cons x xs =>
      rw [(weight_advance hrest).1, weight]
      exact Nat.le_add_left _ _
  follows s hs hall ys last fits hlast := by
    change K.weight s.rest ≤ K.weight s.advance.rest at hall
    change K.Spread s.rest ys at fits
    cases hrest : s.rest with
    | nil =>
      rw [hrest] at fits
      cases fits
      have hover : (s.over [] last).advance = s.advance.over [] last := by
        rw [advance_nil hrest]
        exact advance_nil rfl
      exact ⟨[], last, hover, (advance_nil hrest).symm ▸ hrest ▸ Spread.nil, hlast⟩
    | cons x xs =>
      have hx : x.kind ≠ .symbol .comma := by
        have holds : s.kind ≠ .symbol .comma := hs.holds
        rwa [ParserState.kind, ParserState.current, hrest] at holds
      rw [hrest, (weight_advance hrest).1] at hall
      rw [hrest] at fits
      cases fits with
      | cons n place tail =>
        obtain ⟨m, zs', last', hover, spread, hlast', hnone⟩ := tail.advance hs hrest n
        obtain rfl : n = 0 := by
          by_contra hn
          rcases place hn with hcomma | ⟨hnewline, hdue⟩
          · exact hx hcomma
          · rw [weight_cons hnewline] at hall
            omega
        obtain rfl := hnone (Or.inr rfl)
        exact ⟨_, last', hover, spread, hlast'⟩

/-- Behind a token that is no comma nothing is put in. -/
theorem advance_firm {k : TokenKind} (hk : k ≠ .symbol .comma) :
    K.Moves (.known k) .firm G G ParserState.advance where
  diagnostics s := s.advance_kept.2
  stands _ hs := advance_apart.stands (hs.apart hk)
  weight _ hs := advance_apart.weight (hs.apart hk)
  follows _ hs := advance_apart.follows (hs.apart hk)

/-- The token behind the one at hand stays the same, unless a line break is put in there. -/
theorem Spread.nextKind_or {ys : List Token} {last : Span} (spread : K.Spread s.rest ys) :
    (s.over ys last).nextKind = s.nextKind ∨ (s.over ys last).nextKind = .newline := by
  unfold ParserState.nextKind
  change (ys[1]?.getD s.final).kind = _ ∨ (ys[1]?.getD s.final).kind = _
  cases hrest : s.rest with
  | nil =>
    rw [hrest] at spread
    cases spread
    exact Or.inl rfl
  | cons x xs =>
    rw [hrest] at spread
    cases spread with
    | cons n _ tail =>
      cases n with
      | zero =>
        refine Or.inl ?_
        rw [List.replicate_zero, List.nil_append, List.getElem?_cons_succ,
          List.getElem?_cons_succ, ← List.head?_eq_getElem?, ← List.head?_eq_getElem?, tail.head?]
      | succ n => exact Or.inr rfl

/-- It stays the same where no joining token gets lost by a step. -/
theorem Spread.nextKind {ys : List Token} {last : Span} (spread : K.Spread s.rest ys)
    (hk : s.kind ≠ .symbol .comma) (hall : K.weight s.rest ≤ K.weight s.advance.rest) :
    (s.over ys last).nextKind = s.nextKind := by
  unfold ParserState.nextKind
  change (ys[1]?.getD s.final).kind = _
  cases hrest : s.rest with
  | nil =>
    rw [hrest] at spread
    cases spread
    rfl
  | cons x xs =>
    have hx : x.kind ≠ .symbol .comma := by
      rwa [ParserState.kind, ParserState.current, hrest] at hk
    have hdue : x.kind = .newline ∨ K.due xs = 0 := by
      rw [(weight_advance hrest).1, hrest] at hall
      refine or_iff_not_imp_left.2 fun hnewline => ?_
      rw [weight_cons hnewline] at hall
      omega
    obtain ⟨others, rfl, tail⟩ := spread.tail hrest hx hdue
    rw [List.getElem?_cons_succ, List.getElem?_cons_succ, ← List.head?_eq_getElem?,
      ← List.head?_eq_getElem?, tail.head?]

end Advancing

section Groups

/-- A group is entered. -/
theorem openGroup_moves (ignored : Bool) :
    K.Moves .firm .firm G (ignored :: G) (ParserState.openGroup ignored) where
  diagnostics s := by cases ignored <;> rfl
  stands s hs := by
    have inside : K.Stands .firm (ignored :: G)
        { s with groups := ⟨ignored, s.allowsBrace⟩ :: s.groups, allowsBrace := true } :=
      ⟨hs.final, hs.flat, hs.last, congrArg (ignored :: ·) hs.groups_eq, trivial⟩
    cases ignored with
    | false => exact inside
    | true => exact inside.skipWhile (· = .newline)
  weight s _ := by
    cases ignored with
    | false => exact Nat.le_refl _
    | true => exact weight_dropWhile_le _ s.rest
  follows s hs _ ys last fits hlast := by
    cases ignored with
    | false => exact ⟨ys, last, rfl, fits, hlast⟩
    | true =>
      exact ⟨_, _, rfl, Spread.dropWhile fits rfl,
        flat_lastSpan (fun t ht => fits.flat hs t ((List.takeWhile_prefix _).subset ht)) hlast⟩

/-- A group is left. The tokens stay as they are. -/
theorem closeGroup_moves {ignored : Bool} :
    K.Moves a a (ignored :: G) G ParserState.closeGroup where
  diagnostics s := s.closeGroup_kept.2.2
  stands s hs := by
    obtain ⟨hfinal, hrest, -⟩ := s.closeGroup_kept
    refine ⟨hfinal.trans hs.final, hrest.symm ▸ hs.flat, ?_, ?_, ?_⟩
    · unfold ParserState.closeGroup
      split <;> exact hs.last
    · rw [s.closeGroup_groups, List.map_drop, hs.groups_eq]
      rfl
    · have holds := hs.holds
      cases a with
      | known k => exact s.closeGroup_kind.trans holds
      | past k =>
        change s.closeGroup.kindAfterNewlines = k
        unfold ParserState.kindAfterNewlines
        rw [hrest, hfinal]
        exact holds
      | poised => exact fun h => holds (s.closeGroup_kind.symm.trans h)
      | apart => exact fun h => holds (s.closeGroup_kind.symm.trans h)
      | _ => trivial
  weight s _ := by rw [s.closeGroup_kept.2.1]
  follows s _ _ ys last fits hlast := by
    have hover : (s.over ys last).closeGroup = s.closeGroup.over ys last := by
      obtain ⟨_, _, _, groups, _⟩ := s
      cases groups <;> rfl
    exact ⟨ys, last, hover, s.closeGroup_kept.2.1.symm ▸ fits, hlast⟩

end Groups

end Loosening

namespace Parse

open Loosening

variable {α β : Type} {K : Loosening} {a : Stance} {G G' : List Bool} {js : List FileId}
  {after : α → List FileId}

section Failing

/-- Behind an error it does not matter what else is read. -/
theorem recordThen_loosens {b : Stance} {H : List Bool} (e : SyntaxError) {f : Unit → Parser α}
    (hf : Loosens K b H G' js (f ()) after) : Loosens K a G G' js (record e >>= f) after :=
  .broken fun s _ _ hrun free => s.record_not_errorFree e (hf.free hrun free)

/-- Where something is missing there is no run. -/
theorem failExpected_loosens (what : String) :
    Loosens K a G G' js (failExpected what : Parser α) after :=
  .broken fun _ _ _ hrun => nomatch hrun

/-- There is none where the parser is stuck. -/
theorem stalled_loosens : Loosens K a G G' js (stalled : Parser α) after :=
  .broken fun _ _ _ hrun => nomatch hrun

/-- There is none without errors where one is reported. -/
theorem reportExpected_loosens (what : String) :
    Loosens K a G G js (reportExpected what) fun _ => js :=
  .broken fun s x s' hrun free => by
    rw [reportExpected_run] at hrun
    split at hrun
    · cases hrun
    · cases hrun
      exact s.record_not_errorFree _ free

end Failing

section Looking

/-- The span at hand is the same, if no line break is put in there. -/
theorem here_loosens (ha : a ≠ .loose) {f : Span → Parser α}
    (hf : ∀ span, Loosens K a G G' js (f span) after) : Loosens K a G G' js (here >>= f) after :=
  .look ha (fun _ _ _ _ spread _ => congrArg Token.span spread.current) hf

/-- So is a span up to the place at hand. -/
theorem spanFrom_loosens {start : Span} {f : Span → Parser α}
    (hf : ∀ span, Loosens K .firm G G' js (f span) after) :
    Loosens K .firm G G' js (spanFrom start >>= f) after :=
  .look nofun (fun _ _ _ hs _ hlast => ParserState.spanFrom_over hs.last hlast start) hf

/-- The token at hand. -/
theorem current_loosens {f : Token → Parser α}
    (hf : ∀ t, Loosens K (.known t.kind) G G' js (f t) after) :
    Loosens K .firm G G' js (current >>= f) after :=
  .state (fun _ _ _ spread => congrArg f spread.current) fun s => hf s.current

/-- Whether the token at hand is of some kind. -/
theorem at_loosens (ha : a ≠ .loose) {k : TokenKind} {f : Bool → Parser α}
    (hyes : Loosens K (.known k) G G' js (f true) after)
    (hno : Loosens K a G G' js (f false) after) : Loosens K a G G' js (at? k >>= f) after where
  free s x s' hrun free := by
    change f (s.kind == k) s = _ at hrun
    cases hkind : s.kind == k with
    | true => exact hyes.free (hkind ▸ hrun) free
    | false => exact hno.free (hkind ▸ hrun) free
  runs s x s' hs hrun free := by
    change f (s.kind == k) s = _ at hrun
    have hover (ys : List Token) (last : Span) (spread : K.Spread s.rest ys) :
        (at? k >>= f) (s.over ys last) = f (s.kind == k) (s.over ys last) := by
      change f ((s.over ys last).kind == k) (s.over ys last) = _
      rw [spread.kind]
    have hle := K.weight_le_weightAt a s.rest
    cases hkind : s.kind == k with
    | true =>
      rw [hkind] at hrun hover
      have known : K.Stands (.known k) G s :=
        ⟨hs.final, hs.flat, hs.last, hs.groups_eq, eq_of_beq hkind⟩
      obtain ⟨stands, weight, follows⟩ := hyes.runs known hrun free
      refine ⟨stands, weight.trans (Nat.add_le_add_left hle _), fun hall ys last fits hlast => ?_⟩
      rw [hover ys last (fits.spread ha)]
      exact follows ((Nat.add_le_add_left hle _).trans hall) (fits.spread ha) hlast
    | false =>
      rw [hkind] at hrun hover
      obtain ⟨stands, weight, follows⟩ := hno.runs hs hrun free
      refine ⟨stands, weight, fun hall ys last fits hlast => ?_⟩
      rw [hover ys last (fits.spread ha)]
      exact follows hall fits hlast

/-- What is done may depend on the token at hand. -/
theorem peek_loosens {k : TokenKind} {f : Bool → Parser α}
    (hf : ∀ b, Loosens K .firm G G' js (f b) after) :
    Loosens K .firm G G' js (at? k >>= f) after :=
  at_loosens (by nofun) (hf true).known (hf false)

/-- A choice by the token at hand and the kind of the one behind it. Where a line break there would
make a difference, the token at hand is stepped over. -/
theorem ahead_loosens {f : ParserState → Parser α}
    (hsame : ∀ (s : ParserState) (ys : List Token) (last : Span), K.Spread s.rest ys →
      (s.over ys last).nextKind = s.nextKind → f (s.over ys last) = f s)
    (hf : ∀ s : ParserState,
      ((∀ (ys : List Token) (last : Span), K.Spread s.rest ys →
        (s.over ys last).nextKind = .newline → f (s.over ys last) = f s) ∧
          Loosens K (.known s.kind) G G' js (f s) after) ∨
      (s.kind ≠ .symbol .comma ∧ s.nextKind ≠ .eof ∧ s.nextKind ≠ .newline ∧ ∃ p : Parser α,
        Loosens K (.known s.nextKind) G G' js p after ∧
        ∀ u : ParserState, u.current = s.current → f s u = p u.advance)) :
    Loosens K .firm G G' js (get >>= f) after where
  free s x s' hrun free := by
    change f s s = _ at hrun
    rcases hf s with ⟨-, hp⟩ | ⟨-, -, -, p, hp, hstep⟩
    · exact hp.free hrun free
    · have free' := hp.free ((hstep s rfl).symm.trans hrun) free
      exact (Loosening.advance_apart (K := K) (G := G)).errorFree free'
  runs s x s' hs hrun free := by
    change f s s = _ at hrun
    have known : K.Stands (.known s.kind) G s := ⟨hs.final, hs.flat, hs.last, hs.groups_eq, rfl⟩
    rcases hf s with ⟨hnewline, hp⟩ | ⟨hcomma, heof, hnewline, p, hp, hstep⟩
    · obtain ⟨stands, weight, follows⟩ := hp.runs known hrun free
      refine ⟨stands, weight, fun hall ys last fits hlast => ?_⟩
      change ∃ ys' last', f (s.over ys last) (s.over ys last) = _ ∧ _
      rw [(Spread.nextKind_or fits).elim (hsame s ys last fits) (hnewline ys last fits)]
      exact follows hall fits hlast
    · rw [hstep s rfl] at hrun
      have hfinal : s.final.kind = .eof := hs.final ▸ K.eof
      have ahead : K.Stands (.known s.nextKind) G s.advance :=
        { hs.advance with holds := ParserState.advance_kind hfinal rfl ⟨heof, hnewline⟩ }
      obtain ⟨stands, weight, follows⟩ := hp.runs ahead hrun free
      have run : LooseRun K .firm G' js p after s.advance x s' := ⟨stands, weight, follows⟩
      have whole : LooseRun K (.known s.kind) G' js (get >>= f) after s x s' := by
        refine run.behind (advance_firm hcomma) known fun ys last fits hkept => ?_
        -- The token behind is not joined to the one at hand, and so nothing is put in between.
        change f (s.over ys last) (s.over ys last) = _
        rw [hsame s ys last fits (Spread.nextKind fits hcomma hkept)]
        exact hstep (s.over ys last) (Spread.current fits)
      exact ⟨whole.stands, whole.weight, whole.follows⟩

end Looking

section Stepping

/-- A token that is no comma is stepped over. -/
theorem advance_loosens {k : TokenKind} (hk : k ≠ .symbol .comma) :
    Loosens K (.known k) G G js advance fun _ => js :=
  .update (advance_firm hk)

/-- Tokens are stepped over, line breaks among them. -/
theorem skipWhile_loosens {p : TokenKind → Bool} (hp : p .newline = true) :
    Loosens K .firm G G js (modify (ParserState.skipWhile p)) fun _ => js :=
  .update (skipWhile_moves hp)

/-- Line breaks are stepped over. -/
theorem skipNewlines_loosens : Loosens K .firm G G js skipNewlines fun _ => js :=
  skipWhile_loosens rfl

/-- The ends of statements are stepped over. -/
theorem skipTerminators_loosens : Loosens K .firm G G js skipTerminators fun _ => js :=
  skipWhile_loosens rfl

/-- So is what stands between the entries of a list. -/
theorem skipSeparators_loosens : Loosens K .firm G G js skipSeparators fun _ => js :=
  skipWhile_loosens rfl

/-- What is behind line breaks that are put in. -/
theorem skip_loosens {f : Unit → Parser α} (hf : Loosens K .poised G G' js (f ()) after) :
    Loosens K .loose G G' js (skipNewlines >>= f) after :=
  .step skipNewlines_moves hf

/-- Line breaks that are put in may be all there is. -/
theorem skipLoose_loosens : Loosens K .loose G G js skipNewlines fun _ => js := by
  rw [← bind_pure skipNewlines]
  exact skip_loosens (.poised (.pure (Nat.le_refl _)))

/-- A group is entered. -/
theorem openGroup_loosens (ignored : Bool) :
    Loosens K .firm G (ignored :: G) js (openGroup ignored) fun _ => js :=
  .update (openGroup_moves ignored)

/-- Outside a group the same is at hand. -/
theorem closeGroup_loosens {ignored : Bool} {f : Unit → Parser α}
    (hf : Loosens K a G G' js (f ()) after) :
    Loosens K a (ignored :: G) G' js (closeGroup >>= f) after :=
  .step closeGroup_moves hf

/-- A token that may be there and is no comma. -/
theorem accept_loosens {k : TokenKind} (hk : k ≠ .symbol .comma) :
    Loosens K .firm G G js (accept k) fun _ => js :=
  at_loosens (by nofun) ((advance_loosens hk).bind fun _ => .pure (Nat.le_refl _))
    (.pure (Nat.le_refl _))

/-- A symbol that may be there and is no comma. -/
theorem acceptSymbol_loosens {mark : Symbol} (hmark : mark ≠ .comma) :
    Loosens K .firm G G js (acceptSymbol mark) fun _ => js :=
  accept_loosens fun h => hmark (TokenKind.symbol.inj h)

/-- Behind a token that may join the next one to it. -/
theorem accept_moves {b : Stance} {mark : Symbol} {f : Bool → Parser α}
    (hmove : K.Moves (.known (.symbol mark)) b G G ParserState.advance)
    (hyes : Loosens K b G G' js (f true) after) (hno : Loosens K .firm G G' js (f false) after) :
    Loosens K .firm G G' js (acceptSymbol mark >>= f) after := by
  unfold acceptSymbol
  rw [accept_bind_eq]
  exact at_loosens (by nofun) (.step hmove hyes) hno

/-- Behind a symbol that is there line breaks may be put in. -/
theorem accept_loose {mark : Symbol} {f : Bool → Parser α}
    (hyes : Loosens K .loose G G' js (f true) after)
    (hno : Loosens K .firm G G' js (f false) after) :
    Loosens K .firm G G' js (acceptSymbol mark >>= f) after :=
  accept_moves (advance_loose ⟨nofun, nofun⟩) hyes hno

/-- A token that has to be there, and what is known behind it. -/
theorem expect_moves {b : Stance} {k : TokenKind} {f : Span → Parser α}
    (hmove : K.Moves (.known k) b G G ParserState.advance)
    (hf : ∀ span, Loosens K b G G' js (f span) after) :
    Loosens K .firm G G' js (expect k >>= f) after := by
  rw [expect_bind_eq]
  exact at_loosens (by nofun) (here_loosens (by nofun) fun span => .step hmove (hf span))
    (failExpected_loosens _)

/-- A token that has to be there and is no comma. -/
theorem expect_loosens {k : TokenKind} (hk : k ≠ .symbol .comma) :
    Loosens K .firm G G js (expect k) fun _ => js := by
  rw [← bind_pure (expect k)]
  exact expect_moves (advance_firm hk) fun _ => .pure (Nat.le_refl _)

/-- A token that has to be there and may join the next one to it. -/
theorem expectSymbol_moves {b : Stance} {mark : Symbol} {f : Unit → Parser α}
    (hmove : K.Moves (.known (.symbol mark)) b G G ParserState.advance)
    (hf : Loosens K b G G' js (f ()) after) :
    Loosens K .firm G G' js (discard (expectSymbol mark) >>= f) after := by
  rw [show discard (expectSymbol mark) = (fun _ => ()) <$> expectSymbol mark from rfl,
    bind_map_left]
  exact expect_moves hmove fun _ => hf

/-- A symbol that has to be there and is no comma. -/
theorem expectSymbol_loosens {mark : Symbol} (hmark : mark ≠ .comma) :
    Loosens K .firm G G js (discard (expectSymbol mark)) fun _ => js :=
  .map (expect_loosens fun h => hmark (TokenKind.symbol.inj h))

/-- A keyword that has to be there. -/
theorem expectKeyword_loosens (word : Keyword) :
    Loosens K .firm G G js (discard (expectKeyword word)) fun _ => js :=
  .map (expect_loosens nofun)

/-- A name that has to be there. -/
theorem expectIdent_loosens : Loosens K .firm G G js expectIdent fun _ => js := by
  refine current_loosens fun t => ?_
  obtain ⟨kind, span⟩ := t
  cases kind with
  | ident name => exact (advance_loosens (by nofun)).bind fun _ => .pure (Nat.le_refl _)
  | _ => exact failExpected_loosens _

/-- A group is closed, without an error only by its symbol. -/
theorem close_loosens {ignored : Bool} {mark : Symbol} (hmark : mark ≠ .comma) :
    Loosens K .firm (ignored :: G) G js (close mark) fun _ => js :=
  closeGroup_loosens <| (acceptSymbol_loosens hmark).bind fun _ =>
    .ite (.pure (Nat.le_refl _)) ((reportExpected_loosens _).bind fun _ => .pure (Nat.le_refl _))

/-- A group is closed by its symbol. -/
theorem closeStrict_loosens {ignored : Bool} {mark : Symbol} (hmark : mark ≠ .comma) :
    Loosens K .firm (ignored :: G) G js (closeStrict mark) fun _ => js :=
  closeGroup_loosens (expectSymbol_loosens hmark)

end Stepping

section Building

/-- Numbers are given out alike. -/
theorem freshId_loosens : Loosens K .firm G G js freshId fun _ => js where
  free s x s' hrun free := by
    cases hrun
    exact free
  runs s x s' hs hrun _ := by
    cases hrun
    exact ⟨⟨hs.final, hs.flat, hs.last, hs.groups_eq, trivial⟩, Nat.le_refl _,
      fun _ ys last fits hlast => ⟨ys, last, rfl, fits, hlast⟩⟩

/-- So are the numbers of new nodes. -/
theorem origin_loosens (span : Span) : Loosens K .firm G G js (origin span) fun _ => js :=
  freshId_loosens.bind fun _ => .pure (Nat.le_refl _)

/-- A new expression, whose parts have joints that were read. -/
theorem newExpr_loosens {before : List FileId} {form : ExprForm} {span : Span}
    (h : K.tally (form.jointsAfter before) ≤ K.tally js) :
    Loosens K .firm G G js (newExpr form span) fun e => e.jointsAfter before :=
  (origin_loosens span).bind fun _ => .pure h

/-- A new type, whose parts have joints that were read. -/
theorem newType_loosens {before : List FileId} {form : TypeForm} {span : Span}
    (h : K.tally (form.jointsAfter before) ≤ K.tally js) :
    Loosens K .firm G G js (newType form span) fun t => t.jointsAfter before :=
  (origin_loosens span).bind fun _ => .pure h

/-- Elements between commas, behind which line breaks are passed over. -/
theorem commaList_loosens {c : Category} {b : Stance} {closes : TokenKind → Bool}
    {gap : Parser Unit} {element : Parser (Node c)}
    (hmove : K.Moves (.known (.symbol .comma)) b G G ParserState.advance)
    (hgap : ∀ {js}, Loosens K b G G js gap fun _ => js)
    (helement : ∀ {js}, Loosens K .firm G G js element fun x => x.jointsAfter js) (n : Nat)
    (afterComma : Bool) : Loosens K .firm G G js (commaList closes gap element n afterComma)
      fun xs => (Node.ofList xs.1).jointsAfter js := by
  induction n generalizing js afterComma with
  | zero => exact stalled_loosens
  | succ n ih =>
    refine .kind fun k => .known (.ite (.pure (Nat.le_refl _)) (helement.bind fun x => ?_))
    refine accept_moves hmove ?_ (.pure (Nat.le_refl _))
    exact hgap.bind fun _ => (ih true).bind fun _ => .pure (Nat.le_refl _)

/-- Elements between commas in a group where line breaks are ignored. -/
theorem commaListTo_loosens {c : Category} {mark : Symbol} {element : Parser (Node c)}
    (helement : ∀ {js}, Loosens K .firm (true :: G) (true :: G) js element fun x =>
      x.jointsAfter js) (n : Nat) :
    Loosens K .firm (true :: G) (true :: G) js (commaListTo n mark element) fun xs =>
      (Node.ofList xs).jointsAfter js :=
  .map (commaList_loosens (advance_poised ⟨nofun, nofun⟩) (.poised (.pure (Nat.le_refl _)))
    helement n false)

end Building

end Parse

section Joining

variable {c : Category} {K : Loosening} {G G' : List Bool} {js : List FileId}

namespace Loosening

/-- Which of some joints are counted first does not matter. -/
theorem tally_jointsAfter (x : Node c) (before : List FileId) :
    K.tally (x.jointsAfter before) = K.tally before + K.tally (x.jointsAfter []) := by
  unfold tally Node.jointsAfter
  rw [Node.collect_eq_append, List.countP_append]

/-- The joints that were read before are counted. -/
theorem le_tally_jointsAfter (x : Node c) (before : List FileId) :
    K.tally before ≤ K.tally (x.jointsAfter before) :=
  (Node.sublist_collect _ x before).countP_le

/-- A joint counts where it leads to a joined token. -/
theorem tally_concat (before : List FileId) (i : FileId) :
    K.tally (before ++ [i]) = K.tally before + (K.joined i).toNat := by
  unfold tally
  rw [List.countP_append, List.countP_singleton]
  cases K.joined i <;> rfl

/-- A node whose first token is joined counts for one more. -/
theorem tally_joinedAfter {x : Node c} {i : FileId} (h : x.first? = some i)
    (before : List FileId) : K.tally (x.joinedAfter before) =
      K.tally (x.jointsAfter before) + (K.joined i).toNat := by
  unfold Node.joinedAfter
  rw [h, Option.elim_some, tally_concat]

/-- It counts the same whether it comes in front of other joints or behind them. -/
theorem tally_joinedAfter_first {c' : Category} (x : Node c) (y : Node c') (before : List FileId) :
    K.tally (y.jointsAfter (x.joinedAfter before)) =
      K.tally (x.first?.elim (y.jointsAfter (x.jointsAfter before))
        (y.jointsAfter (x.jointsAfter before) ++ [·])) := by
  cases h : x.first? with
  | none =>
    unfold Node.joinedAfter
    rw [h]
    rfl
  | some i =>
    rw [tally_jointsAfter, tally_joinedAfter h, Option.elim_some, tally_concat,
      tally_jointsAfter y (x.jointsAfter before), Nat.add_right_comm]

end Loosening

/-- What may be joined to the token read last has a joint in front of it. -/
theorem Loosens.joint {p : Parser (Node c)}
    (hp : Loosens K .firm G G' js p fun x => x.jointsAfter js) (hopens : Opens p) :
    Loosens K .poised G G' js p fun x => x.joinedAfter js where
  free := hp.free
  runs s x s' hs hrun free := by
    obtain ⟨stands, weight, follows⟩ := hp.runs hs.firm hrun free
    have htally := Loosening.tally_joinedAfter (K := K) (hopens hrun) js
    rw [← Loosening.due_current hs.final hs.holds] at htally
    change _ ≤ K.tally js + K.weight s.rest at weight
    refine ⟨stands, ?_, fun hall ys last fits hlast => follows ?_ fits hlast⟩
    · change _ ≤ K.tally js + (K.due s.rest + K.weight s.rest)
      omega
    · change K.tally js + (K.due s.rest + K.weight s.rest) ≤ _ at hall
      change K.tally js + K.weight s.rest ≤ _
      omega

end Joining

end FrontEnd
