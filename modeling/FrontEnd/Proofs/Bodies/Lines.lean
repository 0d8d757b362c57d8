import FrontEnd.Proofs.Siblings

/-!
# Bodies of several lines

Lines one below the other are scanned one by one, with a line break between two of them. Inside the
braces of a body each line is read as it is read alone, up to the line break behind it.
-/

namespace FrontEnd

/-- A result that is there is the result. -/
theorem eq_ok_of_toOption {ε α : Type} {x : Except ε α} {a : α} (h : x.toOption = some a) :
    x = .ok a := by
  cases x with
  | error e => cases h
  | ok b =>
    obtain rfl := Option.some.inj h
    rfl

/-- Lines one below the other. -/
def stacked (first : String) (others : List String) : String :=
  others.foldl (fun text line => text ++ "\n" ++ line) first

/-- A text is scanned into tokens of some kinds. -/
def ScansAs (file : FileId) (text : String) (ks : List TokenKind) : Prop :=
  ∃ tokens, ScansTo file text tokens ∧ tokens.map (·.kind) = ks

/-- The kinds of the tokens of several lines. -/
def stackedKinds (first : List TokenKind) (others : List (List TokenKind)) : List TokenKind :=
  first ++ others.flatMap (.newline :: ·)

/-- Moved tokens are of the same kinds. -/
theorem kinds_moved (r : Relabeling) (tokens : List Token) :
    (tokens.map r.token).map (·.kind) = tokens.map (·.kind) := by
  rw [List.map_map]
  rfl

/-- Lines are scanned one by one. -/
theorem ScansAs.stacked {file : FileId} {first : String} {others : List String}
    {ks : List TokenKind} {kss : List (List TokenKind)} (h : ScansAs file first ks)
    (hs : List.Forall₂ (ScansAs file) others kss) :
    ScansAs file (stacked first others) (stackedKinds ks kss) := by
  induction hs generalizing first ks with
  | nil =>
    unfold stackedKinds
    rwa [List.flatMap_nil, List.append_nil]
  | @cons line ks' others kss hline _ ih =>
    obtain ⟨tokens, hscans, rfl⟩ := h
    obtain ⟨tokens', hscans', rfl⟩ := hline
    have hboth : ScansAs file (first ++ "\n" ++ line)
        (tokens.map (·.kind) ++ .newline :: tokens'.map (·.kind)) := by
      refine ⟨_, hscans.line hscans' rfl, ?_⟩
      rw [List.map_append, List.map_cons, kinds_moved]
    have hall := ih hboth
    unfold stackedKinds at hall ⊢
    rwa [List.append_assoc, List.cons_append] at hall

/-- The kinds of the tokens of several lines and of the brace below them. -/
def closedKinds (kss : List (List TokenKind)) : List TokenKind :=
  kss.flatMap (· ++ [.newline]) ++ [.symbol .rBrace]

theorem closedKinds_cons (ks : List TokenKind) (kss : List (List TokenKind)) :
    closedKinds (ks :: kss) = ks ++ .newline :: closedKinds kss := by
  simp [closedKinds]

/-- The line breaks stand behind these lines as well as in front of them. -/
theorem closedKinds_eq (kss : List (List TokenKind)) :
    (kss ++ [[TokenKind.symbol .rBrace]]).flatMap (TokenKind.newline :: ·) =
      .newline :: closedKinds kss := by
  induction kss with
  | nil => rfl
  | cons ks kss ih =>
    rw [List.cons_append, List.flatMap_cons, ih, closedKinds_cons, List.cons_append]

/-- Tokens of the same kinds are the same but for their places. -/
theorem alike_of_kinds {xs ys : List Token} (h : xs.map (·.kind) = ys.map (·.kind)) :
    Likeness.bare.Alike xs ys := by
  induction xs generalizing ys with
  | nil =>
    obtain rfl : ys = [] := List.map_eq_nil_iff.1 h.symm
    rfl
  | cons x xs ih =>
    obtain ⟨y, ys, rfl, hkind, htail⟩ := List.map_eq_cons_iff.1 h.symm
    have htoken : Likeness.bare.Alike x y := (congrArg (Token.mk · default) hkind.symm :)
    exact htoken.cons (ih htail.symm)

theorem kinds_of_alike {l : Likeness} {xs ys : List Token} (h : l.Alike xs ys) :
    xs.map (·.kind) = ys.map (·.kind) := by
  have hmapped := congrArg (List.map Token.kind) h
  simpa [Labeled.relabel, Relabeling.token, Function.comp_def] using hmapped

/-- Tokens without an end mark among them make a text of their own. -/
theorem ParserState.start_alone {file : FileId} {ms : List Token} (h : ∀ t ∈ ms, t.kind ≠ .eof) :
    (ParserState.start file (ms ++ [⟨.eof, default⟩])).rest = ms :=
  start_rest h

/-- The tokens of a line, the line break behind it and the later tokens. -/
theorem split_line {tokens : List Token} {ks later : List TokenKind}
    (h : tokens.map (·.kind) = ks ++ .newline :: later) : ∃ ms y v, tokens = ms ++ y :: v ∧
      ms.map (·.kind) = ks ∧ y.kind = .newline ∧ v.map (·.kind) = later := by
  obtain ⟨ms, tail, rfl, hms, htail⟩ := List.map_eq_append_iff.1 h
  obtain ⟨y, v, rfl, hy, hv⟩ := List.map_eq_cons_iff.1 htail
  exact ⟨ms, y, v, rfl, hms, hy, hv⟩

/-- What tokens go on with is seen from their kinds. -/
theorem fresh_iff_kinds {tokens : List Token} {ks : List TokenKind}
    (h : tokens.map (·.kind) = ks) :
    Fresh tokens ↔ ∀ k ∈ (ks.dropWhile (· = .newline)).head?, k.continues = false := by
  subst h
  unfold Fresh
  have hdrop : (tokens.map (·.kind)).dropWhile (· = TokenKind.newline) =
      (tokens.dropWhile (·.kind = .newline)).map (·.kind) := List.dropWhile_map
  rw [hdrop, List.head?_map]
  simp

namespace Simulation

variable {like : Likeness} {base : List Group} {plain : ignoresNewlines base = false}
  {extra limit : Nat} {few : limit + extra ≤ maxErrors} {earlier : List Diagnostic} {w : List Token}
  {seam : Seam w} {s u : ParserState}

/-- Where a text inside a longer one is left, what is left of it stands in front of what is behind
it. -/
theorem Linked.rest_joined (h : (joining like base plain extra limit few earlier seam).Linked s u) :
    ∃ ms, ms.map (·.kind) = s.rest.map (·.kind) ∧ u.rest = ms ++ w := by
  obtain ⟨ms, hms, hrest⟩ := h.stream
  exact ⟨ms, (kinds_of_alike hms).symm, hrest⟩

end Simulation

/-- A state inside a block from which the front of its tokens was read there. -/
theorem InBlock.of_joined {K : Simulation} {w : List Token} {s u : ParserState} (h : K.Linked s u)
    (hbase : K.base = [⟨false, true⟩])
    (hjoined : ∃ ms, ms.map (·.kind) = s.rest.map (·.kind) ∧ u.rest = ms ++ w)
    (hgroups : s.groups = []) (hbrace : s.allowsBrace = true) (hw : ∀ t ∈ w, t.kind ≠ .eof) :
    InBlock s.halfShift (s.errorCount + K.extra) u.rest u := by
  refine ⟨⟨h.final, fun t ht => ?_⟩, rfl, ?_, h.brace.trans hbrace, h.half, h.count⟩
  · obtain ⟨ms, hms, hrest⟩ := hjoined
    rw [hrest] at ht
    rcases List.mem_append.1 ht with ht | ht
    · have hkind : t.kind ∈ s.rest.map (·.kind) := hms ▸ List.mem_map_of_mem ht
      obtain ⟨x, hx, hsame⟩ := List.mem_map.1 hkind
      exact hsame ▸ h.sound.rest x hx
    · exact hw t ht
  · rw [h.groups, hgroups, hbase]
    rfl

/-- A state inside a block from which a text was read there. -/
theorem InBlock.of_linked {count limit : Nat} {few : limit + count ≤ maxErrors}
    {earlier : List Diagnostic} {w : List Token} {seam : Seam w} {s u : ParserState}
    (h : (Simulation.joining .bare [⟨false, true⟩] rfl count limit few earlier seam).Linked s u)
    (hgroups : s.groups = []) (hbrace : s.allowsBrace = true) (hw : ∀ t ∈ w, t.kind ≠ .eof) :
    InBlock s.halfShift (s.errorCount + count) u.rest u :=
  .of_joined h rfl h.rest_joined hgroups hbrace hw

namespace ParserState

variable {s : ParserState} {p : TokenKind → Bool}

/-- Where line breaks count, only the token at hand is stepped over. -/
theorem advance_outside {x : Token} {xs : List Token} (hrest : s.rest = x :: xs)
    (hgroups : ignoresNewlines s.groups = false) :
    s.advance = { s with rest := xs, lastSpan := x.span } := by
  have hnone : (fun t : Token => breaks false t.kind) = fun _ => false := rfl
  have hdrop : xs.dropWhile (fun _ => false) = xs := by cases xs <;> rfl
  have htake : xs.takeWhile (fun _ => false) = [] := by cases xs <;> rfl
  rw [advance_eq hrest, hgroups, hnone, hdrop, htake]
  rfl

/-- The kind of the token at hand. -/
theorem kind_cons {x : Token} {xs : List Token} (hrest : s.rest = x :: xs) : s.kind = x.kind := by
  unfold kind current
  rw [hrest]
  rfl

/-- What is not to be skipped stays. -/
theorem skipWhile_stays (h : p s.kind = false) : s.skipWhile p = s := by
  obtain ⟨rest, final⟩ := s
  cases rest with
  | nil => rfl
  | cons x xs =>
    have hx : p x.kind = false := h
    unfold skipWhile
    rw [List.dropWhile_cons, List.takeWhile_cons, hx]
    rfl

/-- What is skipped is not at hand any more. -/
theorem skipWhile_kind (hfinal : p s.final.kind = false) : p (s.skipWhile p).kind = false := by
  change p ((s.rest.dropWhile (p ·.kind)).head?.getD s.final).kind = false
  have hhead := List.head?_dropWhile_not (p ·.kind) s.rest
  cases hdrop : (s.rest.dropWhile (p ·.kind)).head? with
  | none => exact hfinal
  | some t =>
    rw [hdrop] at hhead
    exact hhead

/-- Skipping goes token by token. -/
theorem skipWhile_stepped {x : Token} {xs : List Token} (hrest : s.rest = x :: xs)
    (hx : p x.kind = true) (hgroups : ignoresNewlines s.groups = false) :
    s.skipWhile p = s.advance.skipWhile p := by
  have hspan := lastSpanAfter_cons s.lastSpan x (xs.takeWhile (p ·.kind))
  rw [advance_outside hrest hgroups]
  unfold skipWhile
  rw [hrest, List.dropWhile_cons_of_pos (p := fun t : Token => p t.kind) hx,
    List.takeWhile_cons_of_pos (p := fun t : Token => p t.kind) hx]
  exact congrArg (fun span => ({ s with rest := _, lastSpan := span } : ParserState)) hspan

/-- More is skipped only where something more is at hand. -/
theorem skipWhile_more {q : TokenKind → Bool} (hpq : ∀ k, q k = true → p k = true)
    (h : p (s.skipWhile q).kind = false) (hgroups : ignoresNewlines s.groups = false) :
    s.skipWhile p = s.skipWhile q := by
  generalize hrest : s.rest = rest
  induction rest generalizing s with
  | nil =>
    unfold skipWhile
    rw [hrest]
    rfl
  | cons x xs ih =>
    cases hx : q x.kind with
    | false =>
      have hstays : s.skipWhile q = s := skipWhile_stays (by rwa [kind_cons hrest])
      rw [hstays] at h ⊢
      exact skipWhile_stays h
    | true =>
      rw [skipWhile_stepped hrest hx hgroups] at h ⊢
      rw [skipWhile_stepped hrest (hpq _ hx) hgroups]
      refine ih h (s.advance_groups.symm ▸ hgroups) ?_
      rw [advance_outside hrest hgroups]

end ParserState

namespace Parse

/-- A token that is at hand is stepped over. -/
theorem discard_expect {s : ParserState} {k : TokenKind} (h : s.kind = k) :
    discard (expect k) s = .ok () s.advance := by
  change ((fun _ => ()) <$> expect k : Parser Unit) s = _
  rw [map_run, expect_run, if_pos h]

/-- The state behind the opening brace of a body. -/
def insideBrace (s : ParserState) (x : Token) (rest : List Token) : ParserState :=
  { s with
    rest := rest
    lastSpan := x.span
    groups := [⟨false, s.allowsBrace⟩]
    allowsBrace := true }

/-- Through the brace the body is entered. -/
theorem openBrace_run {s : ParserState} {x : Token} {rest : List Token} (hrest : s.rest = x :: rest)
    (hgroups : s.groups = []) (hx : x.kind = .symbol .lBrace) {β : Type} (f : Parser β) :
    (discard (expectSymbol .lBrace) >>= fun _ => openGroup false >>= fun _ => f) s =
      f (insideBrace s x rest) := by
  have hplain : ignoresNewlines s.groups = false := by
    rw [hgroups]
    rfl
  have hopen : openGroup false s.advance = .ok () (insideBrace s x rest) := by
    rw [ParserState.advance_outside hrest hplain]
    unfold insideBrace
    change EStateM.Result.ok () { s with
      rest := rest, lastSpan := x.span, groups := ⟨false, s.allowsBrace⟩ :: s.groups,
      allowsBrace := true } = _
    rw [hgroups]
  exact (bind_run (discard_expect ((ParserState.kind_cons hrest).trans hx))).trans (bind_run hopen)

end Parse

namespace InBlock

variable {half : Bool} {count : Nat} {rest : List Token} {t : ParserState}

/-- Nothing but what is read next and where the last token stood may be different. -/
theorem skipped (h : InBlock half count rest t) (p : TokenKind → Bool) :
    InBlock half count (rest.dropWhile (p ·.kind)) (t.skipWhile p) where
  sound := (t.skipWhile_onward p).sound h.sound
  rest := congrArg (List.dropWhile fun x : Token => p x.kind) h.rest
  groups := h.groups
  brace := h.brace
  half := h.half
  count := h.count

/-- The token at hand is stepped over. -/
theorem stepped {x : Token} {xs : List Token} (h : InBlock half count (x :: xs) t) :
    InBlock half count xs t.advance := by
  have sound := t.advance_onward.sound h.sound
  have hplain : ignoresNewlines t.groups = false := by
    rw [h.groups]
    rfl
  rw [ParserState.advance_outside h.rest hplain] at sound ⊢
  exact ⟨sound, rfl, h.groups, h.brace, h.half, h.count⟩

/-- The kind of the token at hand. -/
theorem kind {x : Token} {xs : List Token} (h : InBlock half count (x :: xs) t) : t.kind = x.kind :=
  ParserState.kind_cons h.rest

end InBlock

end FrontEnd
