import FrontEnd.Proofs.Placing.Declarations
import FrontEnd.Proofs.Tracing.Files

/-!
# Spans of the nodes of a file

Of a text that is read without errors all spans are known: they begin with a token, hold whatever is
inside, follow each other where nodes do, and end with a token that is no line break. Only between
delimiters, where line breaks are ignored, and in front of a `>>` a span may take in line breaks
behind its last token, since a step over a token ends behind the line breaks stepped over with it.
-/

namespace FrontEnd

namespace Node

/-- Whatever is in one tree ends before anything in another begins. -/
def Before {c d : Category} (a : Node c) (b : Node d) : Prop :=
  a.Forall fun m => ∀ x ∈ m.places, b.Forall fun m' => ∀ y ∈ m'.places, x.stop ≤ y.pos

/-- How the places of a node and of what is inside it lie in a text. -/
structure Nested (file : FileId) (text : List Char) (tokens : List Token) {c : Category}
    (n : Node c) : Prop where
  inside : ∀ span ∈ n.span?, span.file = file ∧ span.stop ≤ Text.byteSize text
  begins : ∀ span ∈ n.span?, ∃ t ∈ tokens, t.kind ≠ .eof ∧ t.span.pos = span.pos
  holds : ∀ span ∈ n.span?, n.Forall fun m => ∀ place ∈ m.places,
    span.pos ≤ place.pos ∧ place.stop ≤ span.stop
  /-- The parts of a node follow each other. -/
  parts : n.parts.Pairwise fun a b => a.2.Before b.2
  /-- The nodes of a sequence follow each other. -/
  elements : n.elements.Pairwise Before

/-- What follows from what holds anywhere in a tree holds anywhere in it. -/
theorem Forall.anywhere {P Q : {c : Category} → Node c → Prop}
    (h : ∀ {c : Category} (n : Node c), n.Forall P → Q n) {c : Category} {n : Node c}
    (hn : n.Forall P) : n.Forall Q :=
  induction_parts (motive := fun n => n.Forall P → n.Forall Q)
    (fun n ih hn => forall_of_parts (h n hn) fun m hm => ih m hm (hn.parts m hm)) n hn

/-- What stands before a sequence stands before its nodes. -/
theorem Before.element {c d : Category} {a : Node c} {ns : Node (.many d)} (h : a.Before ns) :
    ∀ n ∈ ns.toList, a.Before n := fun n hn =>
  Forall.imp (fun _ hm x hx => forall_toList ns (hm x hx) n hn) h

/-- Nodes of a sequence follow each other if the parts of all its nodes do. -/
theorem elements_ordered {c : Category} {n : Node c}
    (h : n.Forall fun m => m.parts.Pairwise fun a b => a.2.Before b.2) :
    n.elements.Pairwise Before := by
  induction n with
  | cons n ns _ ih =>
    refine List.pairwise_cons.2 ⟨?_, ih h.2.2⟩
    exact Before.element ((List.pairwise_cons.1 h.1).1 _ List.mem_cons_self)
  | _ => exact .nil

end Node

/-- A span that ends with a token, which is no line break, or with the line breaks behind it. Those
are ignored, or stand in front of a `>>`. -/
def EndsBehind (tokens : List Token) (ignores : Bool) (span : Span) : Prop :=
  ∃ front t breaks back, tokens = front ++ t :: (breaks ++ back) ∧
    (t.kind ≠ .newline ∧ t.kind ≠ .eof) ∧ (∀ b ∈ breaks, b.kind = .newline) ∧
    span.stop = (lastSpanAfter t.span breaks).stop ∧
    (breaks ≠ [] → ignores = true ∨ back.head?.map (·.kind) = some (.symbol .shr))

/-- A span of a single token with all line breaks behind it that are ignored. -/
def SpansToken (tokens : List Token) (ignores : Bool) (t : Token) (span : Span) : Prop :=
  ∃ front breaks back, tokens = front ++ t :: (breaks ++ back) ∧
    (∀ b ∈ breaks, b.kind = .newline) ∧ span = t.span.cover (lastSpanAfter t.span breaks) ∧
    (ignores = false → breaks = []) ∧
    (ignores = true → back.head?.map (·.kind) ≠ some .newline)

/-- The span of a literal, and that of an expression which is one name, is the one of its token. A
name with an empty list of type arguments is written with a `::`. -/
def Node.OneToken (tokens : List Token) (ignores : Bool) : {c : Category} → Node c → Prop
  | _, .expr o (.literal l) =>
    ∃ t, Literal.ofToken? t.kind = some l ∧ SpansToken tokens ignores t o.span
  | _, .expr o (.name ident _) =>
    SpansToken tokens ignores ⟨.ident ident.name, ident.span⟩ o.span ∨
      o.span.pos = ident.span.pos ∧ ∃ t ∈ tokens, t.kind = .symbol .path ∧
        ident.span.stop ≤ t.span.pos ∧ t.span.stop ≤ o.span.stop
  | _, _ => True

/-- Where the span of a node ends. -/
structure Node.Ended (tokens : List Token) (ignores : Bool) {c : Category} (n : Node c) : Prop where
  ends : ∀ span ∈ n.span?, EndsBehind tokens ignores span
  oneToken : n.OneToken tokens ignores

namespace TokenStream

variable {K : TokenStream} {i j k : Nat} {ignores : Bool} {c d : Category}

/-- The tokens from one place up to another, around the first of them. -/
theorem split_tokens (hij : i < j) (hj : j ≤ K.tokens.length) : ∃ breaks,
    K.tokens = K.tokens.take i ++ K.tokenAt i :: (breaks ++ K.tokens.drop j) ∧
      lastSpanAfter (K.tokenAt i).span breaks = (K.tokenAt (j - 1)).span ∧
        breaks.length = j - (i + 1) ∧
          ∀ b ∈ breaks, ∃ m, i < m ∧ m < j ∧ b = K.tokenAt m := by
  obtain ⟨n, rfl⟩ : ∃ n, j = i + 1 + n := ⟨j - (i + 1), by omega⟩
  have hdrop : K.tokens.drop i = K.tokenAt i :: K.tokens.drop (i + 1) := by
    rw [tokenAt_eq (by omega), List.drop_eq_getElem_cons (by omega)]
  have hget {m : Nat} (hm : m < n) :
      ((K.tokens.drop (i + 1)).take n)[m]? = some (K.tokenAt (i + 1 + m)) := by
    rw [List.getElem?_take_of_lt hm, List.getElem?_drop, tokenAt_eq (by omega),
      List.getElem?_eq_getElem (by omega)]
  have hlength : ((K.tokens.drop (i + 1)).take n).length = n := by
    rw [List.length_take, List.length_drop]
    omega
  refine ⟨(K.tokens.drop (i + 1)).take n, ?_, ?_, ?_, fun b hb => ?_⟩
  · have hrest : (K.tokens.drop (i + 1)).take n ++ K.tokens.drop (i + 1 + n) =
        K.tokens.drop (i + 1) := by
      rw [show K.tokens.drop (i + 1 + n) = (K.tokens.drop (i + 1)).drop n from
        List.drop_drop.symm, List.take_append_drop]
    rw [hrest, ← hdrop, List.take_append_drop]
  · unfold lastSpanAfter
    rw [List.getLast?_eq_getElem?, hlength]
    rcases Nat.eq_zero_or_pos n with rfl | hn
    · rfl
    · rw [hget (by omega)]
      have : i + 1 + (n - 1) = i + 1 + n - 1 := by omega
      rw [this]
      rfl
  · rw [hlength]
    omega
  · obtain ⟨m, hm, rfl⟩ := List.mem_iff_getElem.1 hb
    rw [hlength] at hm
    refine ⟨i + 1 + m, by omega, by omega, ?_⟩
    have := hget hm
    rw [List.getElem?_eq_getElem (by omega)] at this
    exact Option.some.inj this

/-- The kind at a place is that of the first token behind it. -/
theorem head?_drop (h : j < K.tokens.length) (tail : List Token) :
    (K.tokens.drop j ++ tail).head? = some (K.tokenAt j) := by
  rw [List.drop_eq_getElem_cons h, tokenAt_eq h]
  rfl

/-- A span that covers some tokens is determined by them. -/
theorem Covers.unique {a b : Span} (ha : K.Covers i j a) (hb : K.Covers i j b) : a = b := by
  have hpos := ha.pos.trans hb.pos.symm
  have hstop := ha.stop.trans hb.stop.symm
  have hfile := ha.file.trans hb.file.symm
  obtain ⟨_, _, _⟩ := a
  obtain ⟨_, _, _⟩ := b
  simp only [Span.stop] at hpos hstop hfile
  rw [Span.mk.injEq]
  exact ⟨hpos, by omega, hfile⟩

variable {n : Node c} {span : Span}

/-- Tokens in front of a place stand before those behind it. -/
theorem Within.before {a b : Span} (ha : K.Within i k a) (hb : K.Within k j b) :
    a.stop ≤ b.pos := by
  obtain ⟨_, m, -, hm, hcovers⟩ := ha
  obtain ⟨m', _, hm', -, hcovers'⟩ := hb
  have hlt := hcovers.lt
  have hlt' := hcovers'.lt
  have hle' := hcovers'.le
  rw [hcovers.stop, hcovers'.pos]
  exact stop_le_pos (by omega) (by omega)

/-- A span holds those of its tokens. -/
theorem Covers.holds {a b : Span} (ha : K.Covers i j a) (hb : K.Within i j b) :
    a.pos ≤ b.pos ∧ b.stop ≤ a.stop := by
  obtain ⟨m, m', hm, hm', hcovers⟩ := hb
  have hlt := hcovers.lt
  have hle := ha.le
  rw [ha.pos, ha.stop, hcovers.pos, hcovers.stop]
  exact ⟨pos_mono hm (by omega), stop_mono (by omega) (by omega)⟩

theorem Holds.before {m : Node d} (hn : K.Holds i k n) (hm : K.Holds k j m) : n.Before m :=
  hn.imp fun _ hx x hmem => hm.imp fun _ hy y hmem' => (hx x hmem).before (hy y hmem')

theorem mem_tokenAt (h : i < K.tokens.length) : K.tokenAt i ∈ K.tokens :=
  tokenAt_eq h ▸ List.getElem_mem h

/-- The parts of a node that stands where it should follow each other. -/
theorem Placed.parts (h : K.Placed ignores n) : n.parts.Pairwise fun a b => a.2.Before b.2 :=
  h.ordered.imp fun ⟨_, ha, hb⟩ => ha.before hb

/-- A span ends behind one of its tokens. -/
theorem Ends.behind_token {tail : List Token} (covers : K.Covers i j span)
    (ends : K.Ends ignores j) : EndsBehind (K.tokens ++ tail) ignores span := by
  obtain ⟨k, hk, hkind, hbreaks, hmore⟩ := ends.last
  have hj := ends.le
  obtain ⟨breaks, htokens, hlast, hlength, hall⟩ := split_tokens hk hj
  refine ⟨K.tokens.take k, K.tokenAt k, breaks, K.tokens.drop j ++ tail, ?_,
    ⟨hkind, kindAt_ne_eof (hk.trans_le hj)⟩, fun b hb => ?_, ?_, fun hsome => ?_⟩
  · conv_lhs => rw [htokens]
    simp only [List.append_assoc, List.cons_append]
  · obtain ⟨m, hkm, hmj, rfl⟩ := hall b hb
    exact hbreaks m hkm hmj
  · rw [hlast, covers.stop]
  · have hpos := List.length_pos_iff.2 hsome
    refine (hmore (by omega)).imp_right fun hshr => ?_
    rw [head?_drop (lt_of_kindAt (by rw [hshr]; nofun))]
    exact congrArg some hshr

/-- A span of a single token. -/
theorem Steps.spans_token {eof : Token} (covers : K.Covers i j span)
    (steps : K.Steps ignores i j) (heof : eof.kind = .eof) :
    SpansToken (K.tokens ++ [eof]) ignores (K.tokenAt i) span := by
  obtain ⟨breaks, htokens, hlast, hlength, hall⟩ := split_tokens steps.lt steps.le
  have hi : i < K.tokens.length := steps.lt.trans_le steps.le
  refine ⟨K.tokens.take i, breaks, K.tokens.drop j ++ [eof], ?_, fun b hb => ?_, ?_,
    fun hcounts => ?_, fun hignores => ?_⟩
  · conv_lhs => rw [htokens]
    simp only [List.append_assoc, List.cons_append]
  · obtain ⟨m, him, hmj, rfl⟩ := hall b hb
    exact steps.breaks m him hmj
  · have hback : K.Covers (j - 1) j (K.tokenAt (j - 1)).span := by
      have := covers_token (K := K) (i := j - 1) (by have := steps.lt; have := steps.le; omega)
      rwa [Nat.sub_add_cancel (by have := steps.lt; omega)] at this
    rw [hlast]
    have hle := steps.lt
    exact covers.unique ((covers_token hi).cover hback (by omega) (by omega))
  · rw [steps.single hcounts] at hlength
    exact List.eq_nil_of_length_eq_zero (by omega)
  · have hkind := steps.whole hignores
    rcases Nat.lt_or_ge j K.tokens.length with hj | hj
    · rw [head?_drop hj]
      exact fun h => hkind (Option.some.inj h)
    · rw [List.drop_eq_nil_of_le hj]
      exact fun h => nomatch heof.symm.trans (Option.some.inj h)

/-- The span of an expression that is a single token. -/
theorem Single.oneToken {eof : Token} (heof : eof.kind = .eof) (h : K.Single ignores n) :
    n.OneToken (K.tokens ++ [eof]) ignores := by
  unfold Node.OneToken
  split
  · obtain ⟨i, j, covers, hliteral, steps⟩ := h
    exact ⟨K.tokenAt i, hliteral, steps.spans_token covers heof⟩
  · rename_i o ident slot
    obtain ⟨i, j, covers, htoken, steps | ⟨m, him, hmj, hpath⟩⟩ := h
    · exact .inl (htoken ▸ steps.spans_token covers heof)
    · have hlt := covers.lt
      have hle := covers.le
      have hspan : ident.span = (K.tokenAt i).span := by rw [htoken]
      refine .inr ⟨by rw [covers.pos, hspan], K.tokenAt m,
        List.mem_append_left _ (mem_tokenAt (by omega)), hpath, ?_, ?_⟩
      · rw [hspan]
        exact stop_le_pos him (by omega)
      · rw [covers.stop]
        exact stop_mono (by omega) (by omega)
  · trivial

/-- What is said of the span of a node follows from the places it covers. -/
theorem Placed.ended {eof : Token} (heof : eof.kind = .eof) (h : K.Placed ignores n) :
    n.Ended (K.tokens ++ [eof]) ignores where
  ends span hspan := by
    obtain ⟨i, j, covers, ends, -⟩ := h.spanned span hspan
    exact ends.behind_token covers
  oneToken := h.single.oneToken heof

/-- Nodes that stand where they should are nested. -/
theorem nested_of_placed {file : FileId} {text : List Char} {tail : List Token}
    (hinside : ∀ t ∈ K.tokens, t.span.file = file ∧ t.span.stop ≤ Text.byteSize text)
    (h : n.Throughout K.Placed ignores) : n.Forall (Node.Nested file text (K.tokens ++ tail)) := by
  have hparts : n.Forall fun m => m.parts.Pairwise fun a b => a.2.Before b.2 :=
    h.forall fun hm => hm.parts
  have hspans : n.Forall fun m => ∀ span ∈ m.span?, ∃ i j, K.Covers i j span ∧ K.Holds i j m :=
    h.forall fun hm span hspan =>
      let ⟨i, j, covers, _, holds⟩ := hm.spanned span hspan
      ⟨i, j, covers, holds⟩
  refine (hparts.and hspans).anywhere fun m hm => ?_
  have hown := (hm.imp fun _ => And.right).root
  refine ⟨fun span hspan => ?_, fun span hspan => ?_, fun span hspan => ?_,
    (hm.imp fun _ => And.left).root, Node.elements_ordered (hm.imp fun _ => And.left)⟩
  all_goals
    obtain ⟨i, j, covers, holds⟩ := hown span hspan
    have hlt := covers.lt
    have hle := covers.le
  · rw [covers.file, covers.stop]
    exact ⟨(hinside _ (mem_tokenAt (by omega))).1, (hinside _ (mem_tokenAt (by omega))).2⟩
  · refine ⟨K.tokenAt i, List.mem_append_left _ (mem_tokenAt (by omega)), ?_, covers.pos.symm⟩
    exact kindAt_ne_eof (by omega)
  · exact holds.imp fun _ hx place hplace => covers.holds (hx place hplace)

end TokenStream

/-- All tokens of a cut belong to the file. -/
theorem Cut.file {file : FileId} {pos : Nat} {text : List Char} {tokens : List Token}
    (h : Cut file pos text tokens) : ∀ t ∈ tokens, t.span.file = file := by
  induction h with
  | done _ => exact List.forall_mem_singleton.2 rfl
  | token _ _ _ _ ih => exact List.forall_mem_cons.2 ⟨rfl, ih⟩

/-- The statements of a file that is read without errors follow each other, and every node in them
stands where it should among the tokens of the text. -/
theorem parse_places {file : FileId} {text : String} {lexed : Lexed} {p : Parsed}
    (hlex : lex file text = .ok lexed) (hparse : parse file lexed.tokens = .ok p)
    (clean : Diagnostic.anyError p.diagnostics = false) : ∃ (K : TokenStream) (eof : Token)
    (j : Nat),
      lexed.tokens = K.tokens ++ [eof] ∧ eof.kind = .eof ∧
        (∀ t ∈ K.tokens, t.span.file = file ∧ t.span.stop ≤ Text.byteSize text.toList) ∧
          K.Row 0 j (p.stmts.map fun s => (⟨_, s⟩, false)) := by
  have hlossless := lex_lossless hlex
  obtain ⟨before, hbefore, hkinds⟩ := hlossless.ends
  have hordered := hlossless.ordered
  rw [hbefore] at hordered
  let K : TokenStream := ⟨before, ⟨.eof, Text.byteSize text.toList, 0, file⟩, rfl,
    fun t ht => (hkinds t ht).1, (List.pairwise_append.1 hordered).1⟩
  have start : K.At 0 [] (.start file lexed.tokens) := by
    refine ⟨?_, ?_, Nat.zero_le _, fun h => absurd h (Nat.lt_irrefl 0), rfl⟩
    · rw [hbefore]
      exact ParserState.start_rest fun t ht => (hkinds t ht).1
    · rw [hbefore]
      exact ParserState.start_final_mark fun t ht => (hkinds t ht).1
  obtain ⟨hfile, hdiagnostics⟩ := parse_ok hparse
  have free : (endState file lexed.tokens).ErrorFree := by
    unfold ParserState.ErrorFree
    rw [hdiagnostics]
    exact clean
  obtain ⟨j, -, row⟩ := (Parse.file_places _).runs start hfile free
  refine ⟨K, _, j, hbefore, rfl, fun t ht => ?_, row⟩
  have hmem : t ∈ lexed.tokens := hbefore ▸ List.mem_append_left _ ht
  exact ⟨(lex_cut hlex).file t hmem, hlossless.inside t hmem⟩

/-- **Spans nest.** In a text that is read without errors the span of every node lies inside the
text, begins where a token begins, and holds all spans and names inside the node. The parts of a
node follow each other without overlapping, and so do the nodes of every sequence and the statements
of the file. -/
theorem parse_nested {file : FileId} {text : String} {lexed : Lexed} {p : Parsed}
    (hlex : lex file text = .ok lexed) (hparse : parse file lexed.tokens = .ok p)
    (clean : Diagnostic.anyError p.diagnostics = false) :
    (∀ s ∈ p.stmts, s.Forall (Node.Nested file text.toList lexed.tokens)) ∧
      p.stmts.Pairwise Node.Before := by
  obtain ⟨K, eof, j, htokens, -, hinside, row⟩ := parse_places hlex hparse clean
  refine ⟨fun s hs => ?_, ?_⟩
  · rw [htokens]
    exact TokenStream.nested_of_placed hinside (row.lies _ (List.mem_map_of_mem hs)).placed
  · have hordered := row.ordered
    rw [List.map_map, List.pairwise_map] at hordered
    exact hordered.imp fun ⟨_, ha, hb⟩ => ha.before hb

/-- Nodes at every depth of a function whose body has a call over several lines. -/
theorem parse_nested_function : ∃ lexed p,
    lex ⟨0⟩ "func f(a: A<B<C>>) \x7b\n  g((a\n), [1,\n 2])\n\x7d" = .ok lexed ∧
      parse ⟨0⟩ lexed.tokens = .ok p ∧
      (∀ s ∈ p.stmts, s.Forall (Node.Nested ⟨0⟩
        "func f(a: A<B<C>>) \x7b\n  g((a\n), [1,\n 2])\n\x7d".toList lexed.tokens)) ∧
      p.stmts.Pairwise Node.Before := by
  obtain ⟨lexed, p, hlex, hparse, clean⟩ :=
    exists_of_readsClean ⟨0⟩ "func f(a: A<B<C>>) \x7b\n  g((a\n), [1,\n 2])\n\x7d"
    (by decide +kernel)
  obtain ⟨nested, ordered⟩ := parse_nested hlex hparse clean
  exact ⟨lexed, p, hlex, hparse, nested, ordered⟩

/-- **Where spans end.** In a text that is read without errors the span of every node ends with a
token that is no line break. Where line breaks are ignored, or in front of a `>>`, the line breaks
behind that token may belong to the span, too. The span of a literal or a single name is the one of
its token, with all line breaks behind it where they are ignored. -/
theorem parse_ended {file : FileId} {text : String} {lexed : Lexed} {p : Parsed}
    (hlex : lex file text = .ok lexed) (hparse : parse file lexed.tokens = .ok p)
    (clean : Diagnostic.anyError p.diagnostics = false) :
    ∀ s ∈ p.stmts, s.Throughout (Node.Ended lexed.tokens) false := by
  obtain ⟨K, eof, j, htokens, heof, -, row⟩ := parse_places hlex hparse clean
  intro s hs
  rw [htokens]
  exact (row.lies _ (List.mem_map_of_mem hs)).placed.imp fun hm => hm.ended heof

/-- A variable whose type ends with a `>>` behind a line break, and whose value is in
parentheses. -/
theorem parse_ended_variable : ∃ lexed p,
    lex ⟨0⟩ "val a: A<B<C,\n>> = (b\n)" = .ok lexed ∧ parse ⟨0⟩ lexed.tokens = .ok p ∧
      ∀ s ∈ p.stmts, s.Throughout (Node.Ended lexed.tokens) false := by
  obtain ⟨lexed, p, hlex, hparse, clean⟩ :=
    exists_of_readsClean ⟨0⟩ "val a: A<B<C,\n>> = (b\n)" (by decide +kernel)
  exact ⟨lexed, p, hlex, hparse, parse_ended hlex hparse clean⟩

/-- Line breaks do belong to spans: in `(x` with a line break in front of the closing parenthesis,
the span of the name `x` ends behind the line break, where no other token ends. -/
theorem parse_ended_newline : ∃ lexed p, lex ⟨0⟩ "(x\n)" = .ok lexed ∧
    parse ⟨0⟩ lexed.tokens = .ok p ∧ Diagnostic.anyError p.diagnostics = false ∧
    ¬∀ s ∈ p.stmts, s.Forall fun n => ∀ span ∈ n.span?,
      ∃ t ∈ lexed.tokens, t.kind ≠ .newline ∧ t.span.stop = span.stop := by
  obtain ⟨lexed, p, hlex, hparse, test⟩ := exists_of_readsTo (show readsTo ⟨0⟩ "(x\n)"
    (fun tokens p => !Diagnostic.anyError p.diagnostics &&
      p.stmts.any fun s => (s.collect Node.span? []).any fun span =>
        !tokens.any fun t => t.kind ≠ .newline ∧ t.span.stop = span.stop) = true by decide +kernel)
  obtain ⟨clean, hany⟩ := Bool.and_eq_true_iff.1 test
  obtain ⟨s, hs, hspans⟩ := List.any_eq_true.1 hany
  obtain ⟨span, hspan, hnone⟩ := List.any_eq_true.1 hspans
  refine ⟨lexed, p, hlex, hparse, by simpa using clean, fun h => ?_⟩
  obtain ⟨t, ht, hend⟩ :=
    Node.forall_collect Node.span? (fun _ hn => hn.root) s (h s hs) span hspan
  simp only [Bool.not_eq_true', List.any_eq_false, decide_eq_true_eq] at hnone
  exact hnone t ht hend

end FrontEnd
