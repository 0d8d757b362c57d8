import FrontEnd.Proofs.Placing.Trees
import FrontEnd.Proofs.States
import Mathlib.Data.List.TakeWhile

/-!
# Where nodes stand among the tokens

The tokens of a text are counted from zero, and a place in the text lies between two of them. A node
covers the tokens from one place up to another. `Places` says of a parser how the place at which a
run without errors ends and its result are related. The rules follow the way parsers are put
together; what is known of one run becomes an assumption of what is said of the next.
-/

namespace FrontEnd

/-- The tokens of a text, one behind the other, and the mark at its end. -/
structure TokenStream where
  tokens : List Token
  final : Token
  final_kind : final.kind = .eof
  kinds : ∀ t ∈ tokens, t.kind ≠ .eof
  ordered : tokens.Pairwise fun a b => a.span.pos < b.span.pos ∧ a.span.stop ≤ b.span.pos

/-- Whether line breaks are ignored inside some groups. -/
def ignored : List Bool → Bool
  | [] => false
  | ignores :: _ => ignores

namespace TokenStream

variable (K : TokenStream)

/-- The token at a place. -/
def tokenAt (i : Nat) : Token := K.tokens[i]?.getD K.final

/-- The kind of the token at a place. -/
def kindAt (i : Nat) : TokenKind := (K.tokenAt i).kind

/-- A span that covers the tokens from one place up to another. -/
structure Covers (i j : Nat) (span : Span) : Prop where
  lt : i < j
  le : j ≤ K.tokens.length
  pos : span.pos = (K.tokenAt i).span.pos
  stop : span.stop = (K.tokenAt (j - 1)).span.stop
  file : span.file = (K.tokenAt i).span.file

/-- A span of some of the tokens between two places. -/
def Within (i j : Nat) (span : Span) : Prop := ∃ a b, i ≤ a ∧ b ≤ j ∧ K.Covers a b span

/-- A tree all of whose places are between two places. -/
def Holds (i j : Nat) {c : Category} (n : Node c) : Prop :=
  n.Forall fun m => ∀ span ∈ m.places, K.Within i j span

/-- A single token was stepped over, with all line breaks behind it where they are ignored. -/
structure Steps (ignores : Bool) (i j : Nat) : Prop where
  lt : i < j
  le : j ≤ K.tokens.length
  breaks : ∀ m, i < m → m < j → K.kindAt m = .newline
  single : ignores = false → j = i + 1
  whole : ignores = true → K.kindAt j ≠ .newline

/-- A place where something may end: behind a token that is no line break, or behind such a token
and line breaks, which are ignored there or stand in front of a `>>`. -/
structure Ends (ignores : Bool) (j : Nat) : Prop where
  le : j ≤ K.tokens.length
  last : ∃ k, k < j ∧ K.kindAt k ≠ .newline ∧ (∀ m, k < m → m < j → K.kindAt m = .newline) ∧
    (k + 1 < j → ignores = true ∨ K.kindAt j = .symbol .shr)

/-- Where an expression of a single token stands, and a value behind its keyword. A name may have
empty type arguments. A field without a label does not begin like one with a mark or a label, and a
name by itself is such a field. -/
def Single (ignores : Bool) : {c : Category} → Node c → Prop
  | _, .expr o (.literal l) => ∃ i j, K.Covers i j o.span ∧ Literal.ofToken? (K.kindAt i) = some l ∧
    K.Steps ignores i j
  | _, .expr o (.name ident _) => ∃ i j, K.Covers i j o.span ∧
    K.tokenAt i = ⟨.ident ident.name, ident.span⟩ ∧
      (K.Steps ignores i j ∨ ∃ m, i < m ∧ m < j ∧ K.kindAt m = .symbol .path)
  | _, .expr o (.break_ value) | _, .expr o (.return_ value) =>
    ∃ i j, K.Covers i j o.span ∧ K.Holds (i + 1) j value
  | _, .shorthandField value => ∃ i j, K.Covers i j value.span ∧ K.kindAt i ≠ .symbol .spread ∧
    ∀ ident : Ident, K.tokenAt i = ⟨.ident ident.name, ident.span⟩ →
      K.kindAt (i + 1) ≠ .symbol .colon ∧ ∀ k, K.Steps true i k →
        K.kindAt k = .symbol .comma ∨ K.kindAt k = .symbol .rBrace →
          ∃ o, value = .expr o (.name ident .empty)
  | _, _ => True

/-- A node that stands where it should: its span holds all places inside it and ends where it may,
and its parts follow each other. -/
structure Placed (ignores : Bool) {c : Category} (n : Node c) : Prop where
  spanned : ∀ span ∈ n.span?, ∃ i j, K.Covers i j span ∧ K.Ends ignores j ∧ K.Holds i j n
  ordered : n.parts.Pairwise fun a b =>
    ∃ k, K.Holds 0 k a.2 ∧ K.Holds k K.tokens.length b.2
  single : K.Single ignores n

/-- A tree between two places. -/
structure Lies (ignores : Bool) (i j : Nat) {c : Category} (n : Node c) : Prop where
  le : i ≤ j
  inside : j ≤ K.tokens.length
  placed : n.Throughout K.Placed ignores
  holds : K.Holds i j n

/-- Trees that follow each other between two places. -/
inductive Row : Nat → Nat → List (((c : Category) × Node c) × Bool) → Prop
  | nil {i j : Nat} (h : i ≤ j) (hj : j ≤ K.tokens.length) : Row i j []
  | cons {i a b j : Nat} {ignores : Bool} {c : Category} {n : Node c}
    {others : List (((c : Category) × Node c) × Bool)} (lies : K.Lies ignores a b n)
    (h : i ≤ a) (row : Row b j others) : Row i j ((⟨c, n⟩, ignores) :: others)

/-- A node that reaches from one place to another, where it may end. -/
structure Tight (ignores : Bool) (i j : Nat) {c : Category} (n : Node c) : Prop where
  lies : K.Lies ignores i j n
  lt : i < j
  ends : K.Ends ignores j
  span : ∀ span ∈ n.span?, K.Covers i j span

/-- A node that was read from one place up to another. The node itself may end earlier. -/
structure Whole (ignores : Bool) (i j : Nat) {c : Category} (n : Node c) : Prop where
  ends : K.Ends ignores j
  tight : ∃ m ≤ j, K.Tight ignores i m n

/-- A part between two places that may be missing. -/
structure Perhaps (ignores : Bool) (i j : Nat) {c : Category} (n : Node c) : Prop where
  lies : K.Lies ignores i j n
  ends : K.Ends ignores i → K.Ends ignores j

/-- A name at a place, and a step over it. -/
structure Named (ignores : Bool) (i j : Nat) (ident : Ident) : Prop where
  token : K.tokenAt i = ⟨.ident ident.name, ident.span⟩
  steps : K.Steps ignores i j

/-- A token of some kind is stepped over if it is at a place; the flag tells whether it is. -/
structure Accepted (ignores : Bool) (k : TokenKind) (i j : Nat) (found : Bool) : Prop where
  yes : found = true → K.kindAt i = k ∧ K.Steps ignores i j
  no : ¬found = true → j = i
  missing : ¬found = true → K.kindAt i ≠ k

/-- The text from a span on up to a place, whatever the span starts with. -/
def Since (start : Span) (j : Nat) (span : Span) : Prop :=
  ∀ a m, K.Covers a m start → m ≤ j → K.Covers a j span

/-- Line breaks from one place up to another. -/
structure Breaks (i j : Nat) : Prop where
  le : i ≤ j
  inside : j ≤ K.tokens.length
  all : ∀ m, i ≤ m → m < j → K.kindAt m = .newline

end TokenStream

namespace TokenStream

variable {K : TokenStream} {i j k l : Nat} {span : Span} {ignores : Bool} {c : Category}
  {n : Node c}

section Tokens

/-- Among the tokens it is the token there. -/
theorem tokenAt_eq (h : i < K.tokens.length) : K.tokenAt i = K.tokens[i] := by
  unfold tokenAt
  rw [List.getElem?_eq_getElem h]
  rfl

/-- Behind them it is the end mark. -/
theorem tokenAt_final (h : K.tokens.length ≤ i) : K.tokenAt i = K.final := by
  unfold tokenAt
  rw [List.getElem?_eq_none h]
  rfl

/-- The end mark is found behind the tokens. -/
theorem kindAt_eof (h : K.tokens.length ≤ i) : K.kindAt i = .eof := by
  unfold kindAt
  rw [tokenAt_final h]
  exact K.final_kind

/-- The end mark is behind all tokens. -/
theorem lt_of_kindAt (h : K.kindAt i ≠ .eof) : i < K.tokens.length :=
  Nat.lt_of_not_le fun hle => h (kindAt_eof hle)

/-- It is not found among them. -/
theorem kindAt_ne_eof (h : i < K.tokens.length) : K.kindAt i ≠ .eof := by
  unfold kindAt
  rw [tokenAt_eq h]
  exact K.kinds _ (List.getElem_mem h)

/-- Tokens do not overlap. -/
theorem stop_le_pos (h : i < j) (hj : j < K.tokens.length) :
    (K.tokenAt i).span.stop ≤ (K.tokenAt j).span.pos := by
  rw [tokenAt_eq (h.trans hj), tokenAt_eq hj]
  exact (List.pairwise_iff_getElem.1 K.ordered i j (h.trans hj) hj h).2

/-- Later tokens start strictly later. -/
theorem pos_lt_pos (h : i < j) (hj : j < K.tokens.length) :
    (K.tokenAt i).span.pos < (K.tokenAt j).span.pos := by
  rw [tokenAt_eq (h.trans hj), tokenAt_eq hj]
  exact (List.pairwise_iff_getElem.1 K.ordered i j (h.trans hj) hj h).1

/-- Later tokens do not start earlier. -/
theorem pos_mono (h : i ≤ j) (hj : j < K.tokens.length) :
    (K.tokenAt i).span.pos ≤ (K.tokenAt j).span.pos := by
  rcases Nat.eq_or_lt_of_le h with rfl | hlt
  · exact Nat.le_refl _
  · exact Nat.le_of_lt (pos_lt_pos hlt hj)

/-- Later tokens end later. -/
theorem stop_mono (h : i ≤ j) (hj : j < K.tokens.length) :
    (K.tokenAt i).span.stop ≤ (K.tokenAt j).span.stop := by
  rcases Nat.eq_or_lt_of_le h with rfl | hlt
  · exact Nat.le_refl _
  · exact (stop_le_pos hlt hj).trans (Nat.le_add_right _ _)

end Tokens

section Spans

/-- A single token covers itself. -/
theorem covers_token (h : i < K.tokens.length) : K.Covers i (i + 1) (K.tokenAt i).span :=
  ⟨Nat.lt_succ_self i, h, rfl, rfl, rfl⟩

/-- The text from a token on. -/
theorem Since.token {start : Span} (h : K.Since start j span) (hstart : (K.tokenAt i).span = start)
    (hij : i < j) (hj : j ≤ K.tokens.length) : K.Covers i j span :=
  h i (i + 1) (hstart ▸ covers_token (hij.trans_le hj)) hij

/-- Two spans together cover what is from the start of the one up to the end of the other. -/
theorem Covers.cover {a b : Span} (ha : K.Covers i j a) (hb : K.Covers k l b) (hik : i ≤ k)
    (hjl : j ≤ l) : K.Covers i l (a.cover b) where
  lt := Nat.lt_of_le_of_lt hik hb.lt
  le := hb.le
  pos := by
    have := pos_mono hik (Nat.lt_of_lt_of_le hb.lt hb.le)
    rw [Span.cover_pos, ha.pos, hb.pos]
    omega
  stop := by
    have hlt := ha.lt
    have hle := hb.le
    have : (K.tokenAt (j - 1)).span.stop ≤ (K.tokenAt (l - 1)).span.stop :=
      stop_mono (by omega) (by omega)
    rw [Span.cover_stop, ha.stop, hb.stop]
    omega
  file := ha.file

/-- What is within some tokens is within more of them. -/
theorem Within.mono (h : K.Within i j span) (hki : k ≤ i) (hjl : j ≤ l) : K.Within k l span := by
  obtain ⟨a, b, ha, hb, covers⟩ := h
  exact ⟨a, b, hki.trans ha, hb.trans hjl, covers⟩

/-- So is what a node holds. -/
theorem Holds.mono (h : K.Holds i j n) (hki : k ≤ i) (hjl : j ≤ l) : K.Holds k l n :=
  h.imp fun _ hm span hspan => (hm span hspan).mono hki hjl

/-- So is a node. -/
theorem Lies.mono (h : K.Lies ignores i j n) (hki : k ≤ i) (hjl : j ≤ l)
    (hl : l ≤ K.tokens.length) : K.Lies ignores k l n :=
  ⟨hki.trans (h.le.trans hjl), hl, h.placed, h.holds.mono hki hjl⟩

/-- Nodes in a row go onward. -/
theorem Row.le {ms : List (((c : Category) × Node c) × Bool)} (h : K.Row i j ms) : i ≤ j := by
  induction h with
  | nil h _ => exact h
  | cons lies h _ ih => exact h.trans (lies.le.trans ih)

/-- They do not reach beyond the tokens. -/
theorem Row.inside {ms : List (((c : Category) × Node c) × Bool)} (h : K.Row i j ms) :
    j ≤ K.tokens.length := by
  induction h with
  | nil _ hj => exact hj
  | cons _ _ _ ih => exact ih

/-- A single part between two places. -/
theorem row_single {a b : Nat} (h : K.Lies ignores a b n) (hi : i ≤ a) (hj : b ≤ j)
    (hle : j ≤ K.tokens.length) : K.Row i j [(⟨c, n⟩, ignores)] :=
  .cons h hi (.nil hj hle)

/-- The trees of a row are between its ends. -/
theorem Row.lies {ms : List (((c : Category) × Node c) × Bool)} (h : K.Row i j ms) :
    ∀ m ∈ ms, K.Lies m.2 i j m.1.2 := by
  induction h with
  | nil _ _ => exact List.forall_mem_nil _
  | cons lies h row ih =>
    refine List.forall_mem_cons.2 ⟨lies.mono h row.le row.inside, fun m hm => ?_⟩
    exact (ih m hm).mono (h.trans lies.le) (Nat.le_refl _) row.inside

/-- They follow each other. -/
theorem Row.ordered {ms : List (((c : Category) × Node c) × Bool)} (h : K.Row i j ms) :
    (ms.map Prod.fst).Pairwise fun a b =>
      ∃ k, K.Holds 0 k a.2 ∧ K.Holds k K.tokens.length b.2 := by
  induction h with
  | nil _ _ => exact .nil
  | @cons i a b j ignores c n others lies h row ih =>
    refine List.pairwise_cons.2 ⟨fun m hm => ⟨b, ?_, ?_⟩, ih⟩
    · exact lies.holds.mono (Nat.zero_le _) (Nat.le_refl _)
    · obtain ⟨p, hp, rfl⟩ := List.mem_map.1 hm
      exact (row.lies p hp).holds.mono (Nat.le_refl _) row.inside

/-- The parts of a node are between the same places. -/
theorem Lies.parts (h : K.Lies ignores i j n) :
    ∀ m ∈ n.settings ignores, K.Lies m.2 i j m.1.2 := by
  intro m hm
  obtain ⟨root, parts⟩ := h.placed
  exact ⟨h.le, h.inside, parts m hm, Node.Forall.parts h.holds m.1 (List.of_mem_zip hm).1⟩

/-- What is between two places in the parts of a node and in the names in it, and in its own place,
is so anywhere in it. -/
theorem holds_node (hplaces : ∀ span ∈ n.places, K.Within i j span)
    (row : K.Row i j (n.settings ignores)) : K.Holds i j n := by
  refine Node.forall_of_parts hplaces fun m hm => ?_
  rw [← n.map_fst_settings ignores] at hm
  obtain ⟨p, hp, rfl⟩ := List.mem_map.1 hm
  exact (row.lies p hp).holds

/-- A node without a place of its own is where its parts and the names in it are. -/
theorem lies_bare (hspan : n.span? = none) (row : K.Row i j (n.settings ignores))
    (hidents : ∀ ident ∈ n.idents, K.Within i j ident.span) (hsingle : K.Single ignores n) :
    K.Lies ignores i j n where
  le := row.le
  inside := row.inside
  placed := by
    refine .node ⟨?_, ?_, hsingle⟩ fun m hm => (row.lies m hm).placed
    · rw [hspan]
      exact nofun
    · rw [← n.map_fst_settings ignores]
      exact row.ordered
  holds := by
    refine holds_node (fun span hmem => ?_) row
    rw [Node.places, hspan] at hmem
    obtain ⟨ident, hident, rfl⟩ := List.mem_map.1 hmem
    exact hidents ident hident

/-- A node with a place of its own covers its parts and the names in it. -/
theorem lies_spanned (hspan : n.span? = some span) (covers : K.Covers i j span)
    (ends : K.Ends ignores j) (row : K.Row i j (n.settings ignores))
    (hidents : ∀ ident ∈ n.idents, K.Within i j ident.span) (hsingle : K.Single ignores n) :
    K.Lies ignores i j n := by
  have holds : K.Holds i j n := by
    refine holds_node (fun span' hmem => ?_) row
    rw [Node.places, hspan, List.mem_append] at hmem
    rcases hmem with hown | hname
    · obtain rfl := List.mem_singleton.1 hown
      exact ⟨i, j, Nat.le_refl _, Nat.le_refl _, covers⟩
    · obtain ⟨ident, hident, rfl⟩ := List.mem_map.1 hname
      exact hidents ident hident
  refine ⟨row.le, row.inside, .node ⟨?_, ?_, hsingle⟩ fun m hm => (row.lies m hm).placed, holds⟩
  · rw [hspan]
    rintro _ ⟨⟩
    exact ⟨i, j, covers, ends, holds⟩
  · rw [← n.map_fst_settings ignores]
    exact row.ordered

end Spans

section Steps

/-- Something may end behind a token that is no line break. -/
theorem Steps.ends (h : K.Steps ignores i j) (hkind : K.kindAt i ≠ .newline) :
    K.Ends ignores j where
  le := h.le
  last := by
    refine ⟨i, h.lt, hkind, h.breaks, fun hmore => .inl ?_⟩
    -- Where line breaks count only the token itself is stepped over.
    by_contra hcounts
    have := h.single (Bool.not_eq_true _ ▸ hcounts)
    omega

/-- A step where line breaks are ignored goes to one place only. -/
theorem Steps.unique (h : K.Steps true i j) (h' : K.Steps true i k) : j = k := by
  have hle {j k : Nat} (h : K.Steps true i j) (h' : K.Steps true i k) : k ≤ j :=
    Nat.le_of_not_lt fun hjk => h.whole rfl (h'.breaks j h.lt hjk)
  exact Nat.le_antisymm (hle h' h) (hle h h')

/-- An accepted token goes onward. -/
theorem Accepted.le {k : TokenKind} {found : Bool} (h : K.Accepted ignores k i j found) :
    i ≤ j := by
  by_cases hfound : found = true
  · exact (h.yes hfound).2.lt.le
  · exact (h.no hfound).ge

/-- Something may end right behind a token that is no line break. -/
theorem ends_token (hi : i < K.tokens.length) (hkind : K.kindAt i ≠ .newline) :
    K.Ends ignores (i + 1) :=
  ⟨hi, i, Nat.lt_succ_self i, hkind, fun m _ _ => by omega, fun h => by omega⟩

/-- Line breaks in front of a `>>` may stand behind something. -/
theorem Ends.behind (h : K.Ends ignores i) (breaks : K.Breaks i j)
    (hj : K.kindAt j = .symbol .shr) : K.Ends ignores j := by
  obtain ⟨k, hk, hkind, hlast, -⟩ := h.last
  refine ⟨breaks.inside, k, hk.trans_le breaks.le, hkind, fun m hkm hmj => ?_, fun _ => .inr hj⟩
  rcases Nat.lt_or_ge m i with hm | hm
  · exact hlast m hkm hm
  · exact breaks.all m hm hmj

/-- At the start of a name there is its token. -/
theorem Named.kind {ident : Ident} (h : K.Named ignores i j ident) :
    K.kindAt i = .ident ident.name :=
  congrArg Token.kind h.token

/-- A name takes up a token. -/
theorem Named.lt {ident : Ident} (h : K.Named ignores i j ident) : i < j := h.steps.lt

/-- It does not reach beyond the tokens. -/
theorem Named.le {ident : Ident} (h : K.Named ignores i j ident) : j ≤ K.tokens.length :=
  h.steps.le

/-- Something may end behind a name. -/
theorem Named.ends {ident : Ident} (h : K.Named ignores i j ident) : K.Ends ignores j :=
  h.steps.ends (by rw [h.kind]; nofun)

/-- Its place is that of its token. -/
theorem Named.covers {ident : Ident} (h : K.Named ignores i j ident) :
    K.Covers i (i + 1) ident.span := by
  have := covers_token (h.lt.trans_le h.le)
  rwa [h.token] at this

/-- A name is where its token is. -/
theorem Named.within {ident : Ident} (h : K.Named ignores i j ident) (hki : k ≤ i) (hjl : j ≤ l) :
    K.Within k l ident.span :=
  ⟨i, i + 1, hki, h.lt.trans_le hjl, h.covers⟩

end Steps

section Nodes

/-- A node that ends at its last token is whole. -/
theorem Tight.whole (h : K.Tight ignores i j n) : K.Whole ignores i j n :=
  ⟨h.ends, j, Nat.le_refl j, h⟩

/-- A whole node takes up a token. -/
theorem Whole.lt (h : K.Whole ignores i j n) : i < j := by
  obtain ⟨m, hm, tight⟩ := h.tight
  exact tight.lt.trans_le hm

/-- It does not reach beyond the tokens. -/
theorem Whole.inside (h : K.Whole ignores i j n) : j ≤ K.tokens.length := h.ends.le

/-- It lies where it was read. -/
theorem Whole.lies (h : K.Whole ignores i j n) : K.Lies ignores i j n := by
  obtain ⟨m, hm, tight⟩ := h.tight
  exact tight.lies.mono (Nat.le_refl i) hm h.inside

/-- A part without a place of its own is whole where something may end. -/
theorem Lies.whole (h : K.Lies ignores i j n) (hspan : n.span? = none) (hlt : i < j)
    (ends : K.Ends ignores j) : K.Whole ignores i j n := by
  refine ⟨ends, j, Nat.le_refl j, h, hlt, ends, ?_⟩
  rw [hspan]
  exact nofun

/-- So does a node of which less is asked. -/
theorem Whole.perhaps (h : K.Whole ignores i j n) : K.Perhaps ignores i j n :=
  ⟨h.lies, fun _ => h.ends⟩

/-- A node around others reaches as far as its span does. -/
theorem tight_spanned (hspan : n.span? = some span) (covers : K.Covers i j span)
    (ends : K.Ends ignores j) (row : K.Row i j (n.settings ignores))
    (hidents : ∀ ident ∈ n.idents, K.Within i j ident.span) (hsingle : K.Single ignores n) :
    K.Tight ignores i j n := by
  refine ⟨lies_spanned hspan covers ends row hidents hsingle, covers.lt, ends, ?_⟩
  rw [hspan]
  rintro _ ⟨⟩
  exact covers

/-- A part without a place of its own reaches as far as what it is made of. -/
theorem whole_bare (hspan : n.span? = none) (hlt : i < j) (ends : K.Ends ignores j)
    (row : K.Row i j (n.settings ignores)) (hidents : ∀ ident ∈ n.idents, K.Within i j ident.span)
    (hsingle : K.Single ignores n) : K.Whole ignores i j n :=
  (lies_bare hspan row hidents hsingle).whole hspan hlt ends

variable {o : Origin}

/-- An expression around its form. -/
theorem tight_expr {form : ExprForm} (covers : K.Covers i j o.span) (ends : K.Ends ignores j)
    (lies : K.Lies ignores i j form) (hsingle : K.Single ignores (.expr o form)) :
    K.Tight ignores i j (.expr o form) :=
  tight_spanned rfl covers ends (.cons lies (Nat.le_refl i) (.nil (Nat.le_refl j) ends.le))
    (List.forall_mem_nil _) hsingle

/-- A type around its form. -/
theorem tight_type {form : TypeForm} (covers : K.Covers i j o.span) (ends : K.Ends ignores j)
    (lies : K.Lies ignores i j form) : K.Tight ignores i j (.type o form) :=
  tight_spanned rfl covers ends (.cons lies (Nat.le_refl i) (.nil (Nat.le_refl j) ends.le))
    (List.forall_mem_nil _) trivial

/-- The place of an expression covers its tokens. -/
theorem Tight.exprSpan {e : Expr} (h : K.Tight ignores i j e) : K.Covers i j e.span := by
  cases e with
  | expr o form => exact h.span _ rfl

/-- So does that of a type. -/
theorem Tight.typeSpan {t : TypeExpr} (h : K.Tight ignores i j t) : K.Covers i j t.typeSpan := by
  cases t with
  | type o form => exact h.span _ rfl

/-- So does that of a path. -/
theorem Tight.pathSpan {p : Path} (h : K.Tight ignores i j p) : K.Covers i j p.pathSpan := by
  cases p with
  | path global segments span slot => exact h.span _ rfl

/-- The empty sequence. -/
theorem lies_nil (hi : i ≤ j) (hj : j ≤ K.tokens.length) :
    K.Lies ignores i j (.nil : Node (.many c)) :=
  lies_bare rfl (.nil hi hj) (List.forall_mem_nil _) trivial

/-- A sequence of a node and others behind it. -/
theorem lies_cons {x : Node c} {xs : Node (.many c)} {a b : Nat} (hx : K.Lies ignores i a x)
    (hxs : K.Lies ignores b j xs) (hab : a ≤ b) : K.Lies ignores i j (.cons x xs) :=
  lies_bare rfl (.cons hx (Nat.le_refl i) (.cons hxs hab (.nil (Nat.le_refl j) hxs.inside)))
    (List.forall_mem_nil _) trivial

/-- Rows behind each other make a row. -/
theorem Row.append {ms ms' : List (((c : Category) × Node c) × Bool)} (h : K.Row i k ms)
    (h' : K.Row k j ms') : K.Row i j (ms ++ ms') := by
  induction h with
  | nil h _ =>
    cases h' with
    | nil h' hj => exact .nil (h.trans h') hj
    | cons lies hle row => exact .cons lies (h.trans hle) row
  | cons lies h _ ih => exact .cons lies h (ih h')

/-- Nodes that follow each other make a sequence. -/
theorem Row.sequence {xs : List (Node c)}
    (h : K.Row i j (xs.map fun x => (⟨c, x⟩, ignores))) : K.Lies ignores i j (.ofList xs) := by
  induction xs generalizing i with
  | nil => exact lies_nil h.le h.inside
  | cons x xs ih =>
    cases h with
    | cons lies hle row =>
      exact lies_cons (lies.mono hle (Nat.le_refl _) lies.inside) (ih row) (Nat.le_refl _)

/-- A part that is not written. -/
theorem perhaps_absent (hi : i ≤ K.tokens.length) :
    K.Perhaps ignores i i (.absent : Node (.maybe c)) :=
  ⟨lies_bare rfl (.nil (Nat.le_refl i) hi) (List.forall_mem_nil _) trivial, id⟩

/-- An optional part that is written, perhaps behind a mark. -/
theorem perhaps_present {x : Node c} (h : K.Whole ignores k j x) (hik : i ≤ k) :
    K.Perhaps ignores i j (.present x) :=
  ⟨lies_bare rfl (.cons h.lies hik (.nil (Nat.le_refl j) h.inside)) (List.forall_mem_nil _)
    trivial, fun _ => h.ends⟩

end Nodes

/-- A state of the parser at a place, inside groups. -/
structure At (K : TokenStream) (i : Nat) (G : List Bool) (s : ParserState) : Prop where
  rest : s.rest = K.tokens.drop i
  final : s.final = K.final
  le : i ≤ K.tokens.length
  last : 0 < i → s.lastSpan = (K.tokenAt (i - 1)).span
  groups : s.groups.map (·.ignoresNewlines) = G

namespace At

variable {G : List Bool} {s : ParserState}

theorem current (h : K.At i G s) : s.current = K.tokenAt i := by
  unfold ParserState.current tokenAt
  rw [h.rest, h.final, List.head?_drop]

theorem kind (h : K.At i G s) : s.kind = K.kindAt i := congrArg Token.kind h.current

theorem nextKind (h : K.At i G s) : s.nextKind = K.kindAt (i + 1) := by
  unfold ParserState.nextKind kindAt tokenAt
  rw [h.rest, h.final, List.getElem?_drop]

/-- Whether line breaks are ignored is told by the innermost group. -/
theorem ignored_eq (h : K.At i G s) : s.groups.head?.any (·.ignoresNewlines) = ignored G := by
  rw [← h.groups]
  cases s.groups <;> rfl

/-- The same state with other problems, numbers or halves. -/
theorem congr {s' : ParserState} (h : K.At i G s) (hrest : s'.rest = s.rest)
    (hfinal : s'.final = s.final) (hlast : s'.lastSpan = s.lastSpan)
    (hgroups : s'.groups = s.groups) : K.At i G s' :=
  ⟨hrest.trans h.rest, hfinal.trans h.final, h.le, fun hi => hlast.trans (h.last hi),
    hgroups ▸ h.groups⟩

theorem bump (h : K.At i G s) (hi : i < K.tokens.length) : K.At (i + 1) G s.bump := by
  have hrest : s.rest = K.tokenAt i :: K.tokens.drop (i + 1) := by
    rw [h.rest, tokenAt_eq hi, List.drop_eq_getElem_cons hi]
  have hbump : s.bump = { s with
      rest := K.tokens.drop (i + 1), lastSpan := (K.tokenAt i).span } := by
    unfold ParserState.bump
    rw [hrest]
  rw [hbump]
  exact ⟨rfl, h.final, hi, fun _ => rfl, h.groups⟩

/-- Tokens of some kinds are stepped over, and no more. -/
theorem skipWhile (h : K.At i G s) (p : TokenKind → Bool) : ∃ j, i ≤ j ∧
    K.At j G (s.skipWhile p) ∧ (∀ m, i ≤ m → m < j → p (K.kindAt m) = true) ∧
      (j < K.tokens.length → p (K.kindAt j) = false) := by
  obtain ⟨u, hu, hall⟩ := s.skipWhile_rest p
  have hlength : u.length ≤ K.tokens.length - i := by
    rw [← List.length_drop, ← h.rest, hu, List.length_append]
    omega
  have hle := h.le
  have hrest : (s.skipWhile p).rest = K.tokens.drop (i + u.length) := by
    rw [← List.drop_drop, ← h.rest, hu, List.drop_left]
  have hkinds (m : Nat) (hm : m < u.length) : u[m]? = some (K.tokenAt (i + m)) := by
    have hget : s.rest[m]? = u[m]? := by rw [hu, List.getElem?_append_left hm]
    rw [← hget, h.rest, List.getElem?_drop, tokenAt_eq (by omega),
      List.getElem?_eq_getElem (by omega)]
  have hskipped : s.rest.takeWhile (p ·.kind) = u := by
    have := List.takeWhile_append_dropWhile (p := fun t : Token => p t.kind) (l := s.rest)
    exact List.append_cancel_right (this.trans hu)
  refine ⟨i + u.length, Nat.le_add_right _ _, ⟨hrest, h.final, by omega, fun hpos => ?_,
    h.groups⟩, fun m him hm => ?_, fun hmore => ?_⟩
  · change ((s.rest.takeWhile (p ·.kind)).getLast?.map (·.span)).getD s.lastSpan = _
    rw [hskipped]
    rcases Nat.eq_zero_or_pos u.length with hnil | hsome
    · rw [List.length_eq_zero_iff.1 hnil]
      exact h.last (by omega)
    · rw [List.getLast?_eq_getElem?, hkinds _ (by omega), Nat.add_sub_assoc hsome]
      rfl
  · have hget := hkinds (m - i) (by omega)
    rw [Nat.add_sub_cancel' him] at hget
    exact hall _ (List.mem_of_getElem? hget)
  · have hhead : (s.skipWhile p).rest.head? = some (K.tokenAt (i + u.length)) := by
      rw [hrest, List.head?_drop, tokenAt_eq hmore, List.getElem?_eq_getElem hmore]
    have := List.head?_dropWhile_not (fun t : Token => p t.kind) s.rest
    rw [show s.rest.dropWhile (p ·.kind) = (s.skipWhile p).rest from rfl, hhead] at this
    exact this

/-- A single step. -/
theorem advance (h : K.At i G s) (hi : i < K.tokens.length) :
    ∃ j, K.At j G s.advance ∧ K.Steps (ignored G) i j := by
  have moved := h.bump hi
  unfold ParserState.advance
  dsimp only
  rw [h.ignored_eq]
  cases hG : ignored G with
  | false =>
    refine ⟨i + 1, moved, Nat.lt_succ_self i, hi, fun m _ _ => by omega, fun _ => rfl, nofun⟩
  | true =>
    obtain ⟨j, hij, there, hbreaks, hmore⟩ := moved.skipWhile (· = .newline)
    refine ⟨j, there, hij, there.le, fun m hm hmj => ?_, nofun, fun _ => ?_⟩
    · exact of_decide_eq_true (hbreaks m hm hmj)
    · rcases Nat.lt_or_ge j K.tokens.length with hj | hj
      · exact of_decide_eq_false (hmore hj)
      · rw [kindAt_eof hj]
        nofun

/-- Behind the last tokens nothing is stepped over. -/
theorem advance_end (h : K.At i G s) (hi : K.tokens.length ≤ i) : K.At i G s.advance := by
  have hnil : s.rest = [] := by rw [h.rest, List.drop_eq_nil_of_le hi]
  have hbump : s.bump = s := by
    unfold ParserState.bump
    rw [hnil]
  unfold ParserState.advance
  rw [hbump]
  dsimp only
  split
  · refine h.congr ?_ rfl ?_ rfl
    · simp [ParserState.skipNewlines, ParserState.skipWhile, hnil]
    · simp [ParserState.skipNewlines, ParserState.skipWhile, hnil]
  · exact h

theorem openGroup (h : K.At i G s) (ignores : Bool) :
    ∃ j, i ≤ j ∧ K.At j (ignores :: G) (s.openGroup ignores) := by
  have inside : K.At i (ignores :: G)
      { s with groups := ⟨ignores, s.allowsBrace⟩ :: s.groups, allowsBrace := true } :=
    ⟨h.rest, h.final, h.le, h.last, by rw [← h.groups]; rfl⟩
  unfold ParserState.openGroup
  dsimp only
  cases ignores with
  | false => exact ⟨i, Nat.le_refl i, inside⟩
  | true =>
    obtain ⟨j, hij, there, -⟩ := inside.skipWhile (· = .newline)
    exact ⟨j, hij, there⟩

theorem closeGroup {ignores : Bool} (h : K.At i (ignores :: G) s) : K.At i G s.closeGroup := by
  have hgroups := h.groups
  unfold ParserState.closeGroup
  cases hs : s.groups with
  | nil =>
    rw [hs] at hgroups
    cases hgroups
  | cons g groups =>
    rw [hs] at hgroups
    exact ⟨h.rest, h.final, h.le, h.last, (List.cons.inj hgroups).2⟩

end At

end TokenStream

/-- Runs of a parser from a place, inside groups. If no error is recorded in the end, then none was
at the start, and the run ends at a place that is related to its result. -/
structure Places {α : Type} (K : TokenStream) (G G' : List Bool) (i : Nat) (p : Parser α)
    (Q : Nat → α → Prop) : Prop where
  free : ∀ ⦃s : ParserState⦄ ⦃x : α⦄ ⦃s' : ParserState⦄, p s = .ok x s' → s'.ErrorFree →
    s.ErrorFree
  runs : ∀ ⦃s : ParserState⦄ ⦃x : α⦄ ⦃s' : ParserState⦄, K.At i G s → p s = .ok x s' →
    s'.ErrorFree → ∃ j, K.At j G' s' ∧ Q j x

namespace Places

variable {α β : Type} {K : TokenStream} {G G₁ G' : List Bool} {i : Nat} {p : Parser α}
  {Q : Nat → α → Prop}

/-- A parser without a result, or with errors, shows nothing. -/
theorem broken (h : ∀ s x s', p s = .ok x s' → ¬s'.ErrorFree) : Places K G G' i p Q where
  free s x s' hrun free := absurd free (h s x s' hrun)
  runs s x s' _ hrun free := absurd free (h s x s' hrun)

/-- A result without a step, where there is a place. -/
theorem stay {x : α} (h : i ≤ K.tokens.length → Q i x) : Places K G G i (Pure.pure x) Q where
  free s y s' hrun free := by
    cases hrun
    exact free
  runs s y s' hs hrun _ := by
    cases hrun
    exact ⟨i, hs, h hs.le⟩

theorem pure {x : α} (h : Q i x) : Places K G G i (Pure.pure x) Q := stay fun _ => h

/-- One parser after another. -/
theorem bind {f : α → Parser β} {R : Nat → β → Prop} (hp : Places K G G₁ i p Q)
    (hf : ∀ j x, Places K G₁ G' j (f x) fun k y => Q j x → R k y) :
    Places K G G' i (p >>= f) R where
  free s y s' hrun free := by
    obtain ⟨x, s₁, hp₁, hf₁⟩ := bind_ok hrun
    exact hp.free hp₁ ((hf i x).free hf₁ free)
  runs s y s' hs hrun free := by
    obtain ⟨x, s₁, hp₁, hf₁⟩ := bind_ok hrun
    obtain ⟨j, there, hQ⟩ := hp.runs hs hp₁ ((hf i x).free hf₁ free)
    obtain ⟨k, there', hR⟩ := (hf j x).runs there hf₁ free
    exact ⟨k, there', hR hQ⟩

/-- Less may be said. -/
theorem mono {Q' : Nat → α → Prop} (hp : Places K G G' i p Q) (h : ∀ j x, Q j x → Q' j x) :
    Places K G G' i p Q' where
  free := hp.free
  runs s x s' hs hrun free := by
    obtain ⟨j, there, hQ⟩ := hp.runs hs hrun free
    exact ⟨j, there, h j x hQ⟩

/-- What is known of a result in addition. -/
theorem known {R : α → Prop} (hp : Places K G G' i p Q)
    (h : ∀ ⦃s x s'⦄, K.At i G s → p s = .ok x s' → R x) :
    Places K G G' i p fun j x => Q j x ∧ R x where
  free := hp.free
  runs s x s' hs hrun free := by
    obtain ⟨j, there, hQ⟩ := hp.runs hs hrun free
    exact ⟨j, there, hQ, h hs hrun⟩

/-- A parser whose result is changed. -/
theorem map {f : α → β} {R : Nat → β → Prop} (hp : Places K G G' i p fun j x => R j (f x)) :
    Places K G G' i (f <$> p) R := by
  rw [map_eq_pure_bind]
  exact hp.bind fun j x => .pure id

/-- A choice by a condition. -/
theorem ite {c : Prop} [Decidable c] {q : Parser α}
    (hp : Places K G G' i p fun j x => c → Q j x) (hq : Places K G G' i q fun j x => ¬c → Q j x) :
    Places K G G' i (if c then p else q) Q := by
  split
  · rename_i hc
    exact hp.mono fun _ _ h => h hc
  · rename_i hc
    exact hq.mono fun _ _ h => h hc

/-- What is done may depend on the state. -/
theorem state {f : ParserState → Parser α}
    (hf : ∀ s, Places K G G' i (f s) fun j x => K.At i G s → Q j x) :
    Places K G G' i (get >>= f) Q where
  free s x s' hrun free := (hf s).free (show f s s = _ from hrun) free
  runs s x s' hs hrun free := by
    obtain ⟨j, there, hQ⟩ := (hf s).runs hs (show f s s = _ from hrun) free
    exact ⟨j, there, hQ hs⟩

/-- A look at the state. -/
theorem look (view : ParserState → β) {f : β → Parser α}
    (hf : ∀ b, Places K G G' i (f b) fun j x => (∃ s, K.At i G s ∧ view s = b) → Q j x) :
    Places K G G' i (view <$> get >>= f) Q :=
  state fun s => (hf (view s)).mono fun _ _ h hs => h ⟨s, hs, rfl⟩

/-- The kind of the token at hand. -/
theorem kind {f : TokenKind → Parser α}
    (hf : ∀ k, Places K G G' i (f k) fun j x => K.kindAt i = k → Q j x) :
    Places K G G' i (Parse.kind >>= f) Q :=
  look _ fun k => (hf k).mono fun _ _ h ⟨_, hs, hk⟩ => h (hs.kind.symm.trans hk)

/-- The token at hand. -/
theorem current {f : Token → Parser α}
    (hf : ∀ t, Places K G G' i (f t) fun j x => K.tokenAt i = t → Q j x) :
    Places K G G' i (Parse.current >>= f) Q :=
  look _ fun t => (hf t).mono fun _ _ h ⟨_, hs, ht⟩ => h (hs.current.symm.trans ht)

/-- The span of the token at hand. -/
theorem here {f : Span → Parser α}
    (hf : ∀ start, Places K G G' i (f start) fun j x => (K.tokenAt i).span = start → Q j x) :
    Places K G G' i (Parse.here >>= f) Q :=
  look _ fun start => (hf start).mono fun _ _ h ⟨_, hs, hstart⟩ =>
    h ((congrArg Token.span hs.current).symm.trans hstart)

/-- Whether the token at hand is of some kind. -/
theorem atKind {k : TokenKind} {f : Bool → Parser α}
    (hf : ∀ b, Places K G G' i (f b) fun j x => (b = true ↔ K.kindAt i = k) → Q j x) :
    Places K G G' i (Parse.at? k >>= f) Q :=
  look _ fun b => (hf b).mono fun _ _ h ⟨s, hs, hb⟩ => h (by
    rw [← hb, ← hs.kind]
    exact beq_iff_eq)

/-- The text from a place up to the token read last. -/
theorem spanFrom {start : Span} {f : Span → Parser α}
    (hf : ∀ span, Places K G G' i (f span) fun j x => K.Since start i span → Q j x) :
    Places K G G' i (Parse.spanFrom start >>= f) Q := by
  refine look _ fun span => (hf span).mono fun _ _ h ⟨s, hs, hspan⟩ => h fun a m covers hm => ?_
  have hlt := covers.lt
  have hle := hs.le
  have hlast : K.Covers (i - 1) i s.lastSpan := by
    have := K.covers_token (i := i - 1) (by omega)
    rw [hs.last (by omega)]
    rwa [Nat.sub_add_cancel (by omega)] at this
  have hpos := TokenStream.pos_mono (K := K) (show a ≤ i - 1 by omega) (by omega)
  rw [← hspan]
  unfold ParserState.spanFrom
  rw [if_neg (by rw [covers.pos, hlast.pos]; omega)]
  exact covers.cover hlast (by omega) hm

/-- A change of the state, and what is done behind it. -/
theorem step {f : ParserState → ParserState} {R : Nat → Prop} {rest : Unit → Parser α}
    (hd : ∀ s, (f s).diagnostics = s.diagnostics)
    (h : ∀ s, K.At i G s → ∃ j, K.At j G₁ (f s) ∧ R j)
    (hrest : ∀ j, Places K G₁ G' j (rest ()) fun k x => R j → Q k x) :
    Places K G G' i (modify f >>= rest) Q where
  free s x s' hrun free := by
    have free₁ := (hrest i).free (show rest () (f s) = _ from hrun) free
    unfold ParserState.ErrorFree at free₁ ⊢
    rwa [← hd s]
  runs s x s' hs hrun free := by
    obtain ⟨j, there, hR⟩ := h s hs
    obtain ⟨k, there', hQ⟩ := (hrest j).runs there (show rest () (f s) = _ from hrun) free
    exact ⟨k, there', hQ hR⟩

/-- A change of the state. -/
theorem update {f : ParserState → ParserState} {R : Nat → Prop}
    (hd : ∀ s, (f s).diagnostics = s.diagnostics)
    (h : ∀ s, K.At i G s → ∃ j, K.At j G' (f s) ∧ R j) :
    Places K G G' i (modify f) fun j _ => R j := by
  rw [← bind_pure (modify f)]
  exact step hd h fun j => .pure id

end Places

end FrontEnd
