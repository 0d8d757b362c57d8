import FrontEnd.Proofs.Printing.Calculus
import FrontEnd.Proofs.Printing.Trees

/-!
# Lists that are read back

A parser gives a node back if from what is written of the node it makes the same node up to numbers
and places. Lists between commas are given back when their elements are, up to the token that closes
them.
-/

namespace FrontEnd

open Parse

/-- A type ends in front of other tokens than those that go on with one. -/
def EndsType (zs : List TokenKind) : Prop :=
  ∀ k ∈ zs.head?, k ≠ .symbol .path ∧ k ≠ .symbol .lAngle ∧ k ≠ .symbol .arrow

theorem endsType_cons {k : TokenKind} {ks : List TokenKind} : EndsType (k :: ks) ↔
    k ≠ .symbol .path ∧ k ≠ .symbol .lAngle ∧ k ≠ .symbol .arrow := by
  simp [EndsType]

/-- A parser gives a node back where a type ends. -/
def Restores {c : Category} (p : Parser (Node c)) (n : Node c) : Prop :=
  ∀ base s zs, base.At s (n.kinds ++ zs) → EndsType zs →
    Finds base p s zs fun x => Likeness.bare.Alike n x

/-- A parser gives a node back in front of some token. -/
def RestoresAt {c : Category} (p : Parser (Node c)) (n : Node c) (k : TokenKind) : Prop :=
  ∀ base s zs, base.At s (n.kinds ++ k :: zs) →
    Finds base p s (k :: zs) fun x => Likeness.bare.Alike n x

theorem Restores.restoresAt {c : Category} {p : Parser (Node c)} {n : Node c} {k : TokenKind}
    (h : Restores p n) (hk : EndsType [k]) : RestoresAt p n k :=
  fun base s _ hat => h base s _ hat (endsType_cons.2 (endsType_cons.1 hk))

namespace Node

variable {c : Category}

/-- What is written of a node begins as types and parameters do. -/
def Begins (n : Node c) : Prop := ∃ k ks, n.kinds = k :: ks ∧ k.beginsType = true

theorem begins_of_neat {Last : Piece → Prop} {n : Node c} (h : Neat Piece.Opens Last n.pieces) :
    n.Begins := by
  obtain ⟨p, ps, hpieces⟩ := List.exists_cons_of_ne_nil h.ne_nil
  refine ⟨p.kind, ps.map (·.kind), ?_, h.first p (by rw [hpieces]; rfl)⟩
  unfold kinds
  rw [hpieces]
  rfl

/-- How many tokens of a node are no closing angle brackets. -/
def weight (n : Node c) : Nat := n.kinds.countP (· ≠ .symbol .rAngle)

/-- A node that is written has some weight. -/
theorem Begins.weight_pos {n : Node c} (h : n.Begins) : 0 < n.weight := by
  obtain ⟨k, ks, hkinds, hk⟩ := h
  refine List.countP_pos_iff.2 ⟨k, by rw [hkinds]; exact List.mem_cons_self, ?_⟩
  rw [decide_eq_true_eq]
  rintro rfl
  cases hk

/-- The kinds of a sequence. -/
theorem kinds_cons (head : Node c) (tail : Node (.many c)) : (cons head tail).kinds =
    head.kinds ++ if tail.isMissing then [] else c.separator.kind :: tail.kinds := by
  unfold kinds
  rw [pieces, List.map_append]
  split <;> rfl

theorem weight_cons (x : Node c) (items : List (Node c)) :
    x.weight + (ofList items).weight ≤ (ofList (x :: items)).weight := by
  unfold weight
  rw [ofList, kinds_cons, List.countP_append]
  cases items with
  | nil => simp [ofList, isMissing, kinds, pieces]
  | cons y items =>
    rw [if_neg (by simp [ofList, isMissing]), List.countP_cons]
    omega

/-- An element weighs no more than the sequence. -/
theorem weight_element {x : Node c} {items : List (Node c)} (hx : x ∈ items) :
    x.weight ≤ (ofList items).weight := by
  induction items with
  | nil => cases hx
  | cons y items ih =>
    have hsum := weight_cons y items
    rcases List.mem_cons.1 hx with rfl | hx
    · omega
    · have := ih hx
      omega

/-- A sequence has no more elements than it weighs. -/
theorem length_le_weight {items : List (Node c)} (h : ∀ x ∈ items, x.Begins) :
    items.length ≤ (ofList items).weight := by
  induction items with
  | nil => exact Nat.zero_le _
  | cons x items ih =>
    have hpos := (h x List.mem_cons_self).weight_pos
    have hsum := weight_cons x items
    have := ih fun y hy => h y (List.mem_cons_of_mem x hy)
    rw [List.length_cons]
    omega

end Node

variable {c : Category} {closes : TokenKind → Bool} {gap : Parser Unit} {element : Parser (Node c)}
variable {base s : ParserState} {stop : TokenKind} {ks zs : List TokenKind} {n : Nat}
variable {afterComma : Bool}

/-- A list between commas is closed by one token, and elements do not begin with it. -/
structure Delimits (closes : TokenKind → Bool) (gap : Parser Unit) (stop : TokenKind) : Prop where
  gap : ∀ {base s : ParserState} {ks : List TokenKind}, base.At s ks →
    Finds base gap s ks fun _ => True
  opens : ∀ {k : TokenKind}, k.beginsType = true → closes k = false
  close : ∀ {s : ParserState} {ks : List TokenKind}, s.Shows (stop :: ks) → closes s.kind = true
  ends : EndsType [stop]
  noComma : stop ≠ .symbol .comma

/-- A list ends in front of the token that closes it. -/
theorem commaList_close (hlist : Delimits closes gap stop) (h : base.At s (stop :: ks)) :
    Finds base (commaList closes gap element (n + 1) afterComma) s (stop :: ks)
      (· = ([], afterComma)) := by
  unfold commaList
  refine .after (kind_run s) ?_
  rw [if_pos (Or.inl (hlist.close h.shows))]
  exact .result h rfl

/-- An element is read; what is behind it decides how the list goes on. -/
theorem commaList_element {k : TokenKind} {more : List TokenKind} {Fits : Node c → Prop}
    {Good : List (Node c) × Bool → Prop} (hlist : Delimits closes gap stop)
    (hk : k.beginsType = true) (h : base.At s (k :: more)) (hx : Finds base element s ks Fits)
    (hothers : ∀ y s', Fits y → base.At s' ks → Finds base (do
      if ← acceptSymbol .comma then
        gap
        let (xs, trailing) ← commaList closes gap element n true
        return (y :: xs, trailing)
      return ([y], false)) s' zs Good) :
    Finds base (commaList closes gap element (n + 1) afterComma) s zs Good := by
  have hkind : s.kind = k := h.shows.kind_eq (by rintro rfl; cases hk)
  have hopen : ¬(closes k = true ∨ k = .eof) := by
    rintro (hcloses | rfl)
    · exact Bool.false_ne_true ((hlist.opens hk).symm.trans hcloses)
    · cases hk
  unfold commaList
  refine .after (kind_run s) ?_
  rw [hkind, if_neg hopen]
  exact hx.bind hothers

/-- Behind a comma other elements follow. -/
theorem commaList_comma {x : Node c} {Good : List (Node c) × Bool → Prop}
    (hlist : Delimits closes gap stop) (hbegins : x.Begins)
    (hx : RestoresAt element x (.symbol .comma)) (h : base.At s (x.kinds ++ .symbol .comma :: ks))
    (hothers : ∀ s', base.At s' ks → Finds base (commaList closes gap element n true) s' zs Good) :
    Finds base (commaList closes gap element (n + 1) afterComma) s zs fun r =>
      ∃ y ys, r.1 = y :: ys ∧ Likeness.bare.Alike x y ∧ Good (ys, r.2) := by
  have hx' := hx base s ks h
  obtain ⟨k, more, hkinds, hk⟩ := hbegins
  rw [hkinds] at h
  refine commaList_element hlist hk h hx' fun y s' hy hat => ?_
  refine (Finds.accept hat (by simp)).bind fun found s₁ hfound hat₁ => ?_
  rw [if_pos hfound]
  refine (hlist.gap hat₁).bind fun _ s₂ _ hat₂ => ?_
  refine (hothers s₂ hat₂).bind fun r s₃ hr hat₃ => ?_
  exact .result hat₃ ⟨y, r.1, rfl, hy, hr⟩

/-- Behind the last element the list ends. -/
theorem commaList_last {k : TokenKind} {more : List TokenKind} {Fits : Node c → Prop}
    (hlist : Delimits closes gap stop) (hk : k.beginsType = true) (h : base.At s (k :: more))
    (hx : Finds base element s (stop :: ks) Fits) :
    Finds base (commaList closes gap element (n + 1) afterComma) s (stop :: ks) fun r =>
      ∃ y, r = ([y], false) ∧ Fits y := by
  refine commaList_element hlist hk h hx fun y s' hy hat => ?_
  have hcomma : TokenKind.symbol .comma ∉ (stop :: ks).head? := by
    simpa using hlist.noComma
  refine (Finds.reject hat hcomma (by simp) (by simp)).bind fun found s₁ hfound hat₁ => ?_
  rw [if_neg (by simp [hfound])]
  exact .result hat₁ ⟨y, rfl, hy⟩

/-- A list is read to the token that closes it. -/
theorem commaList_restores {items : List (Node c)} (hlist : Delimits closes gap stop)
    (hc : c.separator.kind = .symbol .comma) (hbegins : ∀ x ∈ items, x.Begins)
    (hitems : ∀ x ∈ items.dropLast, RestoresAt element x (.symbol .comma))
    (hlast : ∀ x ∈ items.getLast?, RestoresAt element x stop)
    (hn : items.length < n) (h : base.At s ((Node.ofList items).kinds ++ stop :: ks)) :
    Finds base (commaList closes gap element n afterComma) s (stop :: ks) fun r =>
      Likeness.bare.Alike items r.1 ∧ r.2 = (items.isEmpty && afterComma) := by
  induction items generalizing n s afterComma with
  | nil =>
    obtain ⟨n, rfl⟩ : ∃ m, n = m + 1 := ⟨n - 1, by simp at hn; omega⟩
    exact (commaList_close hlist h).mono fun r hr => hr ▸ ⟨rfl, rfl⟩
  | cons x items ih =>
    obtain ⟨n, rfl⟩ : ∃ m, n = m + 1 := ⟨n - 1, by simp at hn; omega⟩
    have hx := hbegins x List.mem_cons_self
    cases items with
    | nil =>
      have hat : base.At s (x.kinds ++ stop :: ks) := by
        simpa [Node.ofList, Node.kinds_cons, Node.isMissing] using h
      have hread := hlast x rfl base s ks hat
      obtain ⟨k, more, hkinds, hk⟩ := hx
      rw [hkinds] at hat
      refine (commaList_last hlist hk hat hread).mono ?_
      rintro _ ⟨y, rfl, hy⟩
      exact ⟨hy.cons Likeness.alike_nil, rfl⟩
    | cons x' items =>
      have hat : base.At s (x.kinds ++ .symbol .comma ::
          ((Node.ofList (x' :: items)).kinds ++ stop :: ks)) := by
        rw [← hc]
        simpa [Node.ofList, Node.kinds_cons x, Node.isMissing] using h
      refine (commaList_comma hlist hx (hitems x List.mem_cons_self) hat fun s' hat' =>
        ih (fun z hz => hbegins z (List.mem_cons_of_mem x hz))
          (fun z hz => hitems z (List.mem_cons_of_mem x hz)) (fun z hz => hlast z hz)
          (by simpa using hn) hat').mono ?_
      rintro ⟨_, _⟩ ⟨y, ys, rfl, hy, hys, rfl⟩
      exact ⟨hy.cons hys, rfl⟩

/-- Lists in angle brackets. -/
theorem delimits_angles : Delimits closesAngles skipNewlines (.symbol .rAngle) where
  gap := Finds.skipNewlines
  opens := by
    intro k hk
    unfold closesAngles
    rw [decide_eq_false_iff_not]
    rintro (rfl | rfl) <;> cases hk
  close := by
    intro s ks h
    rcases h.kind_close with hkind | hkind <;> rw [hkind] <;> rfl
  ends := endsType_cons.2 (by simp)
  noComma := by simp

/-- Lists in parentheses. -/
theorem delimits_parens : Delimits (· = .symbol .rParen) (pure ()) (.symbol .rParen) where
  gap h := .result h trivial
  opens := by
    intro k hk
    rw [decide_eq_false_iff_not]
    rintro rfl
    cases hk
  close := by
    intro s ks h
    rw [h.kind_eq (by simp)]
    rfl
  ends := endsType_cons.2 (by simp)
  noComma := by simp

end FrontEnd
