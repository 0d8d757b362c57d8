import FrontEnd.Proofs.Following.Simulation

/-!
# A text inside a longer one

The right text is the left one, with its numbers and places moved, and some tokens behind it: either
none, or a line break and something that does not go on with the last statement before it. The two
are read alike as far as the left text goes.
-/

namespace FrontEnd

/-- Tokens that do not go on with a statement in front of them, even behind line breaks. -/
def Fresh (tokens : List Token) : Prop :=
  ∀ t ∈ (tokens.dropWhile (·.kind = .newline)).head?, t.kind.continues = false

instance (tokens : List Token) : Decidable (Fresh tokens) :=
  inferInstanceAs (Decidable (∀ t ∈ (tokens.dropWhile (·.kind = .newline)).head?,
    t.kind.continues = false))

/-- What is new stays so with a line break and something new behind it. -/
theorem Fresh.append {xs ys : List Token} {y : Token} (hx : Fresh xs) (hy : y.kind = .newline)
    (hys : Fresh ys) : Fresh (xs ++ y :: ys) := by
  unfold Fresh at *
  rw [List.dropWhile_append]
  split
  · rwa [List.dropWhile_cons_of_pos (by simpa using hy)]
  · rename_i hsome
    rw [List.isEmpty_iff] at hsome
    obtain ⟨t, _, hfirst⟩ := List.exists_cons_of_ne_nil hsome
    rw [hfirst] at hx ⊢
    exact hx

/-- What is new is so without what is behind it. -/
theorem Fresh.front {xs ys : List Token} (h : Fresh (xs ++ ys)) : Fresh xs := by
  unfold Fresh at *
  intro t ht
  obtain ⟨us, hus⟩ := List.head?_eq_some_iff.1 ht
  rw [List.dropWhile_append, hus] at h
  exact h t rfl

/-- What may stand behind a text: nothing, or a new line. -/
inductive Seam : List Token → Prop
  | none : Seam []
  | line {y : Token} {tokens : List Token} (newline : y.kind = .newline) (fresh : Fresh tokens) :
    Seam (y :: tokens)

/-- Of lists of tokens that are alike, alike parts are skipped. -/
theorem Likeness.Alike.skip {l : Likeness} {xs ys : List Token} (h : l.Alike xs ys)
    (p : TokenKind → Bool) : l.Alike (xs.dropWhile (p ·.kind)) (ys.dropWhile (p ·.kind)) ∧
      l.Alike (xs.takeWhile (p ·.kind)) (ys.takeWhile (p ·.kind)) := by
  induction xs generalizing ys with
  | nil =>
    obtain rfl : ys = [] := List.map_eq_nil_iff.1 h.symm
    exact ⟨rfl, rfl⟩
  | cons x xs ih =>
    obtain ⟨y, ys, rfl, htoken, htail⟩ := List.map_eq_cons_iff.1 h.symm
    have hkind : y.kind = x.kind := Likeness.Alike.kind htoken.symm |>.symm
    rw [List.dropWhile_cons, List.dropWhile_cons, List.takeWhile_cons, List.takeWhile_cons, hkind]
    cases p x.kind with
    | true =>
      obtain ⟨hdrop, htake⟩ := ih htail.symm
      exact ⟨hdrop, Likeness.Alike.cons htoken.symm htake⟩
    | false => exact ⟨h, rfl⟩

/-- Lists of tokens that are alike are empty together. -/
theorem Likeness.Alike.nil_iff {l : Likeness} {xs ys : List Token} (h : l.Alike xs ys) :
    xs = [] ↔ ys = [] := by
  constructor
  · rintro rfl
    exact List.map_eq_nil_iff.1 h.symm
  · rintro rfl
    exact List.map_eq_nil_iff.1 h

/-- What is new stays so at another place. -/
theorem Fresh.alike {l : Likeness} {xs ys : List Token} (hx : Fresh xs) (h : l.Alike xs ys) :
    Fresh ys := by
  have hrest := (h.skip (· = .newline)).1
  intro t ht
  obtain ⟨us, hus⟩ := List.head?_eq_some_iff.1 ht
  rw [hus] at hrest
  obtain ⟨x, vs, hvs, htoken, -⟩ := List.map_eq_cons_iff.1 hrest
  rw [← (Likeness.Alike.kind htoken : x.kind = t.kind)]
  exact hx x (by rw [hvs]; rfl)

/-- The streams of a text inside a longer one. -/
def Joined (like : Likeness) (behind xs ys : List Token) : Prop :=
  ∃ ms, like.Alike xs ms ∧ ys = ms ++ behind

/-- Tokens are skipped alike in a text and a longer one, if the text does not end there, or what is
behind it is not skipped. -/
theorem Joined.skip {like : Likeness} {behind xs ys : List Token} (h : Joined like behind xs ys)
    {p : TokenKind → Bool} (hstop : xs.dropWhile (p ·.kind) ≠ [] ∨
      ∀ y ∈ behind.head?, p y.kind = false) :
    SkippedAlike like (Joined like behind) p xs ys := by
  obtain ⟨ms, hms, rfl⟩ := h
  obtain ⟨hdrop, htake⟩ := hms.skip p
  have hparts : (ms ++ behind).dropWhile (p ·.kind) = ms.dropWhile (p ·.kind) ++ behind ∧
      (ms ++ behind).takeWhile (p ·.kind) = ms.takeWhile (p ·.kind) := by
    by_cases hsome : ms.dropWhile (p ·.kind) = []
    · have hhead := hstop.resolve_left fun hne => hne (hdrop.nil_iff.2 hsome)
      have hall : ∀ t ∈ ms, p t.kind = true := List.dropWhile_eq_nil_iff.1 hsome
      rw [List.dropWhile_append_of_pos hall, List.takeWhile_append_of_pos hall, hsome,
        List.takeWhile_eq_self_iff.2 hall]
      cases behind with
      | nil => simp
      | cons y tokens =>
        have hy : ¬p y.kind = true := by simp [hhead y rfl]
        rw [List.dropWhile_cons, if_neg hy, List.takeWhile_cons, if_neg hy]
        simp
    · have hempty : (ms.dropWhile (p ·.kind)).isEmpty = false := by simpa using hsome
      have hlength : (ms.takeWhile (p ·.kind)).length ≠ ms.length := by
        intro hlength
        have hboth := congrArg List.length
          (List.takeWhile_append_dropWhile (p := (p ·.kind)) (l := ms))
        rw [List.length_append, hlength] at hboth
        exact hsome (List.eq_nil_of_length_eq_zero (by omega))
      rw [List.dropWhile_append, List.takeWhile_append, if_neg hlength]
      simp [hempty]
  refine ⟨⟨_, hdrop, hparts.1⟩, fun hends => ?_⟩
  rw [hparts.2]
  exact hends.after htake

namespace Joined

variable {like : Likeness} {behind xs ys : List Token} {x y : Token} {p : TokenKind → Bool}

/-- Where a text ends, the longer one goes on with a line break or ends too. -/
theorem nil (hline : ∀ y ∈ behind.head?, y.kind = .newline) (h : Joined like behind [] ys) :
    behind ≠ [] ∧ (∃ y ys', ys = y :: ys' ∧ y.kind = .newline) ∨ ¬behind ≠ [] ∧ ys = [] := by
  obtain ⟨ms, hms, rfl⟩ := h
  rw [hms.nil_iff.1 rfl, List.nil_append]
  cases behind with
  | nil => exact Or.inr ⟨fun h => h rfl, rfl⟩
  | cons y behind => exact Or.inl ⟨List.cons_ne_nil _ _, y, behind, rfl, hline y rfl⟩

/-- The tokens at hand are the same. -/
theorem cons (h : Joined like behind (x :: xs) ys) :
    ∃ y ys', ys = y :: ys' ∧ y.kind = x.kind ∧ like.Alike x.span y.span := by
  obtain ⟨ms, hms, rfl⟩ := h
  obtain ⟨y, ms, rfl, htoken, -⟩ := List.map_eq_cons_iff.1 hms.symm
  exact ⟨y, ms ++ behind, rfl, (Likeness.Alike.kind htoken.symm).symm,
    Likeness.Alike.span htoken.symm⟩

/-- Behind them the texts go on so. -/
theorem tail (h : Joined like behind (x :: xs) (y :: ys)) : Joined like behind xs ys := by
  obtain ⟨ms, hms, hys⟩ := h
  obtain ⟨_, ms, rfl, -, htail⟩ := List.map_eq_cons_iff.1 hms.symm
  obtain ⟨-, rfl⟩ := List.cons.inj hys
  exact ⟨ms, htail.symm, rfl⟩

/-- Tokens are skipped alike, unless a text is skipped to its end in front of a line break that is
skipped too. -/
theorem skipped (hline : ∀ y ∈ behind.head?, y.kind = .newline) (h : Joined like behind xs ys) :
    behind ≠ [] ∧ p .newline = true ∧ xs.dropWhile (p ·.kind) = [] ∨
      SkippedAlike like (Joined like behind) p xs ys := by
  by_cases hend : behind ≠ [] ∧ p .newline = true ∧ xs.dropWhile (p ·.kind) = []
  · exact Or.inl hend
  refine Or.inr (h.skip ?_)
  by_cases hnone : xs.dropWhile (p ·.kind) = []
  · refine Or.inr fun y hy => Bool.eq_false_iff.2 fun hpy => hend ⟨?_, ?_, hnone⟩
    · rintro rfl
      cases hy
    · exact hline y hy ▸ hpy
  · exact Or.inl hnone

/-- The first token is seen alike, if it is no line break. -/
theorem head_iff (hline : ∀ y ∈ behind.head?, y.kind = .newline) (h : Joined like behind xs ys)
    {k : TokenKind} (hk : k ≠ .newline) :
    xs.head?.map (·.kind) = some k ↔ ys.head?.map (·.kind) = some k := by
  cases xs with
  | nil =>
    obtain ⟨-, y, ys, rfl, hy⟩ | ⟨-, rfl⟩ := h.nil hline
    · simp [hy, hk.symm]
    · rfl
  | cons x xs =>
    obtain ⟨y, ys, rfl, hkind, -⟩ := h.cons
    simp [hkind]

/-- Behind line breaks the longer text goes on with what is behind the other. -/
theorem behind_breaks (h : Joined like behind xs ys) (hall : ∀ x ∈ xs, x.kind = .newline) :
    ys.dropWhile (·.kind = .newline) = behind.dropWhile (·.kind = .newline) := by
  obtain ⟨ms, hms, rfl⟩ := h
  refine List.dropWhile_append_of_pos ?_
  refine List.dropWhile_eq_nil_iff.1 ((hms.skip (· = .newline)).1.nil_iff.1 ?_)
  exact List.dropWhile_eq_nil_iff.2 fun t ht => by simpa using hall t ht

end Joined

/-- Behind a seam there is a line break, or nothing. -/
theorem Seam.newline {behind : List Token} (seam : Seam behind) :
    ∀ y ∈ behind.head?, y.kind = .newline := by
  cases seam with
  | none => exact nofun
  | line newline _ =>
    rintro _ ⟨⟩
    exact newline

/-- A text is read alike inside a longer one, with more groups around it and errors and warnings
before it. -/
def Simulation.joining (like : Likeness) (base : List Group)
    (base_plain : ignoresNewlines base = false) (extra limit : Nat)
    (limit_le : limit + extra ≤ maxErrors) (earlier : List Diagnostic) {behind : List Token}
    (seam : Seam behind) : Simulation where
  like := like
  base := base
  base_plain := base_plain
  extra := extra
  limit := limit
  limit_le := limit_le
  earlier := earlier
  extended := behind ≠ []
  stream := fun _ => Joined like behind
  nil h := h.nil seam.newline
  cons h := h.cons
  move h _ _ _ := (h.tail.skipped seam.newline).imp_left fun ⟨hext, hbreak, hend⟩ =>
    ⟨hext, Or.inl hbreak, hend⟩
  skip h _ _ := (h.skipped seam.newline).imp_left fun ⟨hext, _, hend⟩ => ⟨hext, hend⟩
  label h _ := h.tail.head_iff seam.newline (by simp)
  borrow h _ := h.tail.head_iff seam.newline (by simp)
  fresh := by
    intro groups xs ys hext h hall y hy
    rw [h.behind_breaks hall] at hy
    cases seam with
    | none => exact absurd rfl hext
    | line newline fresh =>
      rw [List.dropWhile_cons_of_pos (by simpa using newline)] at hy
      exact Or.inl (fresh y hy)
  exact := fun _ => ⟨behind, fun _ _ _ => Iff.rfl⟩

/-- A line goes on behind these tokens: they do not end with a line break. -/
def InLine (tokens : List Token) : Prop := ∀ t ∈ tokens.getLast?, t.kind ≠ .newline

instance (tokens : List Token) : Decidable (InLine tokens) :=
  inferInstanceAs (Decidable (∀ t ∈ tokens.getLast?, t.kind ≠ .newline))

/-- So it does behind a part of them that reaches to their end. -/
theorem InLine.suffix {xs ys : List Token} (h : InLine ys) (hxs : xs <:+ ys) : InLine xs := by
  obtain ⟨zs, rfl⟩ := hxs
  intro t ht
  exact h t (by rw [List.getLast?_append, Option.mem_def.1 ht]; rfl)

/-- Behind line breaks no line goes on. -/
theorem InLine.eq_nil {tokens : List Token} (h : InLine tokens)
    (hall : ∀ t ∈ tokens, t.kind = .newline) : tokens = [] := by
  cases hlast : tokens.getLast? with
  | none => exact List.getLast?_eq_none_iff.1 hlast
  | some t => exact absurd (hall t (List.mem_of_getLast? hlast)) (h t hlast)

/-- A text is read alike above an `else`, as long as no condition takes it for its second branch.
The text does not end with a line break, so that it is at its end where the `else` is seen. -/
def Simulation.aboveElse {y z : Token} (newline : y.kind = .newline)
    (second : z.kind = .keyword .else_) : Simulation where
  like := .bare
  base := []
  base_plain := ignoresNewlines_nil
  extra := 0
  limit := 1
  limit_le := first_le_maxErrors
  earlier := []
  extended := True
  tail := .slack
  stream := fun _ xs ys => InLine xs ∧ Joined .bare [y, z] xs ys
  nil h := (h.2.nil (by simpa using newline)).imp (fun ⟨_, hnext⟩ => ⟨trivial, hnext⟩)
    fun ⟨hnone, _⟩ => absurd (List.cons_ne_nil _ _) hnone
  cons h := h.2.cons
  move h _ _ _ := (h.2.tail.skipped (by simpa using newline)).imp
    (fun ⟨_, hbreak, hend⟩ => ⟨trivial, Or.inl hbreak, hend⟩) fun hskipped =>
    ⟨⟨h.1.suffix ((List.dropWhile_suffix _).trans (List.suffix_cons _ _)), hskipped.stream⟩,
      hskipped.ends⟩
  skip h _ _ := (h.2.skipped (by simpa using newline)).imp (fun ⟨_, _, hend⟩ => ⟨trivial, hend⟩)
    fun hskipped => ⟨⟨h.1.suffix (List.dropWhile_suffix _), hskipped.stream⟩, hskipped.ends⟩
  label h _ := h.2.tail.head_iff (by simpa using newline) (by simp)
  borrow h _ := h.2.tail.head_iff (by simpa using newline) (by simp)
  fresh := by
    intro groups xs ys _ h hall t ht
    rw [h.2.behind_breaks hall, List.dropWhile_cons_of_pos (by simpa using newline),
      List.dropWhile_cons_of_neg (by simp [second])] at ht
    obtain rfl : z = t := Option.some.inj ht
    exact Or.inr ⟨second, rfl, h.1.eq_nil hall⟩
  exact := fun h => absurd h (Nat.lt_irrefl 1)

end FrontEnd
