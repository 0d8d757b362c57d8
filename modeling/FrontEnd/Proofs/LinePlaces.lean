import FrontEnd.Proofs.LineStarts
import Mathlib.Data.List.TakeWhile
import Mathlib.Data.Prod.Lex
import Mathlib.Order.Monotone.Defs

/-!
# The line that an offset is on

An offset is on the last line that starts at or before it. With increasing line starts there is only
one such line, and a later offset is on a later line, or further on in the same one. The line is
also found by a binary search among the line starts.
-/

namespace FrontEnd.LineTable

section Places

/-- An offset is on the line with some index, from zero, that starts at some place. -/
structure OnLine (t : LineTable) (offset index start : Nat) : Prop where
  starts : t.starts[index]? = some start
  le : start ≤ offset
  lt : ∀ next ∈ t.starts[index + 1]?, offset < next

variable {t : LineTable} {offset offset' index index' start start' : Nat}

/-- What a line table finds for an offset is the line it is on, and its distance from the start. -/
theorem onLine_lineCol (t : LineTable) (offset : Nat) : ∃ index start,
    t.OnLine offset index start ∧ t.lineCol offset = (index + 1, offset - start) := by
  have hsplit := List.takeWhile_append_dropWhile (p := (· ≤ offset)) (l := t.later)
  have hbefore : ∀ start ∈ t.later.takeWhile (· ≤ offset), start ≤ offset := fun start hstart => by
    simpa using List.mem_takeWhile_imp hstart
  have hnext := List.head?_dropWhile_not (· ≤ offset) t.later
  have hcol : t.lineCol offset = ((t.later.takeWhile (· ≤ offset)).length + 1,
    offset - (t.later.takeWhile (· ≤ offset)).getLastD 0) := rfl
  generalize t.later.takeWhile (· ≤ offset) = before at hsplit hbefore hcol
  generalize t.later.dropWhile (· ≤ offset) = behind at hsplit hnext
  have hstarts : t.starts = (0 :: before) ++ behind := congrArg (0 :: ·) hsplit.symm
  refine ⟨before.length, before.getLastD 0, ⟨?_, ?_, ?_⟩, hcol⟩
  · have hlast : (0 :: before)[before.length]? = some (before.getLastD 0) := by
      rw [List.getLastD_eq_getLast?, ← List.getLast?_cons, List.getLast?_eq_getElem?]
      rfl
    rw [hstarts, List.getElem?_append_left (Nat.lt_succ_self _), hlast]
  · rcases List.eq_nil_or_concat before with rfl | ⟨front, last, rfl⟩
    · exact Nat.zero_le _
    · rw [List.concat_eq_append, List.getLastD_concat]
      exact hbefore last (by simp)
  · rw [hstarts]
    change ∀ next ∈ ((0 :: before) ++ behind)[(0 :: before).length]?, offset < next
    rw [List.getElem?_append_right (Nat.le_refl _), Nat.sub_self, ← List.head?_eq_getElem?]
    cases behind with
    | nil => exact nofun
    | cons next behind =>
      rintro _ ⟨⟩
      simpa using hnext

/-- A later offset is not on a line further up. -/
theorem OnLine.index_le (h : t.OnLine offset index start) (h' : t.OnLine offset' index' start')
    (hincreasing : t.starts.Pairwise (· < ·)) (hle : offset ≤ offset') : index ≤ index' := by
  by_contra hlt
  obtain ⟨hindex, hstart⟩ := List.getElem?_eq_some_iff.1 h.starts
  have hindex' : index' + 1 < t.starts.length := by omega
  have hnext := h'.lt _ (List.getElem?_eq_getElem hindex')
  have hbelow : t.starts[index' + 1] ≤ t.starts[index] := by
    rcases Nat.eq_or_lt_of_le (show index' + 1 ≤ index by omega) with heq | hlt
    · simp only [heq, Nat.le_refl]
    · exact Nat.le_of_lt (List.pairwise_iff_getElem.1 hincreasing _ _ hindex' hindex hlt)
  have hstart_le := h.le
  omega

/-- There is only one line that an offset is on. -/
theorem OnLine.unique (h : t.OnLine offset index start) (h' : t.OnLine offset index' start')
    (hincreasing : t.starts.Pairwise (· < ·)) : index = index' ∧ start = start' := by
  obtain rfl := Nat.le_antisymm (h.index_le h' hincreasing (Nat.le_refl _))
    (h'.index_le h hincreasing (Nat.le_refl _))
  exact ⟨rfl, Option.some.inj (h.starts.symm.trans h'.starts)⟩

/-- The line table finds the line that an offset is on. -/
theorem OnLine.lineCol_eq (h : t.OnLine offset index start)
    (hincreasing : t.starts.Pairwise (· < ·)) : t.lineCol offset = (index + 1, offset - start) := by
  obtain ⟨_, _, hon, hcol⟩ := t.onLine_lineCol offset
  obtain ⟨rfl, rfl⟩ := h.unique hon hincreasing
  exact hcol

/-- Lines and columns increase with the offset, lines first. -/
theorem lineCol_strictMono (hincreasing : t.starts.Pairwise (· < ·)) :
    StrictMono fun offset => toLex (t.lineCol offset) := by
  intro offset offset' hlt
  obtain ⟨index, start, hon, hcol⟩ := t.onLine_lineCol offset
  obtain ⟨index', start', hon', hcol'⟩ := t.onLine_lineCol offset'
  dsimp only
  rw [hcol, hcol', Prod.Lex.toLex_lt_toLex]
  rcases Nat.eq_or_lt_of_le (hon.index_le hon' hincreasing (Nat.le_of_lt hlt)) with rfl | hbelow
  · obtain rfl := Option.some.inj (hon.starts.symm.trans hon'.starts)
    have hle := hon.le
    exact Or.inr ⟨rfl, by dsimp only; omega⟩
  · exact Or.inl (Nat.succ_lt_succ hbelow)

end Places

section Searching

/-- What a binary search for an offset among increasing line starts may answer: the index of an
equal one, or else the index at which the offset would have to be put in. -/
inductive Searched (starts : List Nat) (offset : Nat) : Except Nat Nat → Prop
  | found {index : Nat} (equal : starts[index]? = some offset) : Searched starts offset (.ok index)
  | missed {index : Nat} (le : index ≤ starts.length)
    (below : ∀ start ∈ starts.take index, start < offset)
    (above : ∀ start ∈ starts.drop index, offset < start) : Searched starts offset (.error index)

/-- The index of the line, from the answer of a search: that of the equal line start, or of the one
before the place. -/
def searchedIndex : Except Nat Nat → Nat
  | .ok index => index
  | .error index => index - 1

variable {t : LineTable} {offset : Nat} {answer : Except Nat Nat}

/-- A search finds the line that an offset is on. -/
theorem Searched.onLine (h : Searched t.starts offset answer)
    (hincreasing : t.starts.Pairwise (· < ·)) :
    ∃ start, t.OnLine offset (searchedIndex answer) start := by
  cases h with
  | @found index equal =>
    refine ⟨offset, equal, Nat.le_refl _, fun next hnext => ?_⟩
    obtain ⟨hindex, hstart⟩ := List.getElem?_eq_some_iff.1 equal
    obtain ⟨hindex', hnext⟩ := List.getElem?_eq_some_iff.1 hnext
    rw [← hstart, ← hnext]
    exact List.pairwise_iff_getElem.1 hincreasing _ _ hindex hindex' (Nat.lt_succ_self _)
  | @missed index le below above =>
    cases index with
    | zero =>
      -- The first line starts at zero, and no offset is in front of that.
      exact absurd (above 0 List.mem_cons_self) (Nat.not_lt_zero offset)
    | succ index =>
      have hstart : t.starts[index]? = some t.starts[index] := List.getElem?_eq_getElem le
      refine ⟨t.starts[index], hstart, Nat.le_of_lt (below _ ?_), fun next hnext => above _ ?_⟩
      · refine List.mem_of_getElem? (i := index) ?_
        rw [List.getElem?_take_of_lt (Nat.lt_succ_self _), hstart]
      · refine List.mem_of_getElem? (i := 0) ?_
        rwa [List.getElem?_drop]

/-- There is always an answer. -/
theorem exists_searched {starts : List Nat} (hincreasing : starts.Pairwise (· < ·)) (offset : Nat) :
    ∃ answer, Searched starts offset answer := by
  have hsplit := List.takeWhile_append_dropWhile (p := (· < offset)) (l := starts)
  have hbelow : ∀ start ∈ starts.takeWhile (· < offset), start < offset := fun start hstart => by
    simpa using List.mem_takeWhile_imp hstart
  have hnext := List.head?_dropWhile_not (· < offset) starts
  generalize starts.takeWhile (· < offset) = front at hsplit hbelow
  generalize starts.dropWhile (· < offset) = behind at hsplit hnext
  subst hsplit
  have missed (habove : ∀ start ∈ behind, offset < start) :
      Searched (front ++ behind) offset (.error front.length) :=
    .missed (by simp) (by rwa [List.take_left]) (by rwa [List.drop_left])
  cases behind with
  | nil => exact ⟨_, missed (List.forall_mem_nil _)⟩
  | cons next behind =>
    have hle : offset ≤ next := by simpa using hnext
    rcases Nat.eq_or_lt_of_le hle with rfl | hlt
    · exact ⟨.ok front.length, .found (by simp)⟩
    · have hbehind := (List.pairwise_cons.1 (List.pairwise_append.1 hincreasing).2.1).1
      exact ⟨_, missed (List.forall_mem_cons.2 ⟨hlt, fun start hstart =>
        Nat.lt_trans hlt (hbehind start hstart)⟩)⟩

end Searching

end FrontEnd.LineTable
