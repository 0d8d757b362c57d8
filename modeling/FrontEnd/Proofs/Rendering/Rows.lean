import FrontEnd.Diagnostic.Layout
import Mathlib.Algebra.Group.Nat.Defs

/-!
# The lines of rendered text

Rendered text is put together from rows, each with a line feed behind it. A row that is cut behind
the gutter ends within the width. A text that is wrapped has short lines, which put together are the
text again.
-/

namespace FrontEnd

namespace Text

/-- No line holds a line feed. -/
theorem unbroken_of_lines {cs l : List Char} (h : l ∈ lines cs) : '\n' ∉ l := by
  have hcons {c : Char} {ls : List (List Char)} (hc : c ≠ '\n') (hls : ∀ l ∈ ls, '\n' ∉ l) :
      ∀ l ∈ consLine c ls, '\n' ∉ l := by
    cases ls with
    | nil => simp [consLine, Ne.symm hc]
    | cons l' ls =>
      obtain ⟨hfirst, hothers⟩ := List.forall_mem_cons.1 hls
      exact List.forall_mem_cons.2 ⟨by simp [Ne.symm hc, hfirst], hothers⟩
  suffices hall : ∀ l ∈ lines cs, '\n' ∉ l from hall l h
  clear h
  induction cs with
  | nil => exact List.forall_mem_nil _
  | cons c cs ih =>
    unfold lines
    split
    · exact List.forall_mem_cons.2 ⟨List.not_mem_nil, ih⟩
    · split
      · exact ih
      · exact hcons ‹_› ih

/-- A character in front of the first line is one in front of the text. -/
theorem flatten_consLine (c : Char) (ls : List (List Char)) :
    (consLine c ls).flatten = c :: ls.flatten := by
  cases ls <;> rfl

/-- Without carriage returns only line feeds are lost between the lines. -/
theorem flatten_lines {cs : List Char} (h : '\r' ∉ cs) :
    (lines cs).flatten = cs.filter (· ≠ '\n') := by
  induction cs with
  | nil => rfl
  | cons c cs ih =>
    rw [List.mem_cons, not_or] at h
    have hothers := ih h.2
    unfold lines
    by_cases hfeed : c = '\n'
    · rw [if_pos hfeed, List.filter_cons_of_neg (by simp [hfeed])]
      exact hothers
    · rw [if_neg hfeed, if_neg fun hbreak => h.1 hbreak.1.symm, flatten_consLine, hothers,
        List.filter_cons_of_pos (by simp [hfeed])]

end Text

namespace Layout

/-- The lines of a text: what stands in front of, between and behind its line feeds. -/
def rows (text : String) : List (List Char) := text.toList.splitOn '\n'

/-- A line feed ends a line. -/
theorem rows_line (s t : String) : rows (s ++ "\n" ++ t) = rows s ++ rows t := by
  unfold rows
  rw [String.toList_append, String.toList_append, List.append_assoc]
  exact List.splitOn_append_cons_self s.toList t.toList

/-- A text without line feeds is a line. -/
theorem rows_single {s : String} (h : '\n' ∉ s.toList) : rows s = [s.toList] :=
  List.splitOn_eq_singleton h

/-- A line is found in the text. -/
theorem sublist_of_rows {s : String} {row : List Char} (h : row ∈ rows s) :
    row.Sublist s.toList := by
  unfold rows at h
  generalize s.toList = cs at h ⊢
  induction cs generalizing row with
  | nil =>
    obtain rfl := List.mem_singleton.1 h
    exact .slnil
  | cons c cs ih =>
    rw [List.splitOn_cons_eq_if_modifyHead] at h
    split at h
    · rcases List.mem_cons.1 h with rfl | h
      · exact List.nil_sublist _
      · exact (ih h).cons c
    · cases hrows : cs.splitOn '\n' with
      | nil =>
        rw [hrows] at h
        cases h
      | cons first others =>
        rw [hrows] at ih h
        rcases List.mem_cons.1 h with rfl | h
        · exact (ih List.mem_cons_self).cons_cons c
        · exact (ih (List.mem_cons_of_mem first h)).cons c

/-- A line is no longer than the text it is one of. -/
theorem length_of_rows {s : String} {row : List Char} (h : row ∈ rows s) : row.length ≤ s.length :=
  String.length_toList ▸ (sublist_of_rows h).length_le

/-- Rows with a line feed behind each of them. -/
def stack (texts : List String) : String := String.join (texts.map (· ++ "\n"))

/-- A text stands on top of the others. -/
theorem stack_cons (s : String) (texts : List String) :
    stack (s :: texts) = s ++ "\n" ++ stack texts :=
  String.join_cons

/-- The lines of rows are those of each row. -/
theorem rows_stack (texts : List String) (t : String) :
    rows (stack texts ++ t) = texts.flatMap rows ++ rows t := by
  induction texts with
  | nil => exact congrArg rows (String.empty_append)
  | cons s texts ih =>
    rw [stack_cons, String.append_assoc, rows_line, ih, List.flatMap_cons, List.append_assoc]

/-- Blanks are characters. -/
theorem toList_blanks (n : Nat) : (blanks n).toList = List.replicate n ' ' := by
  unfold blanks
  rw [String.pushn_eq_repeat_push]
  induction n with
  | zero => rfl
  | succ n ih => rw [Nat.repeat, String.toList_push, ih, List.replicate_succ']

/-- There are as many blanks as asked for. -/
theorem length_blanks (n : Nat) : (blanks n).length = n := by
  rw [← String.length_toList, toList_blanks, List.length_replicate]

/-- A text is filled up to a width, unless it is longer. -/
theorem length_padLeft (n : Nat) (s : String) : (padLeft n s).length = max n s.length := by
  unfold padLeft
  rw [String.length_append, length_blanks]
  omega

/-- A text that is clipped fits in. -/
theorem length_clip_le (s : String) (width : Nat) : (clip s width).length ≤ width := by
  unfold clip
  rw [String.length_ofList]
  exact List.length_take_le width s.toList

/-- Smaller numbers have no more digits. -/
theorem length_toString_le {m n : Nat} (h : m ≤ n) : (toString m).length ≤ (toString n).length :=
  (Nat.length_repr_le_iff Nat.length_repr_pos).2
    (Nat.lt_of_le_of_lt h ((Nat.length_repr_le_iff Nat.length_repr_pos).1 (Nat.le_refl _)))

/-- The lines of a wrapped text are no longer than the width, and the first one is no longer than
the room for it. -/
theorem length_of_lines_wrapFrom {width room : Nat} (hwidth : 0 < width) (hroom : room ≤ width)
    (cs : List Char) : (∀ l ∈ (Text.lines (wrapFrom width room cs)).head?, l.length ≤ room) ∧
      ∀ l ∈ Text.lines (wrapFrom width room cs), l.length ≤ width := by
  induction cs generalizing room with
  | nil => exact ⟨nofun, nofun⟩
  | cons c cs ih =>
    -- A character that still has room stands in front of what the rest is wrapped to.
    have hnext {room : Nat} (hroom : room < width) :
        (∀ l ∈ (Text.lines (c :: wrapFrom width room cs)).head?, l.length ≤ room + 1) ∧
          ∀ l ∈ Text.lines (c :: wrapFrom width room cs), l.length ≤ width := by
      obtain ⟨hfirst, hall⟩ := ih (Nat.le_of_lt hroom)
      unfold Text.lines
      split
      · refine ⟨?_, List.forall_mem_cons.2 ⟨Nat.zero_le _, hall⟩⟩
        rintro _ ⟨⟩
        exact Nat.zero_le _
      · split
        · exact ⟨fun l hl => Nat.le_succ_of_le (hfirst l hl), hall⟩
        · cases hlines : Text.lines (wrapFrom width room cs) with
          | nil =>
            refine ⟨?_, List.forall_mem_singleton.2 hwidth⟩
            rintro _ ⟨⟩
            exact Nat.le_add_left 1 room
          | cons l ls =>
            rw [hlines] at hfirst hall
            have hl : l.length ≤ room := hfirst l rfl
            obtain ⟨-, hls⟩ := List.forall_mem_cons.1 hall
            refine ⟨?_, List.forall_mem_cons.2
              ⟨Nat.succ_le_of_lt (Nat.lt_of_le_of_lt hl hroom), hls⟩⟩
            rintro _ ⟨⟩
            exact Nat.succ_le_succ hl
    cases room with
    | zero =>
      have hbroken : Text.lines (wrapFrom width 0 (c :: cs)) =
          [] :: Text.lines (c :: wrapFrom width (width - 1) cs) := if_pos rfl
      rw [hbroken]
      refine ⟨?_, List.forall_mem_cons.2 ⟨Nat.zero_le _, (hnext (by omega)).2⟩⟩
      rintro _ ⟨⟩
      exact Nat.le_refl 0
    | succ room => exact hnext hroom

/-- The lines of a wrapped text are no longer than the width. -/
theorem length_of_lines_hardWrap {text line : String} {width : Nat} (hwidth : 0 < width)
    (h : line ∈ lines (hardWrap text width)) : line.length ≤ width := by
  unfold hardWrap lines at h
  rw [if_neg (Nat.ne_of_gt hwidth), String.toList_ofList] at h
  obtain ⟨l, hl, rfl⟩ := List.mem_map.1 h
  rw [String.length_ofList]
  exact (length_of_lines_wrapFrom hwidth (Nat.le_refl width) text.toList).2 l hl

/-- Wrapping adds line feeds and nothing else. -/
theorem filter_wrapFrom (width room : Nat) (cs : List Char) :
    (wrapFrom width room cs).filter (· ≠ '\n') = cs.filter (· ≠ '\n') := by
  induction cs generalizing room with
  | nil => rfl
  | cons c cs ih =>
    cases room with
    | zero =>
      rw [wrapFrom, List.filter_cons_of_neg (by decide), List.filter_cons, List.filter_cons, ih]
    | succ room => rw [wrapFrom, List.filter_cons, List.filter_cons, ih]

/-- Nothing but line breaks comes in where a text is wrapped. -/
theorem mem_wrapFrom {width room : Nat} {cs : List Char} {c : Char}
    (h : c ∈ wrapFrom width room cs) : c = '\n' ∨ c ∈ cs := by
  induction cs generalizing room with
  | nil => cases h
  | cons d cs ih =>
    have hbehind {room : Nat} (h : c ∈ d :: wrapFrom width room cs) : c = '\n' ∨ c ∈ d :: cs := by
      rcases List.mem_cons.1 h with rfl | h
      · exact Or.inr List.mem_cons_self
      · exact (ih h).imp_right (List.mem_cons_of_mem d)
    cases room with
    | zero =>
      rcases List.mem_cons.1 h with rfl | h
      · exact Or.inl rfl
      · exact hbehind h
    | succ room => exact hbehind h

/-- The lines of a wrapped text are the text again, if it has no line breaks of its own. -/
theorem flatten_lines_hardWrap {text : String} (hfeed : '\n' ∉ text.toList)
    (hreturn : '\r' ∉ text.toList) (width : Nat) :
    (Text.lines (hardWrap text width).toList).flatten = text.toList := by
  have hwhole : text.toList.filter (· ≠ '\n') = text.toList := by
    refine List.filter_eq_self.2 fun c hc => ?_
    simpa using fun h : c = '\n' => hfeed (h ▸ hc)
  unfold hardWrap
  split
  · rw [Text.flatten_lines hreturn, hwhole]
  · rw [String.toList_ofList, Text.flatten_lines fun h => ?_, filter_wrapFrom, hwhole]
    exact (mem_wrapFrom h).elim (by decide) hreturn

end Layout

end FrontEnd
