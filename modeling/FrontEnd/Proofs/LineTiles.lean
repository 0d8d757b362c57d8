import FrontEnd.Proofs.LineRanges

/-!
# Lines cover the text

A text is cut at its line feeds into rows. What a row shows and what ends it, a line feed behind it
and a carriage return in front of that, make up the text when they are joined in order, and the line
table finds each row under its number, at the place behind the rows above.
-/

namespace FrontEnd

namespace Text

/-- What a line shows, and the characters that end it. -/
structure EndedLine where
  shown : List Char
  ending : List Char

namespace EndedLine

/-- All characters of the line. -/
def chars (l : EndedLine) : List Char := l.shown ++ l.ending

/-- A row with the characters behind it: a carriage return at its end belongs to the ending. -/
def ofRow (behind row : List Char) : EndedLine :=
  if row.getLast? = some '\r' then ⟨row.dropLast, '\r' :: behind⟩ else ⟨row, behind⟩

variable (behind row : List Char)

theorem ofRow_shown : (ofRow behind row).shown = visible row := by
  unfold ofRow visible
  split <;> rfl

theorem ofRow_chars : (ofRow behind row).chars = row ++ behind := by
  unfold ofRow
  split
  · rename_i hlast
    obtain ⟨front, rfl⟩ := List.getLast?_eq_some_iff.1 hlast
    simp [chars]
  · rfl

/-- The ending takes a carriage return if there is one. -/
theorem ofRow_ending : (ofRow behind row).ending = '\r' :: behind ∨
    (ofRow behind row).ending = behind ∧ (ofRow behind row).shown.getLast? ≠ some '\r' := by
  unfold ofRow
  split
  · exact Or.inl rfl
  · rename_i hlast
    exact Or.inr ⟨rfl, hlast⟩

end EndedLine

/-- Rows above, each with its line feed. -/
def fed (rows : List (List Char)) : List Char := rows.flatMap (· ++ ['\n'])

/-- Every text consists of rows with line feeds, and a last one without. -/
theorem exists_rows (cs : List Char) : ∃ rows last, fed rows ++ last = cs ∧
    (∀ row ∈ rows, '\n' ∉ row) ∧ '\n' ∉ last := by
  induction cs with
  | nil => exact ⟨[], [], rfl, List.forall_mem_nil _, List.not_mem_nil⟩
  | cons c cs ih =>
    obtain ⟨rows, last, rfl, hrows, hlast⟩ := ih
    by_cases hc : c = '\n'
    · subst hc
      exact ⟨[] :: rows, last, rfl, List.forall_mem_cons.2 ⟨List.not_mem_nil, hrows⟩, hlast⟩
    · have hne : '\n' ≠ c := Ne.symm hc
      cases rows with
      | nil => exact ⟨[], c :: last, rfl, hrows, List.not_mem_cons_of_ne_of_not_mem hne hlast⟩
      | cons row rows =>
        obtain ⟨hrow, hrows⟩ := List.forall_mem_cons.1 hrows
        exact ⟨(c :: row) :: rows, last, rfl, List.forall_mem_cons.2
          ⟨List.not_mem_cons_of_ne_of_not_mem hne hrow, hrows⟩, hlast⟩

/-- Each row has one line feed. -/
theorem count_fed {rows : List (List Char)} (h : ∀ row ∈ rows, '\n' ∉ row) :
    (fed rows).count '\n' = rows.length := by
  induction rows with
  | nil => rfl
  | cons row rows ih =>
    obtain ⟨hrow, hrows⟩ := List.forall_mem_cons.1 h
    have hrest : fed (row :: rows) = (row ++ ['\n']) ++ fed rows := rfl
    rw [hrest, List.count_append, List.count_append, List.count_eq_zero_of_not_mem hrow, ih hrows,
      List.count_singleton_self, List.length_cons]
    omega

/-- A row with the rows above and the text below is a line. -/
def rowLine (above : List (List Char)) (row below : List Char) (unbroken : '\n' ∉ row)
    (ends : below = [] ∨ below.head? = some '\n') : Line where
  above := fed above
  row := row
  below := below
  begins := by
    rcases List.eq_nil_or_concat above with rfl | ⟨rows, last, rfl⟩
    · exact Or.inl rfl
    · exact Or.inr (by simp [fed])
  unbroken := unbroken
  ends := ends

end Text

namespace LineTable

open Text

/-- The line table of a text finds a line behind the lines above it: its range can be cut out of the
text and is what the line shows. That holds no line feed, and a carriage return at the end of it
only in front of another one. -/
structure Finds (text : String) (above : List EndedLine) (l : EndedLine) : Prop where
  range : (scan text).range? text (above.length + 1) =
    some (byteSize (above.flatMap EndedLine.chars),
      byteSize (above.flatMap EndedLine.chars) + byteSize l.shown)
  slice : slice? text.toList (byteSize (above.flatMap EndedLine.chars))
    (byteSize (above.flatMap EndedLine.chars) + byteSize l.shown) = some l.shown
  shown : (scan text).text? text (above.length + 1) = some (String.ofList l.shown)
  unbroken : '\n' ∉ l.shown
  returns : l.shown.getLast? = some '\r' → l.ending.head? = some '\r'

/-- There are ranges for the numbers of lines and no others. -/
theorem isSome_range?_iff (t : LineTable) (text : String) (line : Nat) :
    (t.range? text line).isSome ↔ 1 ≤ line ∧ line ≤ t.count := by
  cases line with
  | zero =>
    have hnone : t.range? text 0 = none := rfl
    exact iff_of_false (by rw [hnone]; exact nofun) (by omega)
  | succ index =>
    have hrange : (t.range? text (index + 1)).isSome ↔ t.starts[index]?.isSome := by
      change (t.starts[index]? >>= fun start => _).isSome ↔ _
      cases t.starts[index]? with
      | none => rfl
      | some start =>
        change (ite _ _ _ : Option (Nat × Nat)).isSome ↔ _
        split <;> rfl
    rw [hrange, isSome_getElem?]
    unfold count
    omega

theorem flatMap_chars (rows : List (List Char)) :
    (rows.map (EndedLine.ofRow ['\n'])).flatMap EndedLine.chars = fed rows := by
  rw [List.flatMap_map]
  exact congrArg (rows.flatMap ·) (funext fun row => EndedLine.ofRow_chars ['\n'] row)

variable {text : String} {rows : List (List Char)}

/-- A row is found behind the rows above. -/
theorem finds_row {row below : List Char} (behind : List Char)
    (htext : text.toList = fed rows ++ (row ++ below)) (hrows : ∀ row ∈ rows, '\n' ∉ row)
    (hrow : '\n' ∉ row) (hends : below = [] ∨ below.head? = some '\n') :
    Finds text (rows.map (EndedLine.ofRow ['\n'])) (EndedLine.ofRow behind row) := by
  have hline : text.toList = (rowLine rows row below hrow hends).text := htext
  have hnumber : (rowLine rows row below hrow hends).number =
      (rows.map (EndedLine.ofRow ['\n'])).length + 1 := by
    rw [List.length_map]
    exact congrArg (· + 1) (count_fed hrows)
  have habove := flatMap_chars rows
  have hshown := EndedLine.ofRow_shown behind row
  refine ⟨?_, ?_, ?_, ?_, ?_⟩
  · rw [habove, hshown, ← hnumber]
    exact Line.range?_number hline
  · rw [habove, hshown]
    exact Line.slice?_number hline
  · rw [hshown, ← hnumber]
    exact Line.text?_number hline
  · have hfront := visible_prefix row
    rw [hshown]
    exact fun hmem => hrow (hfront.subset hmem)
  · intro hlast
    rcases EndedLine.ofRow_ending behind row with hending | ⟨-, hother⟩
    · rw [hending]
      rfl
    · exact absurd hlast hother

/-- So is every line, the last one included. -/
theorem finds_of_split {lastRow : List Char} {above below : List EndedLine} {l : EndedLine}
    (htext : fed rows ++ lastRow = text.toList) (hrows : ∀ row ∈ rows, '\n' ∉ row)
    (hlast : '\n' ∉ lastRow)
    (hsplit : rows.map (EndedLine.ofRow ['\n']) ++ [EndedLine.ofRow [] lastRow] =
      above ++ l :: below) : Finds text above l := by
  rcases List.eq_nil_or_concat below with rfl | ⟨below, final, rfl⟩
  · obtain ⟨rfl, hl⟩ := List.append_inj' hsplit rfl
    obtain rfl := List.singleton_inj.1 hl
    exact finds_row [] (by rw [List.append_nil, htext]) hrows hlast (Or.inl rfl)
  · have hfront : rows.map (EndedLine.ofRow ['\n']) ++ [EndedLine.ofRow [] lastRow] =
        (above ++ l :: below) ++ [final] := by simpa using hsplit
    obtain ⟨hmap, -⟩ := List.append_inj' hfront rfl
    obtain ⟨rows, _, rfl, rfl, hrest⟩ := List.map_eq_append_iff.1 hmap
    obtain ⟨row, rowsBelow, rfl, rfl, -⟩ := List.map_eq_cons_iff.1 hrest
    have hcut : text.toList = fed rows ++ (row ++ '\n' :: (fed rowsBelow ++ lastRow)) := by
      rw [← htext]
      simp [fed]
    obtain ⟨hrows, hbelow⟩ := List.forall_mem_append.1 hrows
    obtain ⟨hrow, -⟩ := List.forall_mem_cons.1 hbelow
    exact finds_row ['\n'] hcut hrows hrow (Or.inr rfl)

/-- **Lines cover the text.** There is a range exactly for the numbers from one to the number of
lines. The lines with what ends them make up the text: a line feed, or a carriage return and a line
feed, for every line but the last, and nothing or a carriage return for that one. Each line is found
under its number, and its range begins where the lines above end. -/
theorem scan_tiles (text : String) :
    (∀ line, ((scan text).range? text line).isSome ↔ 1 ≤ line ∧ line ≤ (scan text).count) ∧
      ∃ (lines : List EndedLine) (last : EndedLine),
        (lines ++ [last]).length = (scan text).count ∧
        (lines ++ [last]).flatMap EndedLine.chars = text.toList ∧
        (∀ l ∈ lines, l.ending = ['\n'] ∨ l.ending = ['\r', '\n']) ∧
        (last.ending = [] ∨ last.ending = ['\r']) ∧
        ∀ above l below, lines ++ [last] = above ++ l :: below → Finds text above l := by
  obtain ⟨rows, lastRow, htext, hrows, hlast⟩ := exists_rows text.toList
  refine ⟨isSome_range?_iff (scan text) text, rows.map (EndedLine.ofRow ['\n']),
    EndedLine.ofRow [] lastRow, ?_, ?_, ?_, ?_, ?_⟩
  · have hcount : (scan text).count = text.toList.count '\n' + 1 :=
      congrArg (· + 1) (length_startsFrom 0 text.toList)
    rw [hcount, ← htext, List.count_append, count_fed hrows, List.count_eq_zero_of_not_mem hlast]
    simp
  · rw [List.flatMap_append, flatMap_chars, List.flatMap_singleton, EndedLine.ofRow_chars,
      List.append_nil, htext]
  · intro l hl
    obtain ⟨row, -, rfl⟩ := List.mem_map.1 hl
    exact (EndedLine.ofRow_ending ['\n'] row).symm.imp And.left id
  · exact (EndedLine.ofRow_ending [] lastRow).symm.imp And.left id
  · exact fun above l below hsplit => finds_of_split htext hrows hlast hsplit

-- An empty line in front of a carriage return and a line feed, and a line of one carriage return.
example : (scan "é\n\r\n\r").range? "é\n\r\n\r" 2 = some (3, 3) ∧
    (scan "é\n\r\n\r").range? "é\n\r\n\r" 3 = some (5, 5) := by decide

end LineTable

end FrontEnd
