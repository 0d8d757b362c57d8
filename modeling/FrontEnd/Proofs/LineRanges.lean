import FrontEnd.Proofs.LinePlaces
import Mathlib.Data.List.DropRight

/-!
# Lines and their ranges

A line of a text stands between two line feeds, or the ends of the text. The line table of the text
finds it under its number, which is one more than the number of line feeds above, and finds every
place in it at the number of bytes in front of that place.
-/

namespace FrontEnd

namespace Text

theorem utf8ByteSize_ofList (cs : List Char) : (String.ofList cs).utf8ByteSize = byteSize cs := by
  induction cs with
  | nil => rfl
  | cons c cs ih =>
    rw [String.ofList_cons, String.utf8ByteSize_append, String.utf8ByteSize_singleton, ih,
      byteSize_cons]

theorem utf8ByteSize_eq (text : String) : text.utf8ByteSize = byteSize text.toList := by
  rw [← utf8ByteSize_ofList, String.ofList_toList]

/-- Two cuts of a text at the same number of bytes are the same. -/
theorem cut_unique {front rest front' rest' : List Char} (h : front ++ rest = front' ++ rest')
    (hsize : byteSize front = byteSize front') : front = front' := by
  have hsplit := splitAt?_append front rest
  rw [h, hsize, splitAt?_append] at hsplit
  exact (Prod.mk.inj (Option.some.inj hsplit)).1.symm

/-- What a line shows: a carriage return at its end belongs to the line break. -/
def visible (row : List Char) : List Char := if row.getLast? = some '\r' then row.dropLast else row

theorem visible_prefix (row : List Char) : visible row <+: row := by
  unfold visible
  split
  · exact List.dropLast_prefix row
  · exact List.prefix_refl row

/-- A line with the text around it. -/
structure Line where
  /-- The lines above, with their line feeds. -/
  above : List Char
  /-- The line, up to its line feed. -/
  row : List Char
  /-- The line feed, and the lines below. -/
  below : List Char
  begins : above = [] ∨ above.getLast? = some '\n'
  unbroken : '\n' ∉ row
  ends : below = [] ∨ below.head? = some '\n'

namespace Line

variable (l : Line)

/-- The whole text. -/
def text : List Char := l.above ++ (l.row ++ l.below)

/-- Lines are numbered from one. -/
def number : Nat := l.above.count '\n' + 1

/-- What the line shows. -/
def shown : List Char := visible l.row

end Line

end Text

namespace LineTable

/-- One line starts behind each line feed. -/
theorem length_startsFrom (pos : Nat) (cs : List Char) :
    (startsFrom pos cs).length = cs.count '\n' := by
  induction cs generalizing pos with
  | nil => rfl
  | cons c cs ih =>
    by_cases hc : c = '\n'
    · subst hc
      rw [startsFrom_break, List.length_cons, ih, List.count_cons_self]
    · rw [startsFrom_other hc, ih, List.count_cons_of_ne hc]

/-- No line starts behind the text. -/
theorem startsFrom_le (pos : Nat) (cs : List Char) :
    ∀ start ∈ startsFrom pos cs, start ≤ pos + Text.byteSize cs := by
  induction cs generalizing pos with
  | nil => exact List.forall_mem_nil _
  | cons c cs ih =>
    rw [Text.byteSize_cons, ← Nat.add_assoc]
    unfold startsFrom
    dsimp only
    split
    · exact List.forall_mem_cons.2 ⟨Nat.le_add_right _ _, ih _⟩
    · exact ih _

/-- The last of the line starts of some lines is the end of them. -/
theorem getLastD_startsFrom {cs : List Char} (h : cs = [] ∨ cs.getLast? = some '\n') (pos : Nat) :
    (startsFrom pos cs).getLastD pos = pos + Text.byteSize cs := by
  rcases h with rfl | h
  · rfl
  · obtain ⟨front, rfl⟩ := List.getLast?_eq_some_iff.1 h
    rw [startsFrom_append, Text.byteSize_append, ← Nat.add_assoc]
    exact List.getLastD_concat

end LineTable

namespace Text.Line

/-- The number counts the lines that start above, and the line itself. -/
theorem length_starts_above (l : Line) : (0 :: LineTable.startsFrom 0 l.above).length = l.number :=
  congrArg (· + 1) (LineTable.length_startsFrom 0 l.above)

variable {text : String} {l : Line} (h : text.toList = l.text)

include h

/-- The line starts above, and those below. -/
theorem starts_eq : (LineTable.scan text).starts = (0 :: LineTable.startsFrom 0 l.above) ++
    LineTable.startsFrom (byteSize l.above + byteSize l.row) l.below := by
  unfold LineTable.starts LineTable.scan
  dsimp only
  rw [h, Line.text, LineTable.startsFrom_append, LineTable.startsFrom_append,
    LineTable.startsFrom_eq_nil l.unbroken, List.nil_append, Nat.zero_add, List.cons_append]

/-- Where the line begins. -/
theorem starts_number : (LineTable.scan text).starts[l.number - 1]? = some (byteSize l.above) := by
  have hlength := l.length_starts_above
  have hlast := LineTable.getLastD_startsFrom l.begins 0
  rw [List.getLastD_eq_getLast?, Nat.zero_add] at hlast
  rw [starts_eq h, List.getElem?_append_left (by rw [hlength]; exact Nat.lt_succ_self _), ← hlength,
    ← List.getLast?_eq_getElem?, List.getLast?_cons, hlast]

/-- Where it ends: at the line feed in front of the next line, or at the end of the text. -/
theorem stop_number : ((LineTable.scan text).starts[l.number]?.map (· - 1)).getD text.utf8ByteSize =
    byteSize l.above + byteSize l.row := by
  have hlength := l.length_starts_above
  rw [starts_eq h, List.getElem?_append_right (Nat.le_of_eq hlength), hlength, Nat.sub_self,
    utf8ByteSize_eq, h, Line.text]
  rcases l.ends with hbelow | hbelow
  · rw [hbelow, byteSize_append, byteSize_append]
    rfl
  · obtain ⟨rest, hrest⟩ := List.head?_eq_some_iff.1 hbelow
    rw [hrest, LineTable.startsFrom_break]
    rfl

/-- Whether a carriage return stands at the end of the line. -/
theorem return_iff : byteSize l.above < byteSize l.above + byteSize l.row ∧
    charAt? text.toList (byteSize l.above + byteSize l.row - 1) = some '\r' ↔
      l.row.getLast? = some '\r' := by
  have hone : byteSize ['\r'] = 1 := rfl
  rw [h, Line.text]
  constructor
  · rintro ⟨hsome, hchar⟩
    obtain ⟨⟨front, rest⟩, hsplit, hhead⟩ := Option.bind_eq_some_iff.1 hchar
    obtain ⟨rest, rfl⟩ := List.head?_eq_some_iff.1 hhead
    have htext := append_of_splitAt? hsplit
    -- The line and what ends with the carriage return are front parts of the text of the same size.
    have hcut : front ++ ['\r'] = l.above ++ l.row := by
      have hsame : (front ++ ['\r']) ++ rest = (l.above ++ l.row) ++ l.below := by simpa using htext
      refine cut_unique hsame ?_
      rw [byteSize_append, byteSize_append, byteSize_of_splitAt? hsplit, hone]
      omega
    have hne : l.row ≠ [] := by
      intro hnil
      rw [hnil, byteSize_nil] at hsome
      exact Nat.lt_irrefl _ hsome
    rw [← List.getLast?_append_of_ne_nil l.above hne, ← hcut, List.getLast?_concat]
  · intro hlast
    obtain ⟨front, hrow⟩ := List.getLast?_eq_some_iff.1 hlast
    have hsize : byteSize l.row = byteSize front + 1 := by rw [hrow, byteSize_append, hone]
    have hfront : byteSize l.above + byteSize l.row - 1 = byteSize (l.above ++ front) := by
      rw [hsize, byteSize_append]
      rfl
    have htext : l.above ++ (l.row ++ l.below) = (l.above ++ front) ++ ('\r' :: l.below) := by
      rw [hrow]
      simp
    refine ⟨by omega, ?_⟩
    unfold charAt?
    rw [hfront, htext, splitAt?_append]
    rfl

/-- The range of the line is that of what it shows. -/
theorem range?_number : (LineTable.scan text).range? text l.number =
    some (byteSize l.above, byteSize l.above + byteSize l.shown) := by
  have hrange : (LineTable.scan text).range? text l.number =
      if byteSize l.above < byteSize l.above + byteSize l.row ∧
          charAt? text.toList (byteSize l.above + byteSize l.row - 1) = some '\r' then
        some (byteSize l.above, byteSize l.above + byteSize l.row - 1)
      else some (byteSize l.above, byteSize l.above + byteSize l.row) := by
    unfold LineTable.range?
    rw [starts_number h, stop_number h]
    rfl
  rw [hrange]
  unfold shown visible
  by_cases hlast : l.row.getLast? = some '\r'
  · rw [if_pos ((return_iff h).2 hlast), if_pos hlast]
    obtain ⟨front, hrow⟩ := List.getLast?_eq_some_iff.1 hlast
    rw [hrow, List.dropLast_concat, byteSize_append]
    rfl
  · rw [if_neg (mt (return_iff h).1 hlast), if_neg hlast]

/-- What the line shows can be cut out of the text. -/
theorem slice?_number : slice? text.toList (byteSize l.above)
    (byteSize l.above + byteSize l.shown) = some l.shown := by
  obtain ⟨behind, hbehind⟩ := visible_prefix l.row
  rw [h, Line.text, ← hbehind, List.append_assoc]
  exact slice?_append _ _ _

/-- The line table finds what the line shows under its number. -/
theorem text?_number :
    (LineTable.scan text).text? text l.number = some (String.ofList l.shown) := by
  unfold LineTable.text?
  rw [range?_number h]
  change (slice? text.toList _ _ >>= fun part => pure (String.ofList part)) = _
  rw [slice?_number h]
  rfl

/-- The line table finds a place in the line under the number of the line and the bytes in front of
it. -/
theorem lineCol_number {left right : List Char} (hrow : l.row = left ++ right) :
    (LineTable.scan text).lineCol (byteSize l.above + byteSize left) =
      (l.number, byteSize left) := by
  have hsize : byteSize l.row = byteSize left + byteSize right := by rw [hrow, byteSize_append]
  have hlength := l.length_starts_above
  have hon : (LineTable.scan text).OnLine (byteSize l.above + byteSize left) (l.number - 1)
      (byteSize l.above) := by
    refine ⟨starts_number h, Nat.le_add_right _ _, fun next hnext => ?_⟩
    -- The next line starts behind the row.
    change next ∈ (LineTable.scan text).starts[l.number]? at hnext
    rw [starts_eq h, List.getElem?_append_right (Nat.le_of_eq hlength)] at hnext
    have hbehind := (List.pairwise_cons.1 (LineTable.startsFrom_increasing
      (byteSize l.above + byteSize l.row) l.below)).1 next (List.mem_of_getElem? hnext)
    omega
  have hcol := hon.lineCol_eq (LineTable.startsFrom_increasing 0 text.toList)
  rwa [Nat.add_sub_cancel_left] at hcol

end Text.Line

namespace Text

/-- The line around a place, given the text on both sides of it. -/
def lineAround (before behind : List Char) : Line where
  above := before.rdropWhile (· ≠ '\n')
  row := before.rtakeWhile (· ≠ '\n') ++ behind.takeWhile (· ≠ '\n')
  below := behind.dropWhile (· ≠ '\n')
  begins := by
    refine or_iff_not_imp_left.2 fun hne => ?_
    have hlast := List.rdropWhile_last_not _ _ hne
    rw [List.getLast?_eq_some_getLast hne]
    exact congrArg some (by simpa using hlast)
  unbroken := by
    rw [List.mem_append, not_or]
    refine ⟨fun hmem => ?_, Lexer.unbroken_takeWhile (p := (· ≠ '\n')) rfl _⟩
    simpa using List.mem_rtakeWhile_imp hmem
  ends := by
    have hstop := List.head?_dropWhile_not (· ≠ '\n') behind
    cases hdrop : behind.dropWhile (· ≠ '\n') with
    | nil => exact Or.inl rfl
    | cons c rest =>
      rw [hdrop] at hstop
      exact Or.inr (congrArg some (by simpa using hstop))

theorem lineAround_text (before behind : List Char) :
    (lineAround before behind).text = before ++ behind := by
  change before.rdropWhile _ ++
    ((before.rtakeWhile _ ++ behind.takeWhile _) ++ behind.dropWhile _) = _
  rw [List.append_assoc, List.takeWhile_append_dropWhile, ← List.append_assoc,
    List.rdropWhile_append_rtakeWhile]

/-- A span on a text, both of whose ends lie between characters. -/
structure Excerpt (text : List Char) (span : Span) where
  before : List Char
  marked : List Char
  behind : List Char
  text_eq : text = before ++ (marked ++ behind)
  pos : span.pos = byteSize before
  len : span.len = byteSize marked

/-- A span is on a text if what is under it can be cut out. -/
theorem nonempty_excerpt_iff {text : List Char} {span : Span} :
    Nonempty (Excerpt text span) ↔ (slice? text span.pos span.stop).isSome := by
  constructor
  · rintro ⟨before, marked, behind, rfl, hpos, hlen⟩
    rw [Span.stop, hpos, hlen, slice?_append]
    rfl
  · intro hsome
    obtain ⟨part, hpart⟩ := Option.isSome_iff_exists.1 hsome
    obtain ⟨-, -, hcut⟩ := Option.bind_eq_some_iff.1 hpart
    obtain ⟨⟨before, rest⟩, hbefore, hcut⟩ := Option.bind_eq_some_iff.1 hcut
    obtain ⟨⟨marked, behind⟩, hmarked, -⟩ := Option.bind_eq_some_iff.1 hcut
    refine ⟨before, marked, behind, ?_, (byteSize_of_splitAt? hbefore).symm, ?_⟩
    · rw [append_of_splitAt? hmarked, append_of_splitAt? hbefore]
    · rw [byteSize_of_splitAt? hmarked]
      exact (Nat.add_sub_cancel_left _ _).symm

namespace Excerpt

variable {text : List Char} {span : Span} (e : Excerpt text span)

/-- The line on which the span begins. -/
def line : Line := lineAround e.before (e.marked ++ e.behind)

/-- The number of characters in front of the span on that line. -/
def column : Nat := (e.before.rtakeWhile (· ≠ '\n')).length

/-- The number of characters of the span that the line shows, but at least one. -/
def width : Nat := max (min e.marked.length (e.line.shown.length - e.column)) 1

/-- The span begins in what the line shows, or at the end of it. -/
def Visible : Prop := e.column ≤ e.line.shown.length

theorem line_text : e.line.text = text := (lineAround_text _ _).trans e.text_eq.symm

/-- The line table finds the line, and the bytes in front of the span on it. -/
theorem lineCol_eq {text : String} (e : Excerpt text.toList span) :
    (LineTable.scan text).lineCol span.pos =
      (e.line.number, byteSize (e.before.rtakeWhile (· ≠ '\n'))) := by
  have hpos : span.pos =
      byteSize e.line.above + byteSize (e.before.rtakeWhile (· ≠ '\n')) := by
    rw [e.pos, ← byteSize_append]
    exact congrArg byteSize (List.rdropWhile_append_rtakeWhile ..).symm
  rw [hpos]
  exact Line.lineCol_number e.line_text.symm rfl

/-- What the line shows goes on behind the place of the span with front parts of the span and the
text behind it. -/
theorem shown_eq {e : Excerpt text span} (h : e.Visible) : ∃ tail,
    e.line.shown = e.before.rtakeWhile (· ≠ '\n') ++ tail ∧ tail <+: e.marked ++ e.behind := by
  have hshown : e.line.shown <+:
      e.before.rtakeWhile (· ≠ '\n') ++ (e.marked ++ e.behind).takeWhile (· ≠ '\n') :=
    visible_prefix e.line.row
  obtain ⟨tail, htail⟩ := List.prefix_of_prefix_length_le (List.prefix_append _ _) hshown h
  rw [← htail, List.prefix_append_right_inj] at hshown
  exact ⟨tail, htail.symm, hshown.trans (List.takeWhile_prefix _)⟩

end Excerpt

end Text

end FrontEnd
