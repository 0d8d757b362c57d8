import FrontEnd.Proofs.Rendering.Messages
import FrontEnd.Proofs.LineRanges

/-!
# Carets stand under the span

Places in a text are counted in bytes, and columns of the rendered text in characters. A span that
begins in what its line shows is marked from the column on that it has there, over as many
characters as the line shows of it. In front of the carets and behind them there are blanks or
dashes, and perhaps the message.
-/

namespace FrontEnd

/-- The messages of a diagnostic, with the spans they point at. -/
def Diagnostic.points : Diagnostic → List (String × Span)
  | message _ text span => [(text, span)]
  | linked _ text span linkText link => [(text, span), (linkText, link)]
  | helped inner _ => inner.points

namespace Layout

variable {config : LayoutConfig} {sources : Sources}

/-- A row with `len` carets from the column `first` on, and no others but those of the message,
which may stand in the same row in front of the carets or behind them. -/
inductive Marks (message : List Char) (first len : Nat) : List Char → Prop
  | alone {front back : List Char} (hfirst : front.length = first) (hother : '^' ∉ front ++ back) :
    Marks message first len (front ++ List.replicate len '^' ++ back)
  | before {front between : List Char} (hfirst : (front ++ message ++ between).length = first)
    (hother : '^' ∉ front ++ between) :
    Marks message first len (front ++ message ++ between ++ List.replicate len '^')
  | behind {front between : List Char} (hfirst : front.length = first)
    (hother : '^' ∉ front ++ between) :
    Marks message first len (front ++ List.replicate len '^' ++ between ++ message)

/-- If the message has no carets, they stand in the columns of the span and nowhere else. -/
theorem Marks.caret_iff {message row : List Char} {first len : Nat}
    (h : Marks message first len row) (hmessage : '^' ∉ message) (i : Nat) :
    row[i]? = some '^' ↔ first ≤ i ∧ i < first + len := by
  have hrow {front back : List Char} (hfront : front.length = first)
    (hother : '^' ∉ front ++ back) :
      (front ++ (List.replicate len '^' ++ back))[i]? = some '^' ↔ first ≤ i ∧ i < first + len := by
    rw [List.mem_append, not_or] at hother
    rw [List.getElem?_append, List.getElem?_append, List.length_replicate, hfront]
    split
    · exact iff_of_false (fun hcaret => hother.1 (List.mem_of_getElem? hcaret)) (by omega)
    · split
      · rw [List.getElem?_replicate, if_pos (by omega)]
        exact iff_of_true rfl (by omega)
      · exact iff_of_false (fun hcaret => hother.2 (List.mem_of_getElem? hcaret)) (by omega)
  cases h with
  | alone hfirst hother =>
    rw [List.append_assoc]
    exact hrow hfirst hother
  | before hfirst hother =>
    have hnone := hrow hfirst (by simp_all : '^' ∉ _ ++ [])
    rwa [List.append_nil] at hnone
  | behind hfirst hother =>
    rw [List.append_assoc, List.append_assoc]
    exact hrow hfirst (by simp_all)

/-- What the layout finds out about a span: its column and its number of characters on the line. -/
theorem extent_eq {text : List Char} {span : Span} {e : Text.Excerpt text span} (h : e.Visible) :
    extent (String.ofList e.line.shown) (Text.byteSize (e.before.rtakeWhile (· ≠ '\n'))) span.len =
      (e.column, e.width) := by
  obtain ⟨tail, hshown, htail⟩ := Text.Excerpt.shown_eq h
  -- The part of the span on the line ends with the span or with the line.
  obtain ⟨part, rest, hsplit, hlength, hsize⟩ : ∃ part rest, tail = part ++ rest ∧
      part.length = min e.marked.length tail.length ∧
      Text.byteSize part = min span.len (Text.byteSize tail) := by
    rw [e.len]
    rcases List.prefix_or_prefix_of_prefix (List.prefix_append e.marked e.behind) htail with
      ⟨rest, hrest⟩ | ⟨rest, hrest⟩
    · refine ⟨e.marked, rest, hrest.symm, ?_, ?_⟩
      · rw [← hrest, List.length_append, Nat.min_eq_left (Nat.le_add_right _ _)]
      · rw [← hrest, Text.byteSize_append, Nat.min_eq_left (Nat.le_add_right _ _)]
    · refine ⟨tail, [], (List.append_nil _).symm, ?_, ?_⟩
      · rw [← hrest, List.length_append, Nat.min_eq_right (Nat.le_add_right _ _)]
      · rw [← hrest, Text.byteSize_append, Nat.min_eq_right (Nat.le_add_right _ _)]
  have hwidth : e.width = max part.length 1 := by
    have hbehind : e.line.shown.length - e.column = tail.length := by
      rw [hshown, List.length_append]
      exact Nat.add_sub_cancel_left _ _
    unfold Text.Excerpt.width
    rw [hlength, hbehind]
  generalize hleft : e.before.rtakeWhile (· ≠ '\n') = left at hshown
  have hcolumn : e.column = left.length := congrArg List.length hleft
  have hstop : min (Text.byteSize left + span.len) (String.ofList (left ++ tail)).utf8ByteSize =
      Text.byteSize left + Text.byteSize part := by
    rw [Text.utf8ByteSize_ofList, Text.byteSize_append, hsize]
    omega
  unfold extent
  rw [hshown, hwidth, hcolumn]
  dsimp only
  rw [hstop, String.toList_ofList, Text.splitAt?_append, hsplit, Text.slice?_append]
  rfl

/-- A dashed line with carets under the span. -/
theorem toList_pointerLine (width col len : Nat) : (pointerLine width col len).toList =
    List.replicate col '-' ++ List.replicate len '^' ++
      List.replicate (width - (col + len)) '-' := by
  have htotal : max width (col + len) = col + (len + (width - (col + len))) := by omega
  have hconst {n : Nat} {f : Nat → Char} {c : Char} (hf : ∀ i < n, f i = c) :
      (List.range n).map f = List.replicate n c := by
    rw [List.map_congr_left fun i hi => hf i (List.mem_range.1 hi), List.map_const',
      List.length_range]
  unfold pointerLine
  rw [String.toList_ofList, htotal, List.range_add, List.range_add, List.map_append,
    List.map_append, List.map_append, List.map_map, List.map_map, List.map_map, List.append_assoc]
  refine congr (congrArg _ (hconst fun i hi => if_neg (by omega)))
    (congr (congrArg _ (hconst fun i hi => if_pos ?_)) (hconst fun i hi => if_neg ?_))
  · dsimp only
    omega
  · dsimp only
    omega

/-- A message is shown below its source line with carets under the span. -/
theorem messageLines_marks {width col len : Nat} {message : String} (hbreak : '\n' ∉ message.toList)
    (hroom : col + len ≤ width) (indent : Nat) :
    ∃ first others, messageLines width col len message = first :: others ∧ '\n' ∉ first.toList ∧
      Marks message.toList (indent + col) len
        (List.replicate indent ' ' ++ first.toList.take width) := by
  have hconnector : connector.toList = ['-', '-', '-'] := rfl
  have hlength : message.toList.length = message.length := String.length_toList
  have hpointer (n : Nat) : '\n' ∉ (pointerLine n col len).toList ∧
      Marks message.toList (indent + col) len
        (List.replicate indent ' ' ++ (pointerLine n col len).toList.take width) := by
    rw [toList_pointerLine]
    refine ⟨by simp, ?_⟩
    rw [List.take_append, List.take_of_length_le (by simpa using hroom), List.take_replicate,
      ← List.append_assoc, ← List.append_assoc]
    exact .alone (by simp) (by simp)
  unfold messageLines
  dsimp only
  split
  · rename_i hbefore
    change message.length + 4 ≤ col at hbefore
    refine ⟨_, [], rfl, ?_, ?_⟩
    · simp [padLeft, toList_blanks, toList_carets, hconnector, hbreak]
    · have hrow : (padLeft (col - 3) message ++ connector ++ carets len).toList =
          List.replicate (col - 3 - message.length) ' ' ++ message.toList ++ ['-', '-', '-'] ++
            List.replicate len '^' := by
        simp [padLeft, toList_blanks, toList_carets, hconnector]
      rw [hrow, List.take_of_length_le (by simp; omega), ← List.append_assoc, ← List.append_assoc,
        ← List.append_assoc]
      exact .before (by simp; omega) (by simp)
  · split
    · rename_i hbehind
      change col + len < width ∧ message.length + 4 ≤ width - (col + len) at hbehind
      refine ⟨_, [], rfl, ?_, ?_⟩
      · simp [toList_blanks, toList_carets, hconnector, hbreak]
      · have hrow : (blanks col ++ carets len ++ connector ++ message).toList =
            List.replicate col ' ' ++ List.replicate len '^' ++ ['-', '-', '-'] ++
            message.toList := by
          simp [toList_blanks, toList_carets, hconnector]
        rw [hrow, List.take_of_length_le (by simp; omega), ← List.append_assoc, ← List.append_assoc,
          ← List.append_assoc]
        exact .behind (by simp) (by simp)
    · split
      · exact ⟨_, _, rfl, hpointer width⟩
      · exact ⟨_, _, rfl, hpointer message.length⟩

/-- No line feed stands in front of a source line. -/
theorem unbroken_number (indent number : Nat) :
    '\n' ∉ (padLeft indent (toString number) ++ " | ").toList := by
  have hdigits : '\n' ∉ Nat.toDigits 10 number := fun hmem =>
    absurd (Nat.isDigit_of_mem_toDigits (by decide) (by decide) hmem) (by decide)
  simp [padLeft, toList_blanks, hdigits]

/-- A message is shown by the source line its span begins on and a row with carets below, before all
that is shown of the message on lines of its own. -/
theorem rows_pointRows {message : String} {span : Span} {file : SourceFile}
    (hfile : sources.get? span.file = some file) (hlines : file.lines = .scan file.text)
    (hbreak : '\n' ∉ message.toList) {e : Text.Excerpt file.text.toList span} (hvisible : e.Visible)
    (hroom : e.column + e.width ≤ config.wrapLen - gutter sources span.file) :
    ∃ number pointer below, (pointRows config sources message span).flatMap rows =
        (number ++ e.line.shown.take (config.wrapLen - gutter sources span.file)) ::
        pointer :: below ∧
      number.length = gutter sources span.file ∧
      Marks message.toList (gutter sources span.file + e.column) e.width pointer := by
  have hnumber := length_number hfile span.pos
  have hline := Text.Line.text?_number e.line_text.symm
  rw [hlines, e.lineCol_eq] at hnumber
  have hshown : '\n' ∉ e.line.shown := fun hmem =>
    e.line.unbroken ((Text.visible_prefix e.line.row).subset hmem)
  obtain ⟨first, others, hmessage, hfirst, hmarks⟩ :=
    messageLines_marks hbreak hroom (gutter sources span.file)
  generalize hwidth : config.wrapLen - gutter sources span.file = width at *
  have hsource : rows (padLeft (gutter sources span.file - 3) (toString e.line.number) ++ " | " ++
      clip (String.ofList e.line.shown) width) =
        [(padLeft (gutter sources span.file - 3) (toString e.line.number) ++ " | ").toList ++
          e.line.shown.take width] := by
    have hcut : (clip (String.ofList e.line.shown) width).toList = e.line.shown.take width := by
      unfold clip
      rw [String.toList_ofList, String.toList_ofList]
    rw [rows_single, String.toList_append, hcut]
    rw [String.toList_append, hcut, List.mem_append, not_or]
    exact ⟨unbroken_number _ _, fun hmem => hshown (List.mem_of_mem_take hmem)⟩
  refine ⟨_, _, (others.map (blanks (gutter sources span.file) ++ clip · width)).flatMap rows, ?_,
    String.length_toList.trans hnumber, hmarks⟩
  unfold pointRows
  dsimp only
  rw [hfile]
  dsimp only
  rw [hlines, e.lineCol_eq, hwidth]
  dsimp only
  rw [hline, Option.getD_some, extent_eq hvisible]
  dsimp only
  rw [hmessage, List.flatMap_cons, List.map_cons, List.flatMap_cons, hsource,
    rows_indented hfirst]
  rfl

/-- The rows of each of its messages are among those of a diagnostic. -/
theorem bodyRows_points {d : Diagnostic} {message : String} {span : Span}
    (h : (message, span) ∈ d.points) : ∃ above below,
    bodyRows config sources d = above ++ (pointRows config sources message span ++ below) := by
  induction d with
  | message severity text span' =>
    cases List.mem_singleton.1 h
    exact ⟨[], [], (List.append_nil _).symm⟩
  | linked severity text span' linkText link =>
    rcases List.mem_cons.1 h with hfirst | hsecond
    · cases hfirst
      exact ⟨[], _, rfl⟩
    · cases List.mem_singleton.1 hsecond
      exact ⟨pointRows config sources text span', [], (congrArg _ (List.append_nil _)).symm⟩
  | helped inner help ih =>
    obtain ⟨above, below, hrows⟩ := ih h
    refine ⟨above, below ++ helpRows config help, ?_⟩
    rw [bodyRows, hrows, List.append_assoc, List.append_assoc]

/-- The rows of each diagnostic are among those of the rendered text. -/
theorem render_bodyRows (plain : config.color = false) {ds : List Diagnostic} {d : Diagnostic}
    (h : d ∈ ds) : ∃ above below, rows (render config sources ds) =
      above ++ ((bodyRows config sources d).flatMap rows ++ below) := by
  obtain ⟨before, after, rfl⟩ := List.append_of_mem h
  obtain ⟨line, hheader⟩ := header_eq config sources d
  have hrender : render config sources (before ++ d :: after) =
      render config sources before ++ line ++ "\n" ++
        (stack (bodyRows config sources d) ++ ("\n" ++ render config sources after)) := by
    unfold render
    rw [List.map_append, String.join_append, List.map_cons, String.join_cons, hheader,
      body_eq plain]
    simp only [String.append_assoc]
  rw [hrender, rows_line, rows_stack]
  exact ⟨_, _, rfl⟩

/-- **Carets stand under the span.** Take any diagnostics, laid out without colours, and any message
without line breaks that one of them shows, with a span in a registered file, whose line table is
that of its text. If the span has its ends between characters and begins in what its line shows, or
at the end of it, and if its part of the line ends within the width, then the rendered text has two
lines one after the other: the source line, which begins behind the gutter, and a line with carets
exactly under the span, apart from those of the message itself. -/
theorem render_points (config : LayoutConfig) (sources : Sources) (plain : config.color = false)
    {ds : List Diagnostic} {d : Diagnostic} (hd : d ∈ ds) {message : String} {span : Span}
    (hpoint : (message, span) ∈ d.points) (hbreak : '\n' ∉ message.toList) {file : SourceFile}
    (hfile : sources.get? span.file = some file) (hlines : file.lines = .scan file.text)
    (e : Text.Excerpt file.text.toList span) (hvisible : e.Visible)
    (hroom : e.column + e.width ≤ config.wrapLen - gutter sources span.file) :
    ∃ above number pointer below, rows (render config sources ds) = above ++
        (number ++ e.line.shown.take (config.wrapLen - gutter sources span.file)) ::
        pointer :: below ∧
      number.length = gutter sources span.file ∧
      Marks message.toList (gutter sources span.file + e.column) e.width pointer := by
  obtain ⟨above, below, hrender⟩ := render_bodyRows plain hd
  obtain ⟨inner, inner', hbody⟩ := bodyRows_points hpoint
  obtain ⟨number, pointer, rest, hrows, hnumber, hmarks⟩ :=
    rows_pointRows hfile hlines hbreak hvisible hroom
  refine ⟨above ++ inner.flatMap rows, number, pointer, rest ++ (inner'.flatMap rows ++ below), ?_,
    hnumber, hmarks⟩
  rw [hrender, hbody, List.flatMap_append, List.flatMap_append, hrows]
  simp only [List.append_assoc, List.cons_append]

/-- A span behind characters of two bytes that goes on to the next line, with a message that has a
caret itself and fits in front of the span. -/
theorem render_points_two_lines :
    let file : SourceFile := ⟨"main.jc", "val é = ü\r\nfoo", .scan "val é = ü\r\nfoo"⟩
    let span : Span := ⟨9, 5, ⟨0⟩⟩
    let d := (Diagnostic.error "bad^" span).withHelp "none"
    ∃ e : Text.Excerpt file.text.toList span,
      e.line.shown = "val é = ü".toList ∧ e.column = 8 ∧ e.width = 1 ∧ e.Visible ∧
      ∃ above number pointer below, rows (render ⟨40, false⟩ ⟨[file]⟩ [d]) = above ++
          (number ++ e.line.shown.take (40 - gutter ⟨[file]⟩ ⟨0⟩)) :: pointer :: below ∧
        number.length = gutter ⟨[file]⟩ ⟨0⟩ ∧
        Marks "bad^".toList (gutter ⟨[file]⟩ ⟨0⟩ + e.column) e.width pointer := by
  intro file span d
  let e : Text.Excerpt file.text.toList span :=
    ⟨"val é = ".toList, "ü\r\nf".toList, "oo".toList, by decide +kernel, rfl, rfl⟩
  have hshown : e.line.shown = "val é = ü".toList := by decide
  have hvisible : e.Visible := by unfold Text.Excerpt.Visible; decide
  refine ⟨e, hshown, rfl, rfl, hvisible, ?_⟩
  exact render_points ⟨40, false⟩ ⟨[file]⟩ rfl List.mem_cons_self List.mem_cons_self
    (by decide) rfl rfl e hvisible (by decide)

end Layout

end FrontEnd
