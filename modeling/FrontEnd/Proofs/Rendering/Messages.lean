import FrontEnd.Proofs.Rendering.Width

/-!
# Messages are shown as a whole

A message stands in front of the carets, behind them, or on lines of its own. Behind the carets it
is put only where the width has room for it, and on lines of its own it is wrapped. In front of the
carets the width is not asked for: a message that ends behind it is cut. Main statement: every other
message is shown as a whole.
-/

namespace FrontEnd

namespace Layout

variable {config : LayoutConfig} {sources : Sources}

/-- The column at which carets mark a span. -/
def column (file : SourceFile) (span : Span) : Nat :=
  let (number, byteCol) := file.lines.lineCol span.pos
  (extent ((file.lines.text? file.text number).getD "") byteCol span.len).1

/-- Some lines show a message: one that it is part of, or those it is cut into, behind a gutter. -/
inductive ShownBy (indent : Nat) (message : String) : List (List Char) → Prop
  | within {row : List Char} (h : message.toList <:+: row) : ShownBy indent message [row]
  | cut {pieces : List (List Char)} (h : pieces.flatten = message.toList) :
    ShownBy indent message (pieces.map (List.replicate indent ' ' ++ ·))

/-- A message is shown by lines of a text that follow each other. -/
def Shows (indent : Nat) (message text : String) : Prop :=
  ∃ above shown below, rows text = above ++ shown ++ below ∧ ShownBy indent message shown

/-- A text shows no message with characters it does not have. -/
theorem Shows.subset {indent : Nat} {message text : String} (h : Shows indent message text) :
    ∀ c ∈ message.toList, c ∈ text.toList := by
  obtain ⟨above, shown, below, hrows, hshown⟩ := h
  have hmem {row : List Char} (hrow : row ∈ shown) {c : Char} (hc : c ∈ row) : c ∈ text.toList := by
    refine (sublist_of_rows ?_).subset hc
    rw [hrows]
    exact List.mem_append_left below (List.mem_append_right above hrow)
  intro c hc
  cases hshown with
  | within hpart => exact hmem List.mem_cons_self (hpart.subset hc)
  | cut hpieces =>
    rw [← hpieces] at hc
    obtain ⟨piece, hpiece, hc⟩ := List.mem_flatten.1 hc
    exact hmem (List.mem_map_of_mem hpiece) (List.mem_append_right _ hc)

theorem toList_carets (n : Nat) : (carets n).toList = List.replicate n '^' := by
  unfold carets
  rw [String.pushn_eq_repeat_push]
  induction n with
  | zero => rfl
  | succ n ih => rw [Nat.repeat, String.toList_push, ih, List.replicate_succ']

theorem length_carets (n : Nat) : (carets n).length = n := by
  rw [← String.length_toList, toList_carets, List.length_replicate]

/-- A row behind the gutter is a line. -/
theorem rows_indented {text : String} (h : '\n' ∉ text.toList) (indent width : Nat) :
    rows (blanks indent ++ clip text width) =
      [List.replicate indent ' ' ++ text.toList.take width] := by
  have hcut : (blanks indent ++ clip text width).toList =
      List.replicate indent ' ' ++ text.toList.take width := by
    unfold clip
    rw [String.toList_append, toList_blanks, String.toList_ofList]
  rw [← hcut]
  refine rows_single ?_
  rw [hcut, List.mem_append, not_or]
  exact ⟨by simp, fun hmem => h (List.mem_of_mem_take hmem)⟩

/-- What ends within the width is not cut off. -/
theorem infix_take {front cs back : List Char} {width : Nat}
    (h : front.length + cs.length ≤ width) : cs <:+: (front ++ cs ++ back).take width := by
  have hlength : (front ++ cs).length ≤ width := by rwa [List.length_append]
  rw [List.take_append, List.take_of_length_le hlength]
  exact ⟨front, back.take (width - (front ++ cs).length), rfl⟩

/-- A row that a message is part of shows it, if the message ends within the width. -/
theorem shownBy_row {indent width : Nat} {message text : String} (front back : String)
    (htext : text = front ++ message ++ back) (hunbroken : '\n' ∉ text.toList)
    (h : front.length + message.length ≤ width) :
    ShownBy indent message (rows (blanks indent ++ clip text width)) := by
  rw [rows_indented hunbroken, htext, String.toList_append, String.toList_append]
  exact .within ((infix_take h).trans (List.suffix_append _ _).isInfix)

/-- A text without line breaks is shown by its lines, if they end within the width. -/
theorem shownBy_lines {indent width : Nat} {message text : String}
    (hwhole : (Text.lines text.toList).flatten = message.toList)
    (h : ∀ l ∈ Text.lines text.toList, l.length ≤ width) :
    ShownBy indent message (((lines text).map (blanks indent ++ clip · width)).flatMap rows) := by
  have hrow : ∀ l ∈ Text.lines text.toList,
      rows (blanks indent ++ clip (String.ofList l) width) = [List.replicate indent ' ' ++ l] := by
    intro l hl
    rw [rows_indented (by rw [String.toList_ofList]; exact Text.unbroken_of_lines hl),
      String.toList_ofList, List.take_of_length_le (h l hl)]
  have hrows : ((lines text).map (blanks indent ++ clip · width)).flatMap rows =
      (Text.lines text.toList).map (List.replicate indent ' ' ++ ·) := by
    unfold lines
    rw [List.map_map, List.flatMap_map, List.map_eq_flatMap, List.flatMap_def, List.flatMap_def]
    exact congrArg List.flatten (List.map_congr_left hrow)
  rw [hrows]
  exact .cut hwhole

/-- A message below its source line is shown, unless it is put in front of the carets and ends
behind the width. -/
theorem messageLines_show {width col : Nat} (len indent : Nat) {message : String}
    (hwidth : 0 < width) (hfeed : '\n' ∉ message.toList) (hreturn : '\r' ∉ message.toList)
    (hplace : message.length + 4 ≤ col → col ≤ width + 3) :
    ∃ above shown, ((messageLines width col len message).map
      (blanks indent ++ clip · width)).flatMap rows = above ++ shown ∧
        ShownBy indent message shown := by
  have hconnector : '\n' ∉ connector.toList := by decide
  unfold messageLines
  dsimp only
  by_cases hbefore : message.length + 4 ≤ col
  · rw [if_pos (show message.length + connectorLen ≤ col from hbefore), List.map_singleton,
      List.flatMap_singleton]
    have hcol := hplace hbefore
    refine ⟨[], _, rfl, shownBy_row (blanks (col - 3 - message.length)) (connector ++ carets len)
      String.append_assoc ?_ (by rw [length_blanks]; omega)⟩
    simp [padLeft, toList_blanks, toList_carets, hfeed, hconnector]
  · rw [if_neg (show ¬message.length + connectorLen ≤ col from hbefore)]
    by_cases hbehind : col + len < width ∧ message.length + 4 ≤ width - (col + len)
    · rw [if_pos (show _ ∧ message.length + connectorLen ≤ _ from hbehind), List.map_singleton,
        List.flatMap_singleton]
      refine ⟨[], _, rfl, shownBy_row (blanks col ++ carets len ++ connector) ""
        String.append_empty.symm ?_ ?_⟩
      · simp [toList_blanks, toList_carets, hfeed, hconnector]
      · have hroom := hbehind.2
        rw [String.length_append, String.length_append, length_blanks, length_carets,
          show connector.length = 3 from rfl]
        omega
    · rw [if_neg (show ¬(_ ∧ message.length + connectorLen ≤ _) from hbehind)]
      have hwhole : (Text.lines message.toList).flatten = message.toList := by
        rw [Text.flatten_lines hreturn]
        refine List.filter_eq_self.2 fun c hc => ?_
        simpa using fun h : c = '\n' => hfeed (h ▸ hc)
      split
      · refine ⟨_, _, List.flatMap_cons,
          shownBy_lines (flatten_lines_hardWrap hfeed hreturn width) fun l hl => ?_⟩
        rw [← String.length_ofList]
        exact length_of_lines_hardWrap hwidth (List.mem_map_of_mem hl)
      · rename_i hshort
        refine ⟨_, _, List.flatMap_cons, shownBy_lines hwhole fun l hl => ?_⟩
        have hle := (List.sublist_flatten_of_mem hl).length_le
        rw [hwhole, String.length_toList] at hle
        omega

/-- A header ends with a line feed. -/
theorem header_eq (config : LayoutConfig) (sources : Sources) (d : Diagnostic) :
    ∃ line, header config sources d = line ++ "\n" := by
  unfold header
  dsimp only
  split
  · exact ⟨_, rfl⟩
  · exact ⟨(severityStyle d.severity).paint config.color d.severity.label ++ ":",
      String.append_assoc.symm ▸ rfl⟩

/-- **The message is never lost.** An error in a registered file, laid out without colours, shows
the whole message: inside one line, or cut into lines behind the gutter. Left out are messages that
fit in front of the carets but would end behind the width. -/
theorem render_shows (config : LayoutConfig) (sources : Sources) {file : SourceFile}
    (message : String) (span : Span) (plain : config.color = false) (hwrap : 40 ≤ config.wrapLen)
    (hfile : sources.get? span.file = some file) (hlines : sources.lineCount span.file < 2 ^ 32)
    (hfeed : '\n' ∉ message.toList) (hreturn : '\r' ∉ message.toList)
    (hplace : message.length + 4 ≤ column file span →
      gutter sources span.file + column file span ≤ config.wrapLen + 3) :
    Shows (gutter sources span.file) message
      (render config sources [.error message span]) := by
  have hgutter := gutter_le hlines
  obtain ⟨line, hheader⟩ := header_eq config sources (.error message span)
  have hrender : render config sources [.error message span] =
      line ++ "\n" ++ (stack (pointRows config sources message span) ++ "\n") := by
    unfold render
    rw [List.map_singleton, String.join_cons, hheader, ← String.append_assoc, ← point_eq plain]
    exact String.append_empty
  unfold Shows
  rw [hrender, rows_line, rows_stack]
  unfold pointRows
  dsimp only
  rw [hfile]
  obtain ⟨above, shown, hrows, hshown⟩ := messageLines_show
    (extent ((file.lines.text? file.text (file.lines.lineCol span.pos).1).getD "")
      (file.lines.lineCol span.pos).2 span.len).2
    (gutter sources span.file) (by omega : 0 < config.wrapLen - gutter sources span.file)
    hfeed hreturn (by omega : message.length + 4 ≤ column file span →
      column file span ≤ config.wrapLen - gutter sources span.file + 3)
  unfold column at hrows
  dsimp only at hrows ⊢
  rw [List.flatMap_cons, hrows, ← List.append_assoc, ← List.append_assoc, ← List.append_assoc]
  exact ⟨_, shown, rows "\n", rfl, hshown⟩

/-- A message that is cut into lines. -/
theorem render_shows_wrapped :
    column ⟨"main.jc", "val x = foo", .single⟩ ⟨8, 3, ⟨0⟩⟩ <
        "a message with more than thirty-six characters".length + 4 ∧
      Shows (gutter (.single "main.jc" "val x = foo" .single) ⟨0⟩)
        "a message with more than thirty-six characters"
        (render ⟨40, false⟩ (.single "main.jc" "val x = foo" .single)
          [.error "a message with more than thirty-six characters" ⟨8, 3, ⟨0⟩⟩]) := by
  have hlong : column ⟨"main.jc", "val x = foo", .single⟩ ⟨8, 3, ⟨0⟩⟩ <
      "a message with more than thirty-six characters".length + 4 := by decide +kernel
  have hfile : (Sources.single "main.jc" "val x = foo" .single).get? ⟨0⟩ =
      some ⟨"main.jc", "val x = foo", .single⟩ := rfl
  refine ⟨hlong, render_shows ⟨40, false⟩ _ _ ⟨8, 3, ⟨0⟩⟩ rfl (Nat.le_refl 40) hfile ?_ ?_ ?_ ?_⟩
  · decide
  · decide +kernel
  · decide +kernel
  · exact fun h => absurd h (Nat.not_le_of_lt hlong)

/-- A message in front of carets behind the width is lost. -/
theorem render_hides : ¬Shows 4 "bad" (render ⟨40, false⟩
    (.single "main.jc" "call(one, one, one, one, one, one, one, one, one, one, one, foo)" .single)
    [.error "bad" ⟨60, 3, ⟨0⟩⟩]) := by
  intro h
  exact absurd (h.subset 'd' (by decide)) (by decide +kernel)

end Layout

end FrontEnd
