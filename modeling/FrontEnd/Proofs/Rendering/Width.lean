import FrontEnd.Proofs.Rendering.Rows

/-!
# How wide rendered lines are

Source lines and messages are cut where the width ends, the gutter included. Help is wrapped with
its label in mind, but without the blanks in front of the label: a line of help may be too long, by
four characters at most. Main statement: the lines below a header fit exactly if the lines of help
do.
-/

namespace FrontEnd

/-- All helps of a diagnostic, the innermost first. -/
def Diagnostic.helps : Diagnostic → List String
  | helped inner help => inner.helps ++ [help]
  | _ => []

namespace Layout

variable {config : LayoutConfig} {sources : Sources}

/-- The rows that show a message below the source line it points at. -/
def pointRows (config : LayoutConfig) (sources : Sources) (message : String) (span : Span) :
    List String :=
  let indent := gutter sources span.file
  let width := config.wrapLen - indent
  match sources.get? span.file with
  | none => [blanks indent ++ clip message width]
  | some file =>
    let (number, byteCol) := file.lines.lineCol span.pos
    let line := (file.lines.text? file.text number).getD ""
    let (col, len) := extent line byteCol span.len
    (padLeft (indent - 3) (toString number) ++ " | " ++ clip line width) ::
      (messageLines width col len message).map (blanks indent ++ clip · width)

/-- The rows of help. -/
def helpRows (config : LayoutConfig) (text : String) : List String :=
  match lines (hardWrap text (config.wrapLen - helpLabel.length)) with
  | [] => []
  | first :: rest => (blanks helpIndent ++ helpLabel ++ first) ::
      rest.map (blanks helpIndent ++ blanks helpLabel.length ++ ·)

/-- The rows below the header of a diagnostic. -/
def bodyRows (config : LayoutConfig) (sources : Sources) : Diagnostic → List String
  | .message _ text span => pointRows config sources text span
  | .linked _ text span linkText link =>
    pointRows config sources text span ++ pointRows config sources linkText link
  | .helped inner text => bodyRows config sources inner ++ helpRows config text

theorem stack_single (s : String) : stack [s] = s ++ "\n" := by
  rw [stack_cons]
  exact String.append_empty

theorem stack_append (texts texts' : List String) :
    stack (texts ++ texts') = stack texts ++ stack texts' := by
  unfold stack
  rw [List.map_append, String.join_append]

/-- Without colours a source line is a row. -/
theorem sourceLine_eq (plain : config.color = false) (number indent width : Nat) (line : String) :
    sourceLine config number indent width line =
      padLeft (indent - 3) (toString number) ++ " | " ++ clip line width ++ "\n" := by
  have hbar : " " ++ "|" ++ " " = " | " := rfl
  unfold sourceLine
  rw [plain, ← hbar]
  simp only [Style.paint, Bool.false_eq_true, if_false, String.append_assoc]

theorem point_eq (plain : config.color = false) (message : String) (span : Span) :
    point config sources message span = stack (pointRows config sources message span) := by
  unfold point pointRows
  dsimp only
  cases sources.get? span.file with
  | none => exact (stack_single _).symm
  | some file =>
    dsimp only
    rw [sourceLine_eq plain, stack_cons]
    unfold stack
    rw [List.map_map]
    rfl

theorem help_eq (plain : config.color = false) (text : String) :
    help config text = stack (helpRows config text) := by
  unfold help helpRows
  dsimp only
  rw [plain]
  cases lines (hardWrap text (config.wrapLen - helpLabel.length)) with
  | nil => rfl
  | cons first rest =>
    dsimp only
    rw [stack_cons]
    unfold stack
    rw [List.map_map]
    rfl

/-- What stands below a header is made of rows. -/
theorem body_eq (plain : config.color = false) (d : Diagnostic) :
    body config sources d = stack (bodyRows config sources d) := by
  induction d with
  | message severity text span => exact point_eq plain text span
  | linked severity text span linkText link =>
    rw [body, bodyRows, stack_append, point_eq plain, point_eq plain]
  | helped inner text ih => rw [body, bodyRows, stack_append, ih, help_eq plain]

/-- The gutter leaves some width, if line numbers have 32 bits. -/
theorem gutter_le {file : FileId} (h : sources.lineCount file < 2 ^ 32) :
    gutter sources file ≤ 13 := by
  have hdigits : (toString (max (sources.lineCount file) 1)).length ≤ 10 :=
    (Nat.length_repr_le_iff (by decide)).2 (by omega)
  unfold gutter
  omega

/-- A line has no larger number than the last one. -/
theorem lineCol_le (t : LineTable) (offset : Nat) : (t.lineCol offset).1 ≤ t.count :=
  Nat.succ_le_succ (List.takeWhile_sublist _).length_le

/-- Line numbers and the bar behind them are as wide as the gutter. -/
theorem length_number {id : FileId} {file : SourceFile} (hfile : sources.get? id = some file)
    (offset : Nat) :
    (padLeft (gutter sources id - 3) (toString (file.lines.lineCol offset).1) ++ " | ").length =
      gutter sources id := by
  have hcount : sources.lineCount id = file.lines.count := by
    unfold Sources.lineCount
    rw [hfile]
    rfl
  have hnumber : (toString (file.lines.lineCol offset).1).length + 3 ≤ gutter sources id := by
    have hle := lineCol_le file.lines offset
    exact Nat.add_le_add_right (length_toString_le (by omega)) 3
  rw [String.length_append, length_padLeft]
  change max _ _ + 3 = _
  omega

/-- Source lines and messages end within the width. -/
theorem length_of_pointRows (hwrap : 13 ≤ config.wrapLen)
    (hlines : ∀ file, sources.lineCount file < 2 ^ 32) {message : String} {span : Span}
    {row : String}
    (h : row ∈ pointRows config sources message span) : row.length ≤ config.wrapLen := by
  have hgutter := gutter_le (hlines span.file)
  have hshort (text : String) : (blanks (gutter sources span.file) ++
      clip text (config.wrapLen - gutter sources span.file)).length ≤ config.wrapLen := by
    have hclip := length_clip_le text (config.wrapLen - gutter sources span.file)
    rw [String.length_append, length_blanks]
    omega
  unfold pointRows at h
  dsimp only at h
  cases hfile : sources.get? span.file with
  | none =>
    rw [hfile] at h
    obtain rfl := List.mem_singleton.1 h
    exact hshort message
  | some file =>
    rw [hfile] at h
    rcases List.mem_cons.1 h with rfl | h
    · have hclip := length_clip_le
        ((file.lines.text? file.text (file.lines.lineCol span.pos).1).getD "")
        (config.wrapLen - gutter sources span.file)
      rw [String.length_append, length_number hfile]
      omega
    · obtain ⟨text, -, rfl⟩ := List.mem_map.1 h
      exact hshort text

/-- Ten characters stand in front of each line of help. -/
theorem fits_helpRows (text : String) (n : Nat) :
    (∀ s ∈ helpRows config text, ∀ row ∈ rows s, row.length ≤ n) ↔
      ∀ line ∈ lines (hardWrap text (config.wrapLen - 6)), line.length + 10 ≤ n := by
  have hrow {front line : String} (hfront : front.length = 10 ∧ '\n' ∉ front.toList)
      (hline : '\n' ∉ line.toList) :
      (∀ row ∈ rows (front ++ line), row.length ≤ n) ↔ line.length + 10 ≤ n := by
    have hwhole : '\n' ∉ (front ++ line).toList := by
      rw [String.toList_append, List.mem_append, not_or]
      exact ⟨hfront.2, hline⟩
    rw [rows_single hwhole, List.forall_mem_singleton, String.length_toList, String.length_append,
      hfront.1, Nat.add_comm]
  have hlabel : (blanks helpIndent ++ helpLabel).length = 10 ∧
      '\n' ∉ (blanks helpIndent ++ helpLabel).toList := by decide
  have hblanks : (blanks helpIndent ++ blanks helpLabel.length).length = 10 ∧
      '\n' ∉ (blanks helpIndent ++ blanks helpLabel.length).toList := by decide
  have hunbroken : ∀ line ∈ lines (hardWrap text (config.wrapLen - 6)), '\n' ∉ line.toList := by
    intro line hline
    obtain ⟨l, hl, rfl⟩ := List.mem_map.1 hline
    rw [String.toList_ofList]
    exact Text.unbroken_of_lines hl
  unfold helpRows
  rw [show config.wrapLen - helpLabel.length = config.wrapLen - 6 from rfl]
  cases hlines : lines (hardWrap text (config.wrapLen - 6)) with
  | nil => exact ⟨fun _ => List.forall_mem_nil _, fun _ => List.forall_mem_nil _⟩
  | cons first others =>
    rw [hlines] at hunbroken
    obtain ⟨hfirst, hothers⟩ := List.forall_mem_cons.1 hunbroken
    rw [List.forall_mem_cons, List.forall_mem_cons, List.forall_mem_map, hrow hlabel hfirst]
    exact and_congr_right fun _ => forall₂_congr fun line hline => hrow hblanks (hothers line hline)

/-- Whether everything below a header fits is up to help. -/
theorem fits_bodyRows (hwrap : 13 ≤ config.wrapLen)
    (hlines : ∀ file, sources.lineCount file < 2 ^ 32)
    {n : Nat} (hn : config.wrapLen ≤ n) (d : Diagnostic) :
    (∀ s ∈ bodyRows config sources d, ∀ row ∈ rows s, row.length ≤ n) ↔ ∀ text ∈ d.helps,
      ∀ line ∈ lines (hardWrap text (config.wrapLen - 6)), line.length + 10 ≤ n := by
  have hpoint (text : String) (span : Span) :
      ∀ s ∈ pointRows config sources text span, ∀ row ∈ rows s, row.length ≤ n :=
    fun s hs row hrow => Nat.le_trans (length_of_rows hrow)
      (Nat.le_trans (length_of_pointRows hwrap hlines hs) hn)
  induction d with
  | message severity text span => exact iff_of_true (hpoint text span) (List.forall_mem_nil _)
  | linked severity text span linkText link =>
    exact iff_of_true (List.forall_mem_append.2 ⟨hpoint text span, hpoint linkText link⟩)
      (List.forall_mem_nil _)
  | helped inner text ih =>
    unfold bodyRows Diagnostic.helps
    rw [List.forall_mem_append, List.forall_mem_append, List.forall_mem_singleton]
    exact and_congr ih (fits_helpRows text n)

/-- **Rendered lines fit.** Below the header of a diagnostic, laid out without colours, no line is
more than four characters longer than the width, the gutter included, and all lines fit exactly if
the lines that help is wrapped to leave room for the ten characters in front of them. Without help
they always fit. -/
theorem render_fits (config : LayoutConfig) (sources : Sources) (plain : config.color = false)
    (hwrap : 40 ≤ config.wrapLen) (hlines : ∀ file, sources.lineCount file < 2 ^ 32)
    (d : Diagnostic) : ∃ below, render config sources [d] = header config sources d ++ below ∧
      (∀ row ∈ rows below, row.length ≤ config.wrapLen + 4) ∧
      ((∀ row ∈ rows below, row.length ≤ config.wrapLen) ↔ ∀ text ∈ d.helps,
        ∀ line ∈ lines (hardWrap text (config.wrapLen - 6)),
        line.length + 10 ≤ config.wrapLen) := by
  have hbelow (n : Nat) (hn : config.wrapLen ≤ n) :
      (∀ row ∈ rows (body config sources d ++ "\n"), row.length ≤ n) ↔ ∀ text ∈ d.helps,
        ∀ line ∈ lines (hardWrap text (config.wrapLen - 6)), line.length + 10 ≤ n := by
    have hend : ∀ row ∈ rows "\n", row.length ≤ n := by
      rw [show rows "\n" = [[], []] by decide]
      simp
    rw [body_eq plain, rows_stack, List.forall_mem_append, List.forall_mem_flatMap,
      fits_bodyRows (by omega) hlines hn]
    exact and_iff_left hend
  refine ⟨body config sources d ++ "\n", ?_, ?_, hbelow _ (Nat.le_refl _)⟩
  · unfold render
    rw [List.map_singleton, String.join_cons, ← String.append_assoc]
    exact String.append_empty
  · refine (hbelow _ (Nat.le_add_right _ _)).2 fun text _ line hline => ?_
    have hlength := length_of_lines_hardWrap (by omega) hline
    omega

/-- Help that fits below a message that is cut. -/
theorem render_fits_short : ∃ config sources d below, config = ⟨40, false⟩ ∧
    sources = Sources.single "main.jc" "val x = foo" .single ∧
    d = (Diagnostic.error "a message with more than thirty-six characters" ⟨8, 3, ⟨0⟩⟩).withHelp
      "thirty characters and no more!" ∧
    render config sources [d] = header config sources d ++ below ∧
      ∀ row ∈ rows below, row.length ≤ 40 := by
  let sources := Sources.single "main.jc" "val x = foo" .single
  let d := (Diagnostic.error "a message with more than thirty-six characters" ⟨8, 3, ⟨0⟩⟩).withHelp
    "thirty characters and no more!"
  have hlines : ∀ file, sources.lineCount file < 2 ^ 32 := by
    rintro ⟨_ | index⟩
    · decide
    · exact Nat.two_pow_pos 32
  obtain ⟨below, hrender, -, hfits⟩ := render_fits ⟨40, false⟩ sources rfl (Nat.le_refl 40) hlines d
  refine ⟨⟨40, false⟩, sources, d, below, rfl, rfl, rfl, hrender, hfits.2 ?_⟩
  decide +kernel

/-- Help of thirty-one characters does not fit in forty. -/
theorem render_overflows : ∃ below, render ⟨40, false⟩ (.single "main.jc" "val x = foo" .single)
      [(Diagnostic.error "bad" ⟨8, 3, ⟨0⟩⟩).withHelp "thirty-one characters, no fewer"] =
    header ⟨40, false⟩ (.single "main.jc" "val x = foo" .single)
      ((Diagnostic.error "bad" ⟨8, 3, ⟨0⟩⟩).withHelp "thirty-one characters, no fewer") ++ below ∧
    ∃ row ∈ rows below, 40 < row.length :=
  ⟨"1 | val x = foo\n      bad---^^^\n    help: thirty-one characters, no fewer\n\n",
    by decide +kernel, by decide +kernel⟩

end Layout

end FrontEnd
