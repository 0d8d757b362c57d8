import FrontEnd.Proofs.Bodies.Arms

/-!
# Texts of choices

The text of a choice is put together from its lines. What is written of it gives it back, but where
an expression goes on with the `else` of the next line.
-/

namespace FrontEnd

namespace Parse

/-- A name in front of a brace that starts a body is read as that name. -/
theorem headExpr_name {t : ParserState} {x y : Token} {rest : List Token} {n : Nat}
    (sound : t.Sound)
    (hrest : t.rest = x :: y :: rest) (hgroups : t.groups = []) (hhalf : t.halfShift = false)
    (hcount : t.errorCount = 0) (hx : x.kind = .ident "x") (hy : y.kind = .symbol .lBrace)
    (hn : 3 ≤ n) : ∃ e z t', headExpr (grammar n) t = .ok e t' ∧
      Likeness.bare.Alike (.expr default (.name ⟨"x", default⟩ .empty) : Expr) e ∧
      t'.rest = z :: rest ∧ z.kind = .symbol .lBrace ∧ t'.final.kind = .eof ∧ t'.groups = [] ∧
      t'.allowsBrace = t.allowsBrace ∧ t'.halfShift = false ∧ t'.errorCount = 0 := by
  let s : ParserState := { ParserState.start ⟨0⟩
    [⟨.ident "x", default⟩, ⟨.symbol .lBrace, default⟩, ⟨.eof, default⟩] with allowsBrace := false }
  let K : Simulation := .cutting .bare [] rfl t.warnings
    (⟨by simp, rfl, by simp⟩ : (TokenKind.symbol .lBrace).Bounds) rest
  obtain ⟨e, s', hrun, he, hleft, hkept⟩ : ∃ e s', grammar 3 .expr s = .ok e s' ∧
      Likeness.bare.Alike (.expr default (.name ⟨"x", default⟩ .empty) : Expr) e ∧
      s'.rest.map (·.kind) = [.symbol .lBrace] ∧
      s'.groups = [] ∧ s'.halfShift = false ∧ s'.errorCount = 0 :=
      ⟨_, _, rfl, rfl, rfl, rfl, rfl, rfl⟩
  have halike : Likeness.bare.Alike [⟨.ident "x", default⟩, ⟨.symbol .lBrace, default⟩] [x, y] :=
    alike_of_kinds (by simp [hx, hy])
  have hlinked : K.Linked s { t with allowsBrace := false } :=
    { sound := ⟨rfl, by simp [s, ParserState.start]⟩
      final := sound.final
      stream := ⟨rfl, [x, y], halike, hrest⟩
      groups := hgroups
      brace := rfl
      half := hhalf
      ids := fun _ => rfl
      count := hcount
      warned := ⟨[], (List.append_nil _).symm, rfl⟩
      ends := fun _ _ _ => rfl
      finals := fun h => absurd trivial h }
  have hfollows : FollowsTo K 0 .firm (Comparison.behind K) (fun _ => True) (grammar 3 .expr)
      (grammar n .expr) :=
    exprCall_follows (grammar_follows hn)
  have hsome : s'.rest ≠ [] := by
    intro hnil
    rw [hnil] at hleft
    cases hleft
  obtain ⟨hgroups', hhalf', hcount'⟩ := hkept
  obtain ⟨e', t', hright, he', hlinked'⟩ := hfollows.result_right hlinked trivial
    (K.not_lost rfl rfl (Or.inl (List.cons_ne_nil _ _))) hrun
    (K.not_lost rfl hcount' (Or.inl hsome)) (Comparison.gripOf_firm fun _ => rfl)
  obtain ⟨-, ms, hms, hrest'⟩ := hlinked'.stream
  obtain ⟨z, rfl, hz⟩ := List.map_eq_singleton_iff.1 ((kinds_of_alike hms).symm.trans hleft)
  refine ⟨e', z, { t' with allowsBrace := t.allowsBrace }, ?_, he.trans he', hrest', hz,
    hlinked'.final, ?_, rfl, hlinked'.half.trans hhalf', ?_⟩
  · unfold headExpr
    beta_reduce
    rw [hright]
  · exact hlinked'.groups.trans (by rw [hgroups']; rfl)
  · exact hlinked'.count.trans (by rw [hcount']; rfl)

end Parse

open Parse

/-- At the last brace the text is at its end. -/
theorem InBlock.close {half : Bool} {mark : Token} {t : ParserState} (h : InBlock half 0 [mark] t)
    (hmark : mark.kind = .symbol .rBrace) :
    closeStrict .rBrace t = .ok () t.closeGroup.advance ∧ AtEnd t.closeGroup.advance ∧
      t.closeGroup.advance.errorCount = 0 := by
  obtain ⟨hfinal, hrest, hdiagnostics⟩ := t.closeGroup_kept
  obtain ⟨hfinal', hdiagnostics'⟩ := t.closeGroup.advance_kept
  refine ⟨(closeStrict_run .rBrace t).trans (if_pos (h.kind.trans hmark)), ⟨?_, ?_⟩, ?_⟩
  · rw [ParserState.advance_eq (hrest.trans h.rest)]
    rfl
  · rw [hfinal', hfinal]
    exact h.sound.final
  · rw [← h.count]
    exact congrArg Diagnostic.errorCount (hdiagnostics'.trans hdiagnostics)

/-- A choice up to likeness. -/
def choice (entries : List (Node .selectEntry)) : Stmt :=
  .stmt default (.exprStmt (.expr default
    (.select (.expr default (.name ⟨"x", default⟩ .empty)) (.ofList entries))))

/-- The entries of a choice are read between its keyword, its subject and the brace that closes
it. -/
theorem select_lines {file : FileId} {tokens : List Token} {x₀ x₁ x₂ y : Token} {v : List Token}
    {size n : Nat} {entries : List (Node .selectEntry)}
    (h : ArmLines size false entries (v.map (·.kind)))
    (htokens : (ParserState.start file tokens).rest = x₀ :: x₁ :: x₂ :: y :: v)
    (h₁ : x₁.kind = .ident "x") (h₂ : x₂.kind = .symbol .lBrace) (hy : y.kind = .newline)
    (hsize : size ≤ n + 1) (hcount : v.length < n) :
    ∃ o subject zs t', select (n + 2) (grammar (n + 2)) (ParserState.start file tokens) =
        .ok (.expr o (.select subject (.ofList zs))) t' ∧
      Likeness.bare.Alike (Node.expr default (.name ⟨"x", default⟩ .empty)) subject ∧
      Likeness.bare.Alike entries zs ∧ AtEnd t' ∧ t'.errorCount = 0 := by
  let s := ParserState.start file tokens
  -- The keyword and the subject are read, up to the brace.
  have hadvance : s.advance = { s with rest := x₁ :: x₂ :: y :: v, lastSpan := x₀.span } :=
    ParserState.advance_outside htokens rfl
  have sound : s.advance.Sound :=
    s.advance_onward.sound (ParserState.start_sound file tokens)
  obtain ⟨subject, z, t, hsubject, halike, hrest, hz, hfinal, hgroups, hbrace, hhalf, hfree⟩ :=
    headExpr_name (t := s.advance) (n := n + 2) sound (by rw [hadvance]) (by rw [hadvance]; rfl)
      (by rw [hadvance]; rfl) (by rw [hadvance]; rfl) h₁ h₂ (by omega)
  have hinside : InBlock false 0 (y :: v) (insideBrace t z (y :: v)) := by
    refine ⟨⟨hfinal, fun w hw => sound.rest w ?_⟩, rfl, ?_, rfl, hhalf, hfree⟩
    · rw [hadvance]
      exact List.mem_cons_of_mem _ (List.mem_cons_of_mem _ hw)
    · unfold insideBrace
      rw [hbrace, hadvance]
      rfl
  -- The entries begin behind the line break.
  have hthere := hinside.skipped TokenKind.terminates
  have hlines : (insideBrace t z (y :: v)).atStatement.rest.map (·.kind) = v.map (·.kind) := by
    obtain ⟨k, ks, hks, hnewline, hsemi, -⟩ := h.head
    have hother : k.terminates = false := by simp [TokenKind.terminates, hnewline, hsemi]
    rw [ParserState.atStatement_kinds, hinside.rest, List.map_cons, hy,
      List.dropWhile_cons_of_pos rfl, hks, List.dropWhile_cons_of_neg (by rw [hother]; decide)]
  have hskip := h.skipped (t := insideBrace t z (y :: v)) rfl hlines
  have hlength := h.length_le
  rw [List.length_map] at hlength
  obtain ⟨zs, t', mark, half', hrun, hzs, hmark, hlast⟩ := h.selectEntries (k := n + 2) (n := n + 2)
    (m := n + 1) hthere hlines (by omega) (by omega) (by omega)
  obtain ⟨hclose, hend, hnone⟩ := hlast.close hmark
  let u := t'.closeGroup.advance
  refine ⟨⟨⟨u.nextId⟩, u.spanFrom s.current.span⟩, subject, zs,
    { u with nextId := u.nextId + 1 }, ?_, halike, hzs, ⟨hend.rest, hend.final⟩, hnone⟩
  unfold select
  refine (bind_run (show here s = .ok s.current.span s from rfl)).trans ?_
  refine (bind_run (show advance s = .ok () s.advance from rfl)).trans
    ((bind_run hsubject).trans ?_)
  refine (openBrace_run hrest hgroups hz _).trans
    ((bind_run hskip).trans ((bind_run hrun).trans ?_))
  exact bind_run hclose

/-- The tokens of a choice are read as its entries. -/
theorem parse_choice {file : FileId} {tokens : List Token} {size : Nat}
    {entries : List (Node .selectEntry)} {ks : List TokenKind} (h : ArmLines size false entries ks)
    (hkinds : (ParserState.start file tokens).rest.map (·.kind) =
      .keyword .when :: .ident "x" :: .symbol .lBrace :: .newline :: ks)
    (hlength : tokens.length = (ParserState.start file tokens).rest.length + 1)
    (hsize : size ≤ tokens.length) :
    ∃ q, parse file tokens = .ok q ∧ Diagnostic.anyError q.diagnostics = false ∧
      Likeness.bare.Alike [choice entries] q.stmts := by
  let s := ParserState.start file tokens
  obtain ⟨n, hn⟩ : ∃ n, tokens.length = n + 1 := ⟨tokens.length - 1, by omega⟩
  obtain ⟨x₀, _, htokens, h₀, htail⟩ := List.map_eq_cons_iff.1 hkinds
  obtain ⟨x₁, _, rfl, h₁, htail⟩ := List.map_eq_cons_iff.1 htail
  obtain ⟨x₂, _, rfl, h₂, htail⟩ := List.map_eq_cons_iff.1 htail
  obtain ⟨y, v, rfl, hy, rfl⟩ := List.map_eq_cons_iff.1 htail
  have hcount := congrArg List.length htokens
  simp only [List.length_cons] at hcount
  obtain ⟨o, subject, zs, t, hselect, halike, hzs, hend, hnone⟩ :=
    select_lines (n := n) h htokens h₁ h₂ hy (by omega) (by omega)
  have hkind : s.kind = .keyword .when := (ParserState.kind_cons htokens).trans h₀
  have hprimary : primary (n + 2) (grammar (n + 2)) s = select (n + 2) (grammar (n + 2)) s := by
    unfold primary
    rw [bind_run (kind_run s), hkind]
  have hform : stmtForm (n + 2) (grammar (n + 2)) s =
      (.exprStmt <$> expr (n + 2) (grammar (n + 2)) : Parser StmtForm) s := by
    unfold stmtForm
    rw [bind_run (kind_run s), hkind]
    rfl
  obtain ⟨o', hstmt⟩ := primaryStmt_end hform (by rw [hkind]; rfl) (hprimary.trans hselect) hend
  obtain ⟨q, hparse, hq, hdiagnostics⟩ := parse_single (n := n) htokens (by rw [h₀]; simp)
    (by rw [h₀]; decide) hn hstmt ⟨hend.rest, hend.final⟩ (show _ < _ from hnone.symm ▸ by decide)
  refine ⟨q, hparse, ?_, ?_⟩
  · rw [hdiagnostics]
    exact (ParserState.errorFree_iff _).2 hnone
  · rw [hq]
    have hstmts : Likeness.bare.Alike (choice entries)
        (.stmt o' (.exprStmt (.expr o (.select subject (.ofList zs))))) :=
      (congr (congrArg (fun subject entries => Node.stmt default (.exprStmt (.expr default
        (.select subject entries)))) halike) hzs.ofList :)
    exact hstmts.cons Likeness.alike_nil

/-- A text that is read alone as a single expression without errors. -/
def ReadsExpression (file : FileId) (text : String) (e : Expr) : Prop :=
  ∃ lexed p o, lex file text = .ok lexed ∧ parse file lexed.tokens = .ok p ∧
    Diagnostic.anyError p.diagnostics = false ∧ p.stmts = [.stmt o (.exprStmt e)]

/-- Whether a text begins with something else than the end of a statement. -/
def beginsValue (file : FileId) (text : String) : Bool :=
  (lex file text).toOption.all fun lexed =>
    (ParserState.start file lexed.tokens).kindAfterNewlines ≠ .symbol .semi

/-- Whether a text does not end with a line break. -/
def endsInLine (file : FileId) (text : String) : Bool :=
  (lex file text).toOption.all fun lexed => InLine (ParserState.start file lexed.tokens).rest

/-- Above an `else` the same expression is read of a text, and the `else` is left standing. -/
def LeavesElse (file : FileId) (text : String) (e : Expr) : Prop :=
  ∃ lexed s', lex file (text ++ "\n" ++ "else") = .ok lexed ∧
    ExpressionRun file lexed.tokens [.keyword .else_] e false s'

/-- The line of an entry: the literals it is taken for, none where it is taken otherwise, and the
text behind the arrow. -/
def armLine (conditions : List Literal) (body : String) : String :=
  String.ofList (written (armFront conditions)) ++ body

/-- The text of a choice. -/
def choiceText (lines : List String) : String := stacked "when x \x7b" (lines ++ ["\x7d"])

/-- An entry of a choice with the text of its body, and what that is read to. -/
structure Arm where
  conditions : List Literal
  body : String
  value : Expr

namespace Arm

/-- The line. -/
def line (a : Arm) : String := armLine a.conditions a.body

/-- The entry, up to likeness. -/
def entry (a : Arm) : Node .selectEntry := armEntry a.conditions a.value

/-- The literals can be written, and the text is that of an expression. -/
structure Readable (file : FileId) (a : Arm) : Prop where
  conditions : ∀ l ∈ a.conditions, l.Written
  body : ReadsExpression file a.body a.value
  begins : beginsValue file a.body = true

/-- The expression does not go on with the next line, and leaves no half of a `>>` behind. -/
def Above (file : FileId) (a b : Arm) : Prop :=
  if b.conditions = [] then LeavesElse file a.body a.value else endsWhole file a.body = true

end Arm

theorem ReadsInFront.mono {e : Expr} {half : Bool} {size size' : Nat} {ks next : List TokenKind}
    (h : ReadsInFront e half size ks next) (hsize : size ≤ size') :
    ReadsInFront e half size' ks next :=
  fun _ _ _ ht hkinds hn hm => h ht hkinds (hsize.trans hn) (hsize.trans hm)

/-- The tokens of a text and of an `else` below it. -/
theorem ScansAs.aboveElse {file : FileId} {text : String} {ks : List TokenKind}
    (h : ScansAs file text ks) : ∃ lexed, lex file (text ++ "\n" ++ "else") = .ok lexed ∧
      (ParserState.start file lexed.tokens).rest.map (·.kind) = aboveElse ks ∧
      lexed.tokens.length = ks.length + 3 := by
  have helse : ScansAs file "else" [.keyword .else_] := ⟨_, ⟨_, rfl, rfl⟩, rfl⟩
  obtain ⟨tokens, hscans, hkinds⟩ := h.stacked (.cons helse .nil)
  obtain ⟨lexed, hlex, hlength, hrest, -⟩ := hscans.start
  have hcount := congrArg List.length hkinds
  simp only [List.length_map, stackedKinds, List.length_append, List.flatMap_cons, List.flatMap_nil,
    List.length_cons, List.length_nil] at hcount
  exact ⟨lexed, hlex, hrest ▸ hkinds, by omega⟩

/-- A text that leaves the `else` below it is read in front of every `else`. -/
theorem LeavesElse.readsInFront {file : FileId} {text : String} {e : Expr} {ks : List TokenKind}
    (h : LeavesElse file text e) (hks : ScansAs file text ks) (later : List TokenKind) :
    ReadsInFront e false (ks.length + 4) ks (.keyword .else_ :: later) := by
  obtain ⟨lexed, s', hlex, hrun⟩ := h
  obtain ⟨lexed', hlex', hkinds, hlength⟩ := hks.aboveElse
  obtain rfl : lexed = lexed' := Except.ok.inj (hlex.symm.trans hlex')
  have hread : ReadsInFront e false _ ks (.keyword .else_ :: later) := hrun.readsInFront hkinds
  exact hread.mono (by omega)

/-- A text leaves the `else` below it, if its expression does not end with a condition that lacks
the second branch. -/
theorem leavesElse_of_reads {file : FileId} {text : String} {e : Expr}
    (hreads : ReadsExpression file text e) (hbegins : beginsValue file text = true)
    (hwhole : endsWhole file text = true) (hline : endsInLine file text = true)
    (hdangles : e.dangles = false) : LeavesElse file text e := by
  obtain ⟨lexed, p, o, hlex, hparse, free, hstmts⟩ := hreads
  rw [beginsValue, hlex] at hbegins
  rw [endsInLine, hlex] at hline
  have hhalf := halfShift_of_endsWhole hwhole hlex
  have htokens : ExpressionTokens file lexed.tokens e false :=
    ⟨⟨p, o, hparse, free, hstmts⟩, of_decide_eq_true hbegins, hhalf⟩
  obtain ⟨hscans, hlength, -⟩ := ScansTo.of_lex hlex
  have hks : ScansAs file text _ := ⟨_, hscans, rfl⟩
  obtain ⟨lexed', hlex', hkinds, hlength'⟩ := hks.aboveElse
  rw [List.length_map] at hlength'
  obtain ⟨s', hrun⟩ := htokens.leavesElse hdangles (of_decide_eq_true hline) hkinds (by omega)
  exact ⟨lexed', s', hlex', hrun⟩

/-- The line of an entry is scanned as it is written. -/
theorem Arm.scan {file : FileId} {a : Arm} {ks : List TokenKind}
    (hconditions : ∀ l ∈ a.conditions, l.Written)
    (hbody : ScansAs file a.body ks) : ScansAs file a.line (armKinds a.conditions ++ ks) := by
  obtain ⟨hfits, hjoined, hlast⟩ := armFront_fits hconditions
  obtain ⟨hadmits, hpassing⟩ := armFront_admits hconditions (p := ⟨0, false⟩) rfl
  have hline := hbody.behind (fun p hp => (hfits p hp).1) hjoined
    (by rw [hlast]; rintro _ ⟨⟩; rfl) hadmits hpassing
  rwa [fused_eq_kinds fun p hp => (hfits p hp).2] at hline

/-- There are no more literals than tokens in front of a body. -/
theorem length_le_armKinds (ls : List Literal) : ls.length + 1 ≤ (armKinds ls).length := by
  unfold armKinds
  induction ls using armFront.induct with
  | case1 => decide
  | case2 l => exact Nat.le_refl 2
  | case3 l l' ls ih =>
    unfold armFront
    rw [List.length_map] at ih
    simp only [List.length_map, List.length_cons] at ih ⊢
    omega

/-- The body of an entry is read in front of the line of an entry that may stand below it. -/
theorem Arm.Above.readsInFront {file : FileId} {a b : Arm} {lexed : Lexed} {ks : List TokenKind}
    (h : a.Above file b) (hb : b.Readable file) (hlex : lex file a.body = .ok lexed)
    (htokens : ExpressionTokens file lexed.tokens a.value (endState file lexed.tokens).halfShift)
    (hks : (ParserState.start file lexed.tokens).rest.map (·.kind) = ks) (later : List TokenKind) :
    ReadsInFront a.value false (lexed.tokens.length + (armKinds b.conditions).length + 1) ks
      (armKinds b.conditions ++ later) := by
  obtain ⟨hbody, hlength, -⟩ := ScansTo.of_lex hlex
  have hcount := congrArg List.length hks
  rw [List.length_map] at hcount
  unfold Arm.Above at h
  cases hnone : b.conditions with
  | nil =>
    rw [if_pos hnone] at h
    have helse : (armKinds []).length = 2 := rfl
    exact (h.readsInFront ⟨_, hbody, hks⟩ _).mono (by omega)
  | cons l ls =>
    rw [if_neg (by simp [hnone])] at h
    have hl := hb.conditions l (by simp [hnone])
    obtain ⟨ks', hks'⟩ := armKinds_cons l ls
    rw [halfShift_of_endsWhole h hlex] at htokens
    refine hks ▸ (htokens.readsInFront ?_).mono (by omega)
    -- No literal goes on with the line above it.
    rw [hks']
    rintro _ ⟨⟩
    obtain ⟨_, _, hk⟩ | hk | hk := literal_token hl.1
    all_goals exact hk ▸ ⟨rfl, rfl⟩

/-- The lines of entries are scanned into tokens that are read as these entries. -/
theorem ArmLines.of_reads {file : FileId} {arms : List Arm} (hreads : ∀ a ∈ arms, a.Readable file)
    (habove : arms.IsChain (Arm.Above file)) : ∃ kss,
      List.Forall₂ (ScansAs file) (arms.map Arm.line) kss ∧
      (∀ a ∈ arms.head?, ∃ later, closedKinds kss = armKinds a.conditions ++ later) ∧
      ∀ size half, (closedKinds kss).length ≤ size → (arms = [] ∨ half = false) →
        ArmLines size half (arms.map Arm.entry) (closedKinds kss) := by
  induction arms with
  | nil => exact ⟨[], .nil, by simp, fun size half _ _ => .close half⟩
  | cons a arms ih =>
    obtain ⟨⟨hconditions, hbody, hbegins⟩, hothers⟩ := List.forall_mem_cons.1 hreads
    obtain ⟨kss, hscans, hfirst, hlines⟩ := ih hothers habove.tail
    obtain ⟨lexed, p, o, hlex, hparse, free, hstmts⟩ := hbody
    rw [beginsValue, hlex] at hbegins
    obtain ⟨hbody, hlength, -⟩ := ScansTo.of_lex hlex
    generalize hks : (ParserState.start file lexed.tokens).rest.map (·.kind) = ks
    have hbody' : ScansAs file a.body ks := ⟨_, hbody, hks⟩
    have htokens : ExpressionTokens file lexed.tokens a.value
        (endState file lexed.tokens).halfShift :=
      ⟨⟨p, o, hparse, free, hstmts⟩, of_decide_eq_true hbegins, rfl⟩
    refine ⟨_ :: kss, .cons (Arm.scan hconditions hbody') hscans, ?_, ?_⟩
    · rintro _ ⟨⟩
      exact ⟨_, (closedKinds_cons ..).trans (List.append_assoc ..)⟩
    · intro size half hsize hhalf
      obtain rfl := hhalf.resolve_left (List.cons_ne_nil _ _)
      rw [closedKinds_cons, List.length_append, List.length_append, List.length_cons] at hsize
      have hfront := length_le_armKinds a.conditions
      have hcount := congrArg List.length hks
      rw [List.length_map] at hcount
      -- The next line tells how the body is read.
      obtain ⟨half, hbody, hothers⟩ : ∃ half, ReadsInFront a.value half size ks (closedKinds kss) ∧
          ArmLines size half (arms.map Arm.entry) (closedKinds kss) := by
        cases arms with
        | nil =>
          cases hscans
          refine ⟨_, hks ▸ (htokens.readsInFront ?_).mono (by omega), .close _⟩
          rintro _ ⟨⟩
          exact ⟨rfl, rfl⟩
        | cons b arms =>
          obtain ⟨later, hlater⟩ := hfirst b rfl
          refine ⟨false, ?_, hlines size false (by omega) (Or.inr rfl)⟩
          have hread :=
            habove.rel.readsInFront (hothers b List.mem_cons_self) hlex htokens hks later
          rw [hlater, List.length_append] at hsize
          rw [hlater]
          exact hread.mono (by omega)
      rw [closedKinds_cons, List.append_assoc]
      exact .arm hconditions (by omega) hbody hothers

/-- Choices are read back from their texts, where no line goes on with the expression above it: the
one statement is the choice with these entries, up to numbers and places, and no error is
reported. -/
theorem written_choice_restored {file : FileId} {arms : List Arm}
    (hreads : ∀ a ∈ arms, a.Readable file) (habove : arms.IsChain (Arm.Above file)) :
    ∃ lexed q, lex file (choiceText (arms.map Arm.line)) = .ok lexed ∧
      parse file lexed.tokens = .ok q ∧
      Diagnostic.anyError q.diagnostics = false ∧
      Likeness.bare.Alike [choice (arms.map Arm.entry)] q.stmts := by
  obtain ⟨kss, hscans, -, hlines⟩ := ArmLines.of_reads hreads habove
  have hhead : ScansAs file "when x \x7b" [.keyword .when, .ident "x", .symbol .lBrace] :=
    ⟨[⟨.keyword .when, 0, 4, file⟩, ⟨.ident "x", 5, 1, file⟩, ⟨.symbol .lBrace, 7, 1, file⟩],
      ⟨_, rfl, rfl⟩, rfl⟩
  have hbrace : ScansAs file "\x7d" [.symbol .rBrace] := ⟨_, (scansTo_brace file).2, rfl⟩
  obtain ⟨tokens, hall, hkinds⟩ := hhead.stacked (List.rel_append hscans (.cons hbrace .nil))
  obtain ⟨lexed, hlex, hlength, hrest, -⟩ := hall.start
  rw [stackedKinds, closedKinds_eq, ← hrest] at hkinds
  have hcount := congrArg List.length hkinds
  rw [List.length_map, hrest] at hcount
  simp only [List.length_append, List.length_cons, List.length_nil] at hcount
  obtain ⟨q, hparse, free, hstmts⟩ := parse_choice
    (hlines (closedKinds kss).length false (Nat.le_refl _) (Or.inr rfl)) hkinds
    (by rw [hrest, hlength]) (by omega)
  exact ⟨lexed, q, hlex, hparse, free, hstmts⟩

/-- The expression a text is read to alone. -/
def expressionIn? (file : FileId) (text : String) : Option Expr := do
  let lexed ← (lex file text).toOption
  let p ← (parse file lexed.tokens).toOption
  match p.stmts with
  | [.stmt _ (.exprStmt e)] => if Diagnostic.anyError p.diagnostics then none else some e
  | _ => none

/-- Such a text is read alone. -/
theorem readsExpression_of_expressionIn? {file : FileId} {text : String} {e : Expr}
    (h : expressionIn? file text = some e) : ReadsExpression file text e := by
  unfold expressionIn? at h
  obtain ⟨lexed, hlex, h⟩ := Option.bind_eq_some_iff.1 h
  obtain ⟨p, hparse, h⟩ := Option.bind_eq_some_iff.1 h
  split at h
  case h_1 o x hstmts =>
    cases free : Diagnostic.anyError p.diagnostics with
    | true =>
      rw [free] at h
      cases h
    | false =>
      rw [free] at h
      obtain rfl := Option.some.inj h
      exact ⟨lexed, p, o, eq_ok_of_toOption hlex, eq_ok_of_toOption hparse, free, hstmts⟩
  case h_2 => cases h

/-- A decimal number. -/
def decimal (value : String) : Literal := ⟨.form .decimal, value⟩

/-- Entries with two conditions, with one and with none. -/
theorem written_choice_restored_mixed :
    choiceText [armLine [decimal "1", decimal "2"] "f(3)", armLine [decimal "3"] "a",
        armLine [] "b"] =
      "when x \x7b\n1, 2 => f(3)\n3 => a\nelse => b\n\x7d" ∧
    ∃ e₁ e₂ e₃, expressionIn? ⟨0⟩ "f(3)" = some e₁ ∧ expressionIn? ⟨0⟩ "a" = some e₂ ∧
      expressionIn? ⟨0⟩ "b" = some e₃ ∧ ∃ lexed q,
        lex ⟨0⟩ (choiceText [armLine [decimal "1", decimal "2"] "f(3)", armLine [decimal "3"] "a",
          armLine [] "b"]) = .ok lexed ∧ parse ⟨0⟩ lexed.tokens = .ok q ∧
        Diagnostic.anyError q.diagnostics = false ∧
        Likeness.bare.Alike [choice [armEntry [decimal "1", decimal "2"] e₁,
          armEntry [decimal "3"] e₂, armEntry [] e₃]] q.stmts := by
  obtain ⟨e₁, h₁⟩ := Option.isSome_iff_exists.1
    (show (expressionIn? ⟨0⟩ "f(3)").isSome = true by decide +kernel)
  obtain ⟨e₂, h₂, hdangles⟩ := Option.map_eq_some_iff.1
    (show (expressionIn? ⟨0⟩ "a").map Node.dangles = some false by decide +kernel)
  obtain ⟨e₃, h₃⟩ := Option.isSome_iff_exists.1
    (show (expressionIn? ⟨0⟩ "b").isSome = true by decide +kernel)
  have hleaves : LeavesElse ⟨0⟩ "a" e₂ := leavesElse_of_reads (readsExpression_of_expressionIn? h₂)
    (by decide +kernel) (by decide +kernel) (by decide +kernel) hdangles
  have hwritten : ∀ d ∈ ['1', '2', '3'], (decimal (String.ofList [d])).Written := by
    simp only [List.forall_mem_cons]
    exact ⟨⟨rfl, rfl, '1', [], rfl, Or.inl rfl⟩, ⟨rfl, rfl, '2', [], rfl, Or.inl rfl⟩,
      ⟨rfl, rfl, '3', [], rfl, Or.inl rfl⟩, by simp⟩
  have hbegins : beginsValue ⟨0⟩ "f(3)" = true ∧ beginsValue ⟨0⟩ "a" = true ∧
      beginsValue ⟨0⟩ "b" = true := by decide +kernel
  let arms : List Arm :=
    [⟨[decimal "1", decimal "2"], "f(3)", e₁⟩, ⟨[decimal "3"], "a", e₂⟩, ⟨[], "b", e₃⟩]
  have hreads : ∀ a ∈ arms, a.Readable ⟨0⟩ := by
    simp only [arms, List.forall_mem_cons]
    refine ⟨⟨?_, readsExpression_of_expressionIn? h₁, hbegins.1⟩,
      ⟨?_, readsExpression_of_expressionIn? h₂, hbegins.2.1⟩,
      ⟨by simp, readsExpression_of_expressionIn? h₃, hbegins.2.2⟩, by simp⟩
    · exact List.forall_mem_cons.2 ⟨hwritten '1' (by simp), List.forall_mem_singleton.2
        (hwritten '2' (by simp))⟩
    · exact List.forall_mem_singleton.2 (hwritten '3' (by simp))
  have habove : arms.IsChain (Arm.Above ⟨0⟩) := by
    have hwhole : endsWhole ⟨0⟩ "f(3)" = true := by decide +kernel
    exact List.isChain_cons_cons.2 ⟨hwhole, List.isChain_cons_cons.2 ⟨hleaves, .singleton _⟩⟩
  exact ⟨by decide +kernel, e₁, e₂, e₃, h₁, h₂, h₃, written_choice_restored hreads habove⟩

/-- A condition without a second branch takes the `else` of the next line for one; and no statement
ends in front of an expression. -/
theorem written_choice_torn :
    ((expressionIn? ⟨0⟩ "if a \x7b\x7d").isSome = true ∧ (expressionIn? ⟨0⟩ "2").isSome = true ∧
      choiceText [armLine [decimal "1"] "if a \x7b\x7d", armLine [] "2"] =
        "when x \x7b\n1 => if a \x7b\x7d\nelse => 2\n\x7d" ∧
      readsClean ⟨0⟩ "when x \x7b\n1 => if a \x7b\x7d\nelse => 2\n\x7d" = false) ∧
    (expressionIn? ⟨0⟩ "; a").isSome = true ∧
      choiceText [armLine [decimal "1"] "; a"] = "when x \x7b\n1 => ; a\n\x7d" ∧
      readsClean ⟨0⟩ "when x \x7b\n1 => ; a\n\x7d" = false := by
  decide +kernel

end FrontEnd
