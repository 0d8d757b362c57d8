import FrontEnd.Proofs.Bodies.Lines
import FrontEnd.Proofs.Loosening.Declarations

/-!
# Functions as members

A text that is a single statement is read by one run of the parser of statements. Where the
statement is a function, the parser of members reads the text alike, and so functions on lines of
their own are the members of the declaration whose braces they stand in.
-/

namespace FrontEnd

/-- Functions among the declarations. -/
def Node.isFunction : Item → Bool
  | .item _ _ _ (.funcItem ..) => true
  | _ => false

namespace Parse

variable {g : Grammar} {n : Nat} {s s' : ParserState}

/-- A variable is no other statement. -/
theorem variableDecl_yields (kind : VarKind) :
    Yields (fun form => (∀ x, form ≠ .itemStmt x) ∧ ∀ e, form ≠ .exprStmt e)
    (variableDecl g kind) := by
  refine .bind fun _ => .bind fun _ => .bind fun _ => ?_
  extract_lets behind
  have hbehind (type : Node (.maybe .type)) :
      Yields (fun form => (∀ x, form ≠ .itemStmt x) ∧ ∀ e, form ≠ .exprStmt e) (behind type) :=
    .bind fun _ => .ite (.bind fun _ => .bind fun _ => .pure ⟨by simp, by simp⟩)
      (.pure ⟨by simp, by simp⟩)
  exact .ite (.bind fun _ => .bind fun _ => hbehind _) (hbehind _)

/-- Nor is a loop. -/
theorem loops_yield :
    Yields (fun form => (∀ x, form ≠ .itemStmt x) ∧ ∀ e, form ≠ .exprStmt e) (forLoop g) ∧
      Yields (fun form => (∀ x, form ≠ .itemStmt x) ∧ ∀ e, form ≠ .exprStmt e) (whileLoop g) :=
  ⟨.bind fun _ => .bind fun _ => .bind fun _ => .bind fun _ => .bind fun _ =>
    .pure ⟨by simp, by simp⟩,
    .bind fun _ => .bind fun _ => .bind fun _ => .pure ⟨by simp, by simp⟩⟩

/-- A statement that is a declaration was read as one, and one that is an expression as that. -/
theorem stmtForm_run {form : StmtForm} (h : stmtForm n g s = .ok form s') :
    (∀ x, form = .itemStmt x → item n g s = .ok x s') ∧
      ∀ e, form = .exprStmt e → expr n g s = .ok e s' := by
  have hother (hnone : (∀ x, form ≠ .itemStmt x) ∧ ∀ e, form ≠ .exprStmt e) :
      (∀ x, form = .itemStmt x → item n g s = .ok x s') ∧
        ∀ e, form = .exprStmt e → expr n g s = .ok e s' :=
    ⟨fun x hx => absurd hx (hnone.1 x), fun e he => absurd he (hnone.2 e)⟩
  unfold stmtForm at h
  obtain ⟨k, s₁, h₁, hrun⟩ := bind_ok h
  obtain rfl : s = s₁ := by
    cases h₁
    rfl
  clear h₁
  generalize VarKind.ofToken? k = kind? at hrun
  cases kind? with
  | some kind => exact hother (variableDecl_yields kind hrun)
  | none =>
    dsimp only at hrun
    split at hrun
    · exact hother (loops_yield.1 hrun)
    · split at hrun
      · exact hother (loops_yield.2 hrun)
      · split at hrun
        · obtain ⟨x, s₂, h₂, hresult⟩ := bind_ok hrun
          cases hresult
          refine ⟨fun y hy => ?_, by simp⟩
          cases hy
          exact h₂
        · obtain ⟨e, s₂, h₂, hresult⟩ := bind_ok hrun
          cases hresult
          refine ⟨by simp, fun e' he => ?_⟩
          cases he
          exact h₂

/-- What a statement says was read behind a look at where it starts. -/
theorem stmt_run {o : Origin} {form : StmtForm} (h : stmt n g s = .ok (.stmt o form) s') :
    ∃ s₁, stmtForm n g s = .ok form s₁ ∧ s' = { s₁ with nextId := s₁.nextId + 1 } := by
  obtain ⟨start, s₁, h₁, h⟩ := bind_ok h
  cases h₁
  obtain ⟨form', s₂, h₂, h⟩ := bind_ok h
  cases h
  exact ⟨s₂, h₂, rfl⟩

/-- In front of the keyword of a declaration there are no more attributes and modifiers. -/
theorem nothing_ahead {k : Keyword} (hkind : s.kind = .keyword k)
    (hplain : Modifier.ofToken? (.keyword k) = none) :
    attrs (n + 1) g (n + 1) s = .ok [] s ∧ modifiers (n + 1) s = .ok [] s := by
  constructor
  · unfold attrs
    change (if (!(s.kind == .symbol .at_)) = true then _ else _ : Parser (List (Node .attr))) s = _
    rw [hkind]
    rfl
  · unfold modifiers
    refine (bind_run (kind_run s)).trans ?_
    rw [hkind, hplain]
    rfl

/-- Only the keyword of functions begins one. -/
theorem itemForm_func {form : ItemForm} {o : Origin} {as : Node (.many .attr)} {ms : List Modifier}
    (h : itemForm n g false s = .ok form s') (hfunc : (Node.item o as ms form).isFunction = true) :
    s.kind = .keyword .func := by
  have hyields {p : Parser ItemForm} {s s' : ParserState} (hrun : p s = .ok form s')
      (hp : Yields (fun form => (Node.item o as ms form).isFunction = false) p) : False := by
    rw [hp hrun] at hfunc
    cases hfunc
  unfold itemForm at h
  obtain ⟨k, s₁, h₁, h⟩ := bind_ok h
  obtain ⟨rfl, rfl⟩ : s.kind = k ∧ s = s₁ := by
    cases h₁
    exact ⟨rfl, rfl⟩
  clear h₁
  generalize s.kind = k at h ⊢
  split at h
  · rfl
  · refine (hyields h ?_).elim
    refine .bind fun _ => .bind fun _ => .bind fun _ => .bind fun _ => ?_
    split
    · exact .bind fun _ => .bind fun _ => .pure rfl
    · exact .bind fun _ => .bind fun _ => .pure rfl
  · refine (hyields h ?_).elim
    refine .bind fun _ => .bind fun _ => .bind fun _ => .bind fun _ => ?_
    split
    · exact .bind fun _ => .bind fun _ => .pure rfl
    · exact .bind fun _ => .bind fun _ => .pure rfl
  · refine (hyields h ?_).elim
    refine .bind fun _ => .bind fun _ => .bind fun _ => .bind fun _ => .bind fun _ => .bind fun _ =>
      .bind fun _ => .bind fun found => ?_
    split
    · exact .bind fun _ => .bind fun _ => .bind fun _ => .bind fun _ => .pure rfl
    · exact .bind fun _ => .bind fun _ => .bind fun _ => .bind fun _ => .pure rfl
  · exact (hyields h (.bind fun _ => .bind fun _ => .bind fun _ => .bind fun _ => .bind fun _ =>
      .pure rfl)).elim
  · exact (hyields h (.bind fun _ => .bind fun _ => .bind fun _ => .bind fun _ => .bind fun _ =>
      .bind fun _ => .pure rfl)).elim
  · exact (hyields h (.bind fun _ => .bind fun _ => .bind fun _ => .bind fun _ => .pure rfl)).elim
  · refine (hyields h ?_).elim
    split
    · exact .bind fun _ => .bind fun _ => .bind fun _ => .bind fun _ => .bind fun _ => .pure rfl
    · exact .bind fun _ => .bind fun _ => .bind fun _ => .pure rfl
  · cases h

/-- A function is read as a member as it is read as a declaration. -/
theorem member_of_item {x : Item} (h : item n g s = .ok x s') (hfunc : x.isFunction = true) :
    member n g false s = .ok x s' := by
  unfold item itemAfter at h
  obtain ⟨start, s₀, h₀, h⟩ := bind_ok h
  cases h₀
  obtain ⟨as, s₁, h₁, h⟩ := bind_ok h
  obtain ⟨ms, s₂, h₂, h⟩ := bind_ok h
  obtain ⟨form, s₃, h₃, h⟩ := bind_ok h
  cases h
  have hkind := itemForm_func h₃ hfunc
  obtain ⟨n, rfl⟩ : ∃ m, n = m + 1 := by
    cases n with
    | zero => cases h₁
    | succ n => exact ⟨n, rfl⟩
  obtain ⟨hattrs, hmodifiers⟩ := nothing_ahead (g := g) (n := n) hkind rfl
  have hafter : itemAfter (n + 1) g false s.current.span as ms s₂ = .ok (.item
      ⟨⟨s₃.nextId⟩, { s₃ with nextId := s₃.nextId + 1 : ParserState }.spanFrom s.current.span⟩
      (.ofList as) ms form) { s₃ with nextId := s₃.nextId + 1 } := by
    unfold itemAfter
    refine (bind_run hattrs).trans ((bind_run hmodifiers).trans ((bind_run h₃).trans ?_))
    rw [List.append_nil, List.append_nil]
    rfl
  unfold member
  refine (bind_run (show here s = .ok s.current.span s from rfl)).trans ?_
  refine (bind_run h₁).trans ((bind_run h₂).trans ((bind_run (kind_run s₂)).trans ?_))
  rw [hkind, if_neg (by decide)]
  exact hafter

/-- A text without errors that is a single statement is read by one run of the parser of statements,
with nothing but terminators behind it. -/
theorem parse_statement {file : FileId} {tokens : List Token} {p : Parsed} {x : Stmt}
    (h : parse file tokens = .ok p) (free : Diagnostic.anyError p.diagnostics = false)
    (hx : p.stmts = [x]) :
    let s := (ParserState.start file tokens).atStatement
    s.kind ≠ .eof ∧ s.kind ≠ .symbol .rBrace ∧
      ∃ s', stmt (tokens.length + 1) (grammar (tokens.length + 1)) s = .ok x s' ∧ s'.ErrorFree ∧
        (s'.kind.terminates = true ∨ s'.kind = .eof ∨ s'.kind = .symbol .rBrace) ∧
        s'.atStatement = endState file tokens ∧ s'.atStatement.rest = [] := by
  intro s
  obtain ⟨hfile, hdiagnostics⟩ := parse_ok h
  have hcount := endState_count h free
  rw [hx] at hfile
  obtain ⟨hstatements, -, -, hend⟩ := file_statements hfile (no_stray_of_errorFree hcount)
  generalize endState file tokens = last at hstatements hdiagnostics hend ⊢
  cases hstatements with
  | @cons _ s₁ _ _ _ more inside first others =>
    cases others
    have hfree : s₁.ErrorFree := (congrArg Diagnostic.anyError hdiagnostics).trans free
    refine ⟨more, inside, ?_⟩
    rcases (stmtOrStub_ok first).2 with ⟨s₂, hrun, rfl⟩ | ⟨e, s₂, s₃, hrun, hfatal, rfl, rfl, rfl⟩
    · obtain ⟨free₂, hends⟩ := ParserState.settle_errorFree hfree
      have hsettle : s₂.settle s = s₂.atStatement := ParserState.settle_eq free₂ hends
      have hsame : (s₂.settle s).atStatement = s₂.atStatement := by
        rw [hsettle, ParserState.atStatement_atStatement]
      exact ⟨s₂, hrun, free₂, hends, hsame.symm, hsame ▸ hend⟩
    · have hrecorded : (s₂.record e).ErrorFree := (ParserState.settle_errorFree hfree).1
      exact absurd hrecorded (s₂.record_not_errorFree e)

end Parse

/-- A text that is read alone as a single function without errors. -/
def ReadsFunction (file : FileId) (text : String) (x : Item) : Prop :=
  x.isFunction = true ∧ ∃ lexed p o, lex file text = .ok lexed ∧ parse file lexed.tokens = .ok p ∧
    Diagnostic.anyError p.diagnostics = false ∧ p.stmts = [.stmt o (.itemStmt x)]

/-- The tokens of such a text, what it is read to and whether it leaves half of a `>>` behind. -/
structure FunctionTokens (file : FileId) (tokens : List Token) (x : Item) (half : Bool) : Prop where
  function : x.isFunction = true
  parsed : ∃ p o, parse file tokens = .ok p ∧ Diagnostic.anyError p.diagnostics = false ∧
    p.stmts = [.stmt o (.itemStmt x)]
  half : (endState file tokens).halfShift = half

/-- It does not go on with what is before it. -/
theorem FunctionTokens.fresh {file : FileId} {tokens : List Token} {x : Item} {half : Bool}
    (h : FunctionTokens file tokens x half) : Fresh (ParserState.start file tokens).rest := by
  obtain ⟨p, o, hparse, free, -⟩ := h.parsed
  exact (embeds_of_errorFree hparse free).fresh

/-- It is read by one run of the parser of members, up to the terminators at its end. -/
theorem FunctionTokens.member {file : FileId} {tokens : List Token} {x : Item} {half : Bool}
    (h : FunctionTokens file tokens x half) :
    let s := (ParserState.start file tokens).atStatement
    s.kind ≠ .eof ∧ s.kind ≠ .symbol .rBrace ∧ ∃ s', Parse.member (tokens.length + 1)
      (Parse.grammar (tokens.length + 1)) false s = .ok x s' ∧ s'.errorCount = 0 ∧
        s'.settle s = s'.atStatement ∧ s'.atStatement.rest = [] ∧ s'.halfShift = half := by
  intro s
  obtain ⟨p, o, hparse, free, hstmts⟩ := h.parsed
  obtain ⟨more, inside, s', hrun, free', hends, hlast, hrest⟩ :=
    Parse.parse_statement hparse free hstmts
  obtain ⟨s₁, hform, rfl⟩ := Parse.stmt_run hrun
  refine ⟨more, inside, s₁,
    Parse.member_of_item ((Parse.stmtForm_run hform).1 x rfl) h.function,
    (ParserState.errorFree_iff _).1 free', ParserState.settle_eq free' hends, hrest, ?_⟩
  rw [← h.half, ← hlast]
  rfl

/-- Inside the braces of a declaration a function is read as a member. -/
theorem InBlock.member {file : FileId} {tokens ms v : List Token} {y : Token} {t : ParserState}
    {x : Item} {half : Bool} {n m : Nat} (h : InBlock false 0 (ms ++ y :: v) t)
    (htext : FunctionTokens file tokens x half)
    (halike : Likeness.bare.Alike (ParserState.start file tokens).rest ms)
    (newline : y.kind = .newline) (fresh : Fresh v) (hn : tokens.length + 1 ≤ n)
    (hm : tokens.length + 1 ≤ m) :
    t.atStatement.kind ≠ .eof ∧ t.atStatement.kind ≠ .symbol .rBrace ∧
      ∃ z t' u, Parse.recovering (Parse.member n (Parse.grammar m) false) t.atStatement =
          .ok (some z) t' ∧ Likeness.bare.Alike x z ∧ t'.atStatement = u.atStatement ∧
        InBlock half 0 v u := by
  obtain ⟨more, inside, s', hmember, hcount, hsettle, hrest, hhalf⟩ := htext.member
  let s := (ParserState.start file tokens).atStatement
  let K : Simulation := .joining .bare [⟨false, true⟩] rfl 0 1 (by decide) t.warnings
    (.line newline fresh)
  have hK : K.Continues y v := ⟨newline, id, rfl, id⟩
  have hstart : K.Linked (.start file tokens) t := h.linked halike _ _
  have sound : s.Sound := (ParserState.skipWhile_onward _ _).sound hstart.sound
  cases hstart.arrived hK with
  | behind ended _ _ => exact absurd (sound.kind_eq_eof.2 ended) more
  | inside hlinked hsome =>
    have hkind : t.atStatement.kind = s.kind := hlinked.kind fun hended => hsome hended.2
    have hfollows : Follows K 0 .firm .firm (fun _ => True)
        (Parse.member (tokens.length + 1) (Parse.grammar (tokens.length + 1)) false)
        (Parse.member n (Parse.grammar m) false) :=
      Parse.member_follows (Parse.grammar_follows hm) hn false
    have run := hfollows.runs sound.final trivial
    rw [hmember] at run
    have hgroups : s'.groups = [] := run.groups
    have hkept {u : ParserState} (hu : u.groups = []) (hnone : u.errorCount = 0) : ¬K.Lost u :=
      K.not_lost rfl hnone (Or.inr ⟨hu, id⟩)
    obtain ⟨z, t', hrun, hz, hlinked'⟩ := hfollows.result_right hlinked trivial
      (K.not_lost rfl rfl (Or.inl hsome)) hmember (hkept hgroups hcount) rfl
    have hframe : t.atStatement.SameFrame t' := by
      refine ⟨?_, hlinked'.brace.trans (run.brace.trans h.brace.symm)⟩
      rw [hlinked'.groups, hgroups]
      exact h.groups.symm
    have hfinal := (t'.settle_onward t.atStatement).final
    obtain ⟨hfinished, harrived⟩ := Parse.finished_arrived hK hlinked hlinked' run.onward hsome
      (hsettle ▸ hkept (u := s'.atStatement) hgroups hcount) (Or.inl (hsettle ▸ hcount)) (some z)
    rw [hsettle, ParserState.atStatement_atStatement] at harrived
    cases harrived with
    | inside _ hmore => exact absurd hrest hmore
    | @behind _ u crossed same =>
      have hsame : (t'.settle t.atStatement).atStatement.final = u.atStatement.final :=
        congrArg ParserState.final same
      refine ⟨hkind ▸ more, hkind ▸ inside, z, _, u, ?_, hz, same, ⟨?_, fun w hw => ?_⟩,
        crossed.rest, ?_, crossed.brace.trans run.brace, crossed.half.trans hhalf,
        crossed.count.trans hcount⟩
      · rw [Parse.recovering_run, hrun]
        exact hfinished
      · exact hsame ▸ hfinal ▸ hlinked'.final
      · rw [crossed.rest] at hw
        refine h.sound.rest w ?_
        rw [h.rest]
        exact List.mem_append_right _ (List.mem_cons_of_mem y hw)
      · rw [crossed.groups]
        exact congrArg (· ++ K.base) hgroups

/-- There is a token in it. -/
theorem FunctionTokens.length_pos {file : FileId} {tokens : List Token} {x : Item} {half : Bool}
    (h : FunctionTokens file tokens x half) : 0 < tokens.length := by
  by_contra hnone
  obtain rfl : tokens = [] := List.length_eq_zero_iff.1 (Nat.eq_zero_of_not_pos hnone)
  exact h.member.1 rfl

/-- Functions on lines of their own up to the brace behind them: the functions, the number of their
tokens, and the kinds of all tokens. The flag tells whether a half of `>>` is left over from before;
only the brace may come behind one. -/
inductive FunctionLines (file : FileId) : Bool → List Item → Nat → List TokenKind → Prop
  | close (half : Bool) : FunctionLines file half [] 0 [.symbol .rBrace]
  | text {tokens : List Token} {x : Item} {half : Bool} {xs : List Item} {size : Nat}
    {ks : List TokenKind} (first : FunctionTokens file tokens x half)
    (others : FunctionLines file half xs size ks) :
    FunctionLines file false (x :: xs) (tokens.length + size)
      ((ParserState.start file tokens).rest.map (·.kind) ++ .newline :: ks)

namespace FunctionLines

variable {file : FileId} {half : Bool} {xs : List Item} {size : Nat} {ks : List TokenKind}

/-- Nothing goes on with what is before them. -/
theorem fresh (h : FunctionLines file half xs size ks) {v : List Token}
    (hks : v.map (·.kind) = ks) : Fresh v := by
  induction h generalizing v with
  | close =>
    rw [fresh_iff_kinds hks]
    rintro _ ⟨⟩
    rfl
  | text first _ ih =>
    obtain ⟨ms, y, v, rfl, hms, hy, hv⟩ := split_line hks
    exact (first.fresh.alike (alike_of_kinds hms.symm)).append hy (ih hv)

/-- They are the members up to the brace. -/
theorem memberList (h : FunctionLines file half xs size ks) {t : ParserState} {k n m : Nat}
    (ht : InBlock half 0 t.rest t) (hks : t.rest.map (·.kind) = ks) (hk : size < k)
    (hn : size + 1 ≤ n) (hm : size + 1 ≤ m) :
    ∃ zs t' mark half', Parse.memberList n (Parse.grammar m) false k t.atStatement = .ok zs t' ∧
      Likeness.bare.Alike xs zs ∧ mark.kind = .symbol .rBrace ∧ InBlock half' 0 [mark] t' := by
  induction h generalizing t k with
  | close half =>
    obtain ⟨k, rfl⟩ : ∃ k', k = k' + 1 := ⟨k - 1, by omega⟩
    obtain ⟨mark, hrest, hmark⟩ := List.map_eq_singleton_iff.1 hks
    have hthere := ht.skipped TokenKind.terminates
    have hstays : [mark].dropWhile (·.kind.terminates) = [mark] :=
      List.dropWhile_cons_of_neg (by rw [hmark]; decide)
    rw [hrest, hstays] at hthere
    have hkind : t.atStatement.kind = .symbol .rBrace := hthere.kind.trans hmark
    refine ⟨[], t.atStatement, mark, half, ?_, rfl, hmark, hthere⟩
    unfold Parse.memberList
    change (if (t.atStatement.kind == .symbol .rBrace) = true ∨ (t.atStatement.kind == .eof) = true
      then _ else _ : Parser (List Item)) t.atStatement = _
    rw [if_pos (Or.inl (beq_iff_eq.2 hkind))]
    rfl
  | @text tokens x half xs size ks first others ih =>
    have hpos := first.length_pos
    obtain ⟨k, rfl⟩ : ∃ k', k = k' + 1 := ⟨k - 1, by omega⟩
    obtain ⟨ms, y, v, hrest, hms, hy, hv⟩ := split_line hks
    rw [hrest] at ht
    obtain ⟨more, inside, z, t', u, hrun, hz, hthere, hu⟩ := ht.member (n := n) (m := m) first
      (alike_of_kinds hms.symm) hy (others.fresh hv) (by omega) (by omega)
    have hrest' : u.rest = v := hu.rest
    obtain ⟨zs, t'', mark, half', hothers, hzs, hmark, hlast⟩ := ih (t := u) (k := k)
      (hrest'.symm ▸ hu) (hrest'.symm ▸ hv) (by omega) (by omega) (by omega)
    refine ⟨z :: zs, t'', mark, half', ?_, hz.cons hzs, hmark, hlast⟩
    unfold Parse.memberList
    change (if (t.atStatement.kind == .symbol .rBrace) = true ∨ (t.atStatement.kind == .eof) = true
      then _ else _ : Parser (List Item)) t.atStatement = _
    rw [if_neg (not_or.2 ⟨mt beq_iff_eq.1 inside, mt beq_iff_eq.1 more⟩)]
    refine (Parse.bind_run hrun).trans ?_
    change (Parse.memberList n (Parse.grammar m) false k >>= _) t'.atStatement = _
    rw [hthere]
    exact Parse.bind_run hothers

/-- So are they behind a line break. -/
theorem members (h : FunctionLines file half xs size ks) {t : ParserState} {y : Token}
    {v : List Token} {n : Nat} (ht : InBlock half 0 (y :: v) t) (newline : y.kind = .newline)
    (hks : v.map (·.kind) = ks) (hn : size + 1 ≤ n) :
    ∃ zs t' mark half', Parse.grammar (n + 1) (.members false) t = .ok (.ofList zs) t' ∧
      Likeness.bare.Alike xs zs ∧ mark.kind = .symbol .rBrace ∧ InBlock half' 0 [mark] t' := by
  have hthere := ht.stepped
  have hrest : t.advance.rest = v := hthere.rest
  obtain ⟨zs, t', mark, half', hrun, hzs, hmark, hlast⟩ := h.memberList (t := t.advance)
    (k := n + 1) (n := n + 1) (m := n) (hrest.symm ▸ hthere) (hrest.symm ▸ hks) (by omega)
    (by omega) hn
  have hsame : t.atStatement = t.advance.atStatement :=
    ParserState.skipWhile_stepped ht.rest (by rw [newline]; rfl) (by rw [ht.groups]; rfl)
  rw [← hsame] at hrun
  exact ⟨zs, t', mark, half', Parse.bind_run hrun, hzs, hmark, hlast⟩

/-- Texts that are functions stand one below the other, where no other text than the last one leaves
half of a `>>` behind. -/
theorem of_reads {members : List String} {xs : List Item}
    (h : List.Forall₂ (ReadsFunction file) members xs)
    (hwhole : ∀ text ∈ members.dropLast, endsWhole file text = true)
    (hhalf : members = [] ∨ half = false) :
    ∃ kss size, List.Forall₂ (ScansAs file) members kss ∧
      FunctionLines file half xs size (kss.flatMap (· ++ [.newline]) ++ [.symbol .rBrace]) ∧
      (kss.flatMap (· ++ [TokenKind.newline])).length = size := by
  induction h generalizing half with
  | nil => exact ⟨[], 0, .nil, .close half, rfl⟩
  | @cons text x members xs hfirst _ ih =>
    obtain rfl : half = false := hhalf.resolve_left (List.cons_ne_nil _ _)
    obtain ⟨hfunction, lexed, p, o, hlex, hparse, free, hstmts⟩ := hfirst
    obtain ⟨hscans, hlength, -⟩ := ScansTo.of_lex hlex
    have hothers : (∀ text ∈ members.dropLast, endsWhole file text = true) ∧
        (members = [] ∨ (endState file lexed.tokens).halfShift = false) := by
      cases members with
      | nil => exact ⟨by simp, Or.inl rfl⟩
      | cons text' members =>
        rw [List.dropLast_cons_cons, List.forall_mem_cons] at hwhole
        exact ⟨hwhole.2, Or.inr (halfShift_of_endsWhole hwhole.1 hlex)⟩
    obtain ⟨kss, size, hkss, hlines, hsize⟩ := ih hothers.1 hothers.2
    refine ⟨_ :: kss, lexed.tokens.length + size, .cons ⟨_, hscans, rfl⟩ hkss, ?_, ?_⟩
    · have hfunctions : FunctionTokens file lexed.tokens x (endState file lexed.tokens).halfShift :=
        ⟨hfunction, ⟨p, o, hparse, free, hstmts⟩, rfl⟩
      simpa using hlines.text hfunctions
    · rw [List.flatMap_cons, List.length_append, hsize, List.length_append,
        List.length_map, hlength]
      rfl

end FunctionLines

end FrontEnd
