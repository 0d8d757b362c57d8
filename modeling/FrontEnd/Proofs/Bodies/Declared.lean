import FrontEnd.Proofs.Bodies.Enums

/-!
# Texts of enumerations

The text of an enumeration is put together from its lines. What is written of it gives it back, but
for one case: where there are no entries, the semicolon in front of the members is skipped like the
separators of entries.
-/

namespace FrontEnd

namespace Parse

variable {g : Grammar} {s s' : ParserState} {n : Nat}

/-- Where no attributes, modifiers or generic parameters are at hand, there are none. -/
theorem generics_none (h : s.kind ≠ .symbol .lAngle) : generics n g s = .ok .nil s := by
  unfold generics
  refine (bind_run (show acceptSymbol .lAngle s = .ok false s from ?_)).trans rfl
  exact (accept_run (.symbol .lAngle) s).trans (if_neg h)

/-- An enumeration as a statement. -/
theorem stmt_of_enum {form : ItemForm} (hkind : s.kind = .keyword .enum)
    (hrun : enumDecl (n + 1) g s = .ok form s') : ∃ o o',
      stmt (n + 1) g s = .ok (.stmt o (.itemStmt (.item o' .nil [] form)))
        { s' with nextId := s'.nextId + 2 } := by
  obtain ⟨hattrs, hmodifiers⟩ := nothing_ahead (g := g) (n := n) hkind rfl
  have hform : itemForm (n + 1) g false s = .ok form s' := by
    unfold itemForm
    refine (bind_run (kind_run s)).trans ?_
    rw [hkind]
    exact hrun
  let o : Origin :=
    ⟨⟨s'.nextId⟩, { s' with nextId := s'.nextId + 1 : ParserState }.spanFrom s.current.span⟩
  have hitem : item (n + 1) g s =
      .ok (.item o .nil [] form) { s' with nextId := s'.nextId + 1 } := by
    unfold item itemAfter
    refine (bind_run (show here s = .ok s.current.span s from rfl)).trans ?_
    exact (bind_run hattrs).trans ((bind_run hmodifiers).trans ((bind_run hform).trans rfl))
  have hstmtForm : stmtForm (n + 1) g s =
      .ok (.itemStmt (.item o .nil [] form)) { s' with nextId := s'.nextId + 1 } := by
    unfold stmtForm
    refine (bind_run (kind_run s)).trans ?_
    rw [hkind]
    exact bind_run hitem
  have hstmt : stmt (n + 1) g s = (do
      return .stmt ⟨← freshId, ← spanFrom s.current.span⟩ (.itemStmt (.item o .nil [] form)) :
        Parser Stmt) { s' with nextId := s'.nextId + 1 } := by
    change (stmtForm (n + 1) g >>= _) s = _
    exact bind_run hstmtForm
  exact ⟨_, _, hstmt⟩

/-- The members of an enumeration are read behind a semicolon. Without one, there are none. -/
def ReadsMembers (g : Grammar) (s : ParserState) (members : Node (.many .item)) (s' : ParserState) :
    Prop :=
  if s.kind = .symbol .semi then g (.members false) s.advance = .ok members s'
  else members = .nil ∧ s = s'

/-- Behind its name and the brace, an enumeration is read part by part. -/
theorem enumDecl_run {x₀ x₁ x₂ : Token} {rest : List Token} {name : String}
    {es : List (Node .enumEntry)} {ms : Node (.many .item)} {s₁ s₂ : ParserState}
    (hrest : s.rest = x₀ :: x₁ :: x₂ :: rest) (hgroups : s.groups = [])
    (h₀ : x₀.kind = .keyword .enum) (h₁ : x₁.kind = .ident name) (h₂ : x₂.kind = .symbol .lBrace)
    (hentries : (do skipSeparators; enumEntries n g n : Parser (List (Node .enumEntry)))
      (insideBrace s x₂ rest) = .ok es s₁)
    (hmembers : ReadsMembers g s₁ ms s₂)
    (hclose : ∀ {β : Type} (f : Parser β), (closeGroup >>= fun _ => skipTerminators >>= fun _ =>
      discard (expectSymbol .rBrace) >>= fun _ => f) s₂ = f s') :
    enumDecl n g s = .ok (.enumItem ⟨name, x₁.span⟩ .nil (.ofList es) ms) s' := by
  have hplain : ignoresNewlines s.groups = false := by
    rw [hgroups]
    rfl
  -- The keyword, the name and the brace are stepped over.
  have hadvance : s.advance = { s with rest := x₁ :: x₂ :: rest, lastSpan := x₀.span } :=
    ParserState.advance_outside hrest hplain
  have hcurrent : s.advance.current = ⟨.ident name, x₁.span⟩ := by
    rw [hadvance, ← h₁]
    rfl
  have hadvance₂ : s.advance.advance = { s with rest := x₂ :: rest, lastSpan := x₁.span } := by
    rw [hadvance]
    exact ParserState.advance_outside rfl hplain
  have hkind₂ : s.advance.advance.kind = .symbol .lBrace := by
    rw [hadvance₂, ← h₂]
    rfl
  have hinside : insideBrace s.advance.advance x₂ rest = insideBrace s x₂ rest := by
    rw [hadvance₂]
    rfl
  unfold enumDecl
  refine (bind_run (discard_expect ((ParserState.kind_cons hrest).trans h₀))).trans ?_
  refine (bind_run (expectIdent_run hcurrent)).trans ?_
  refine (bind_run (generics_none (by rw [hkind₂]; simp))).trans ?_
  refine (openBrace_run (by rw [hadvance₂]) (by rw [hadvance₂]; exact hgroups) h₂ _).trans ?_
  rw [hinside]
  obtain ⟨_, s₀, hskip, hentries⟩ := bind_ok hentries
  refine (bind_run hskip).trans ((bind_run hentries).trans ?_)
  have haccept := accept_run (.symbol .semi) s₁
  unfold ReadsMembers at hmembers
  by_cases hmark : s₁.kind = .symbol .semi
  · rw [if_pos hmark] at hmembers haccept
    refine (bind_run haccept).trans ((bind_run hmembers).trans ?_)
    exact hclose _
  · rw [if_neg hmark] at hmembers haccept
    obtain ⟨rfl, rfl⟩ := hmembers
    refine (bind_run haccept).trans ?_
    exact hclose _

end Parse

open Parse

/-- What is written of pieces is scanned into their tokens. -/
theorem ScansAs.written {ps : List Piece} (hlegible : ∀ p ∈ ps, p.kind.Legible)
    (hjoined : ps.IsChain Piece.Before) (hplace : Lexer.Place.AdmitsAll ⟨0, false⟩ ps)
    (file : FileId) : ScansAs file (String.ofList (FrontEnd.written ps)) (fused ps) := by
  obtain ⟨ts, span, lines, hlex, hts⟩ := lex_written hlegible hjoined hplace file
  obtain ⟨lexed, hlex', htokens⟩ := (ScansTo.of_lex hlex).1
  obtain rfl := Except.ok.inj (hlex.symm.trans hlex')
  obtain ⟨hfront, -⟩ := List.append_inj' htokens rfl
  exact ⟨_, ⟨_, hlex, htokens⟩, hfront ▸ hts⟩

/-- What stands in front of the entries. -/
def enumFront : List Piece := [⟨.keyword .enum, true⟩, ⟨.ident "E", true⟩, .mark .lBrace]

/-- What may stand in front of a line of entries. -/
inductive EntryFront : List Piece → Prop
  | none : EntryFront []
  | head : EntryFront enumFront

/-- The pieces of a line of entries fit together. -/
theorem line_fits {front ending : List Piece} {row : List (Node .enumEntry)}
    (hfront : EntryFront front) (hrow : ∀ e ∈ row, e.PrintableEntry) (hending : EntryEnd ending) :
    (∀ p ∈ front ++ (rowPieces row ++ ending), p.kind.Legible) ∧
      (front ++ (rowPieces row ++ ending)).IsChain Piece.Before := by
  have hclose : (∀ p ∈ ending, p.kind.Legible) ∧ ending.IsChain Piece.Before ∧
      ∀ p ∈ ending.head?, ∀ q : Piece, q.EndsEntry → q.Before p := by
    cases hending with
    | none => exact ⟨by simp, .nil, by simp⟩
    | semi | brace =>
      refine ⟨List.forall_mem_singleton.2 rfl, .singleton _, ?_⟩
      rintro _ ⟨⟩ q hq
      exact hq.before rfl
  have hline : (∀ p ∈ rowPieces row ++ ending, p.kind.Legible) ∧
      (rowPieces row ++ ending).IsChain Piece.Before := by
    by_cases hnone : row = []
    · subst hnone
      exact ⟨hclose.1, hclose.2.1⟩
    · have hneat := rowPieces_neat hnone hrow
      exact ⟨List.forall_mem_append.2 ⟨hneat.legible, hclose.1⟩, List.isChain_append.2
        ⟨hneat.joined, hclose.2.1, fun p hp q hq => hclose.2.2 q hq p (hneat.last p hp)⟩⟩
  cases hfront with
  | none => exact hline
  | head =>
    have hlegible : ∀ p ∈ enumFront, p.kind.Legible := by
      simp only [enumFront, List.forall_mem_cons]
      exact ⟨by simp [TokenKind.Legible], ⟨rfl, rfl⟩, rfl, by simp⟩
    have hjoined : enumFront.IsChain Piece.Before := by
      simp only [enumFront, List.isChain_cons_cons, List.isChain_singleton, and_true]
      exact ⟨Piece.before_blank rfl, Piece.before_blank rfl⟩
    -- No longer symbol begins with a brace, so anything may stand behind it.
    have hbrace (q : Piece) : Piece.Before (.mark .lBrace) q := by
      refine Or.inl (Or.inr ?_)
      have hnext : Symbol.nextChars .lBrace = [] := by decide
      rw [Option.all_eq_true]
      exact fun c _ => by simp [TokenKind.endsBefore, hnext]
    refine ⟨List.forall_mem_append.2 ⟨hlegible, hline.1⟩,
      List.isChain_append.2 ⟨hjoined, hline.2, ?_⟩⟩
    rintro _ ⟨⟩ q -
    exact hbrace q

/-- A line of entries is scanned as it is written. -/
theorem ScansAs.entries {front ending : List Piece} {row : List (Node .enumEntry)}
    (hfront : EntryFront front) (hrow : ∀ e ∈ row, e.PrintableEntry) (hending : EntryEnd ending)
    (file : FileId) :
    ScansAs file (String.ofList (FrontEnd.written (front ++ (rowPieces row ++ ending))))
      (front.map (·.kind) ++ fused (rowPieces row ++ ending)) := by
  obtain ⟨hlegible, hjoined⟩ := line_fits hfront hrow hending
  have hline (p : Lexer.Place) : p.AdmitsAll (rowPieces row ++ ending) := by
    refine Lexer.Place.admitsAll_append.2 ⟨rowPieces_admits hrow p, ?_⟩
    cases hending with
    | none => trivial
    | semi | brace => exact ⟨trivial, trivial⟩
  have hplace : Lexer.Place.AdmitsAll ⟨0, false⟩ (front ++ (rowPieces row ++ ending)) := by
    cases hfront with
    | none => exact hline _
    | head => exact Lexer.Place.admitsAll_append.2 ⟨⟨trivial, trivial, trivial, trivial⟩, hline _⟩
  have hfused : fused (front ++ (rowPieces row ++ ending)) =
      front.map (·.kind) ++ fused (rowPieces row ++ ending) := by
    cases hfront <;> rfl
  exact hfused ▸ .written hlegible hjoined hplace file

/-- What stands behind the entries: the brace, or a line of its own for each of the members, which
begin behind a semicolon, and for the brace. -/
inductive EnumRest
  | brace
  | below (members : List String)

namespace EnumRest

/-- What stands behind the last entry on its line. -/
def ending : EnumRest → List Piece
  | brace => [.mark .rBrace]
  | below [] => []
  | below (_ :: _) => [.mark .semi]

/-- The lines below. -/
def lines : EnumRest → List String
  | brace => []
  | below members => members ++ ["\x7d"]

/-- The texts of the members. -/
def members : EnumRest → List String
  | brace => []
  | below members => members

theorem ends (rest : EnumRest) : EntryEnd rest.ending := by
  cases rest with
  | brace => exact .brace
  | below members => cases members <;> constructor

end EnumRest

/-- The lines of an enumeration up to its last entries, of which the first line begins with some
pieces. -/
def entryTexts (ending : List Piece) :
    List Piece → List (Node .enumEntry) → List (List (Node .enumEntry)) → String × List String
  | front, row, [] => (String.ofList (written (front ++ (rowPieces row ++ ending))), [])
  | front, row, row' :: rows =>
    let (line, lines) := entryTexts ending [] row' rows
    (String.ofList (written (front ++ (rowPieces row ++ []))), line :: lines)

/-- An enumeration with entries on some lines, the first of which is the line of its name. -/
def enumText (row : List (Node .enumEntry)) (rows : List (List (Node .enumEntry)))
    (rest : EnumRest) : String :=
  let (line, lines) := entryTexts rest.ending enumFront row rows
  stacked line (lines ++ rest.lines)

variable {ending : List Piece} {row : List (Node .enumEntry)} {rows : List (List (Node .enumEntry))}
  {later : List TokenKind}

/-- The lines of entries are scanned one by one. -/
theorem entryTexts_scan {front : List Piece} (hfront : EntryFront front)
    (hrows : ∀ e ∈ (row :: rows).flatten, e.PrintableEntry) (hending : EntryEnd ending)
    (file : FileId) :
    ∃ ks kss, ScansAs file (entryTexts ending front row rows).1 ks ∧
      List.Forall₂ (ScansAs file) (entryTexts ending front row rows).2 kss ∧ ∀ later,
        ks ++ (kss.flatMap (TokenKind.newline :: ·) ++ later) =
          front.map (·.kind) ++ entryLinesKinds ending later row rows := by
  induction rows generalizing front row with
  | nil =>
    rw [List.flatten_singleton] at hrows
    refine ⟨_, [], .entries hfront hrows hending file, .nil, fun later => ?_⟩
    exact List.append_assoc ..
  | cons row' rows ih =>
    rw [List.flatten_cons, List.forall_mem_append] at hrows
    obtain ⟨ks, kss, hline, hlines, hkinds⟩ := ih .none hrows.2
    refine ⟨_, ks :: kss, .entries hfront hrows.1 .none file, .cons hline hlines, fun later => ?_⟩
    have hothers := hkinds later
    rw [List.map_nil, List.nil_append] at hothers
    rw [List.flatMap_cons, List.append_nil, List.cons_append, List.cons_append, List.append_assoc,
      List.append_assoc, hothers]
    rfl

/-- An entry weighs something. -/
theorem Node.weigh_entry_pos (e : Node .enumEntry) : 0 < weigh e.entryPieces := by
  cases e with
  | enumEntry o x form => cases form <;> simp [entryPieces, weigh_cons]

/-- There are no fewer tokens than the entries of a line weigh. -/
theorem weigh_row (row : List (Node .enumEntry)) (ending : List Piece) :
    row.length ≤ (fused (rowPieces row ++ ending)).length ∧
      ∀ e ∈ row, weigh e.entryPieces ≤ (fused (rowPieces row ++ ending)).length := by
  have hfused := countP_le_fused (rowPieces row ++ ending)
  rw [List.map_append, List.countP_append] at hfused
  have hrow : weigh (rowPieces row) ≤ (fused (rowPieces row ++ ending)).length :=
    (Nat.le_add_right _ _).trans hfused
  refine ⟨?_, fun e he => (weigh_listed (List.mem_map_of_mem he)).trans hrow⟩
  have hlength : (row.map Node.entryPieces).length ≤ weigh (rowPieces row) := by
    refine length_le_weigh fun ps hps => ?_
    obtain ⟨e, -, rfl⟩ := List.mem_map.1 hps
    exact e.weigh_entry_pos
  rw [List.length_map] at hlength
  exact hlength.trans hrow

/-- Nor than those of several lines. -/
theorem weigh_lines (ending : List Piece) (later : List TokenKind) (row : List (Node .enumEntry))
    (rows : List (List (Node .enumEntry))) :
    (row :: rows).flatten.length + later.length ≤ (entryLinesKinds ending later row rows).length ∧
      ∀ e ∈ (row :: rows).flatten,
        weigh e.entryPieces ≤ (entryLinesKinds ending later row rows).length := by
  induction rows generalizing row with
  | nil =>
    obtain ⟨hlength, hweigh⟩ := weigh_row row ending
    unfold entryLinesKinds
    rw [List.flatten_singleton, List.length_append]
    refine ⟨by omega, fun e he => ?_⟩
    have := hweigh e he
    omega
  | cons row' rows ih =>
    obtain ⟨hlength, hweigh⟩ := weigh_row row []
    obtain ⟨hlengths, hweighs⟩ := ih row'
    rw [List.append_nil] at hlength hweigh
    unfold entryLinesKinds
    rw [List.flatten_cons, List.length_append, List.length_append, List.length_cons]
    refine ⟨by omega, fun e he => ?_⟩
    rcases List.mem_append.1 he with he | he
    · have := hweigh e he
      omega
    · have := hweighs e he
      omega

/-- Where there are entries, or the brace comes first, no semicolon does. -/
theorem entryLines_skipped (hending : EntryEnd ending) (h : (row :: rows).flatten ≠ [] ∨ ∃ ks,
      (ending.map (·.kind) ++ later).dropWhile separatesEntries = .symbol .rBrace :: ks) :
    ∃ k ks, (entryLinesKinds ending later row rows).dropWhile separatesEntries = k :: ks ∧
      k ≠ .newline ∧ k ≠ .symbol .semi ∧ k ≠ .symbol .comma := by
  have hfirst {row : List (Node .enumEntry)} (hrow : row ≠ []) (ps : List Piece)
      (ks : List TokenKind) : ∃ k ks',
        (fused (rowPieces row ++ ps) ++ ks).dropWhile separatesEntries = k :: ks' ∧
          k ≠ .newline ∧ k ≠ .symbol .semi ∧ k ≠ .symbol .comma := by
    obtain ⟨name, ks', hname⟩ := fused_row hrow ps
    rw [hname, List.cons_append]
    exact ⟨_, _, List.dropWhile_cons_of_neg (by simp [separatesEntries]), by simp, by simp, by simp⟩
  induction rows generalizing row with
  | nil =>
    by_cases hrow : row = []
    · subst hrow
      obtain ⟨ks, hbrace⟩ := h.resolve_left (by simp)
      rw [← hending.fused_eq] at hbrace
      exact ⟨_, ks, hbrace, by simp, by simp, by simp⟩
    · exact hfirst hrow ending _
  | cons row' rows ih =>
    by_cases hrow : row = []
    · subst hrow
      exact ih (h.imp_left fun hsome => by simpa using hsome)
    · have := hfirst hrow [] (.newline :: entryLinesKinds ending later row' rows)
      rwa [List.append_nil] at this

/-- The entries are read behind the separators in front of them. -/
theorem InBlock.skip_entries {t : ParserState} {n : Nat} (h : InBlock false 0 t.rest t)
    (hrows : ∀ e ∈ (row :: rows).flatten, e.PrintableEntry) (hending : EntryEnd ending)
    (hrest : t.rest.map (·.kind) = entryLinesKinds ending later row rows)
    (hlater : ∀ v, v.map Token.kind = later → Seam v)
    (hlast : ∀ k ∈ ((ending.map (·.kind) ++ later).dropWhile separatesEntries).head?,
      k.isIdent = false)
    (hsome : (row :: rows).flatten ≠ [] ∨ ∃ ks,
      (ending.map (·.kind) ++ later).dropWhile separatesEntries = .symbol .rBrace :: ks)
    (hn : (entryLinesKinds ending later row rows).length < n + 1) :
    ∃ xs t', (do skipSeparators; enumEntries (n + 1) (grammar (n + 1)) (n + 1) :
        Parser (List (Node .enumEntry))) t = .ok xs t' ∧
      Likeness.bare.Alike (row :: rows).flatten xs ∧ InBlock false 0 t'.rest t' ∧
      t'.rest.map (·.kind) = (ending.map (·.kind) ++ later).dropWhile separatesEntries := by
  obtain ⟨hlength, hweigh⟩ := weigh_lines ending later row rows
  obtain ⟨xs, t', hrun, hxs, hthere, hkinds⟩ := h.entries (n := n) (k := n + 1) hrows
    (fun e he => Nat.lt_of_le_of_lt (hweigh e he) hn) hending hrest hlater hlast (by omega)
  refine ⟨xs, t', ?_, hxs, hthere, hkinds⟩
  -- Only the separators of entries are skipped.
  have hskip : t.skipWhile (fun k => k = .newline ∨ k = .symbol .semi ∨ k = .symbol .comma) =
      t.skipWhile separatesEntries := by
    obtain ⟨k, ks, hfirst, hnewline, hsemi, hcomma⟩ := entryLines_skipped hending hsome
    refine ParserState.skipWhile_more (fun k hk => ?_) ?_ (by rw [h.groups]; rfl)
    · rw [separatesEntries, decide_eq_true_iff] at hk
      rcases hk with rfl | rfl <;> rfl
    · have hrest' : (t.skipWhile separatesEntries).rest.map (·.kind) = k :: ks := by
        rw [← hfirst, ← hrest, List.dropWhile_map]
        rfl
      obtain ⟨x, xs, hx, rfl, -⟩ := List.map_eq_cons_iff.1 hrest'
      rw [ParserState.kind_cons hx]
      simp [hnewline, hsemi, hcomma]
  rw [← hskip] at hrun
  exact (bind_run (show skipSeparators t = .ok () _ from rfl)).trans hrun

/-- An enumeration up to likeness. -/
def enumItem (es : List (Node .enumEntry)) (xs : List Item) : Stmt :=
  .stmt default (.itemStmt (.item default .nil []
    (.enumItem ⟨"E", default⟩ .nil (.ofList es) (.ofList xs))))

/-- What is read of an enumeration is one like it, if its parts are. -/
theorem alike_enumItem {es es' : List (Node .enumEntry)} {xs xs' : List Item}
    (hes : Likeness.bare.Alike es es') (hxs : Likeness.bare.Alike xs xs') (o o' : Origin)
    (span : Span) : Likeness.bare.Alike (enumItem es xs) (.stmt o (.itemStmt (.item o' .nil []
      (.enumItem ⟨"E", span⟩ .nil (.ofList es') (.ofList xs'))))) := by
  have hform : Likeness.bare.Alike (Node.enumItem ⟨"E", default⟩ .nil (.ofList es) (.ofList xs))
      (.enumItem ⟨"E", span⟩ .nil (.ofList es') (.ofList xs')) :=
    (congr (congrArg (Node.enumItem ⟨"E", default⟩ .nil) hes.ofList) hxs.ofList :)
  exact (congrArg (fun form => Node.stmt default (.itemStmt (.item default .nil [] form))) hform :)

/-- The kinds of the tokens below the last line of entries, and the members they are read to. -/
inductive EnumRest.Tokens (file : FileId) : EnumRest → List Item → List TokenKind → Prop
  | brace : Tokens file .brace [] []
  | alone : Tokens file (.below []) [] [.newline, .symbol .rBrace]
  | below {member : String} {members : List String} {xs : List Item} {size : Nat}
    {later : List TokenKind} (lines : FunctionLines file false xs size later)
    (hsize : later.length = size + 1) :
    Tokens file (.below (member :: members)) xs (.newline :: later)

namespace EnumRest

variable {file : FileId} {rest : EnumRest} {xs : List Item}

/-- They begin a line, if there are any. -/
theorem Tokens.seam (h : rest.Tokens file xs later) (v : List Token)
    (hv : v.map Token.kind = later) : Seam v := by
  have hline {size : Nat} {later : List TokenKind} (lines : FunctionLines file false xs size later)
      (hv : v.map Token.kind = .newline :: later) : Seam v := by
    obtain ⟨y, v, rfl, hy, hv⟩ := List.map_eq_cons_iff.1 hv
    exact .line hy (lines.fresh hv)
  cases h with
  | brace =>
    obtain rfl := List.map_eq_nil_iff.1 hv
    exact .none
  | alone => exact hline (.close false) hv
  | below lines _ => exact hline lines hv

/-- The lines below the entries are scanned into such tokens. -/
theorem tokens (hmembers : List.Forall₂ (ReadsFunction file) rest.members xs)
    (hwhole : ∀ text ∈ rest.members.dropLast, endsWhole file text = true) :
    ∃ kss, List.Forall₂ (ScansAs file) rest.lines kss ∧
      rest.Tokens file xs (kss.flatMap (TokenKind.newline :: ·)) := by
  cases rest with
  | brace =>
    cases hmembers
    exact ⟨[], .nil, .brace⟩
  | below members =>
    have hhalf : members = [] ∨ false = false := Or.inr rfl
    obtain ⟨kss, size, hscans, hlines, hsize⟩ := FunctionLines.of_reads hmembers hwhole hhalf
    have hbrace : ScansAs file "\x7d" [.symbol .rBrace] := ⟨_, (scansTo_brace file).2, rfl⟩
    refine ⟨kss ++ [[.symbol .rBrace]], List.rel_append hscans (.cons hbrace .nil), ?_⟩
    rw [closedKinds_eq]
    cases hmembers with
    | nil =>
      cases hscans
      exact .alone
    | cons hfirst hothers =>
      refine .below hlines ?_
      rw [closedKinds, List.length_append, hsize]
      rfl

end EnumRest

/-- Without members the brace is at hand behind the entries. -/
theorem InBlock.no_members {t : ParserState} {g : Grammar} (h : InBlock false 0 t.rest t)
    (hbrace : t.rest.map (·.kind) = [.symbol .rBrace]) :
    ReadsMembers g t .nil t ∧ ∃ mark : Token, mark.kind = .symbol .rBrace ∧
      InBlock false 0 [mark] t := by
  obtain ⟨mark, hmark, hkind⟩ := List.map_eq_singleton_iff.1 hbrace
  rw [hmark] at h
  have hother : t.kind ≠ .symbol .semi := by
    rw [h.kind, hkind]
    simp
  refine ⟨?_, mark, hkind, h⟩
  rw [ReadsMembers, if_neg hother]
  exact ⟨rfl, rfl⟩

/-- Behind the opening brace, the entries and the members of an enumeration are read up to the brace
that closes it. -/
theorem InBlock.enumeration {file : FileId} {rest : EnumRest} {xs : List Item} {t : ParserState}
    {n : Nat} (h : InBlock false 0 t.rest t) (hrows : ∀ e ∈ (row :: rows).flatten, e.PrintableEntry)
    (hsome : (row :: rows).flatten ≠ [] ∨ rest.members = [])
    (hkinds : t.rest.map (·.kind) = entryLinesKinds rest.ending later row rows)
    (hrest : rest.Tokens file xs later)
    (hn : (entryLinesKinds rest.ending later row rows).length < n + 1) :
    ∃ es zs s s' half, ∃ mark : Token,
      (do skipSeparators; enumEntries (n + 1) (grammar (n + 1)) (n + 1) :
        Parser (List (Node .enumEntry))) t = .ok es s ∧
      Likeness.bare.Alike (row :: rows).flatten es ∧
      ReadsMembers (grammar (n + 1)) s (.ofList zs) s' ∧ Likeness.bare.Alike xs zs ∧
      mark.kind = .symbol .rBrace ∧ InBlock half 0 [mark] s' := by
  obtain ⟨hlength, -⟩ := weigh_lines rest.ending later row rows
  have hread := h.skip_entries (n := n) hrows rest.ends hkinds hrest.seam
  cases hrest with
  | brace | alone =>
    obtain ⟨es, s, hentries, hes, hs, hbrace⟩ := hread (by rintro _ ⟨⟩; rfl) (Or.inr ⟨[], rfl⟩) hn
    obtain ⟨hnone, mark, hmark, hlast⟩ := hs.no_members hbrace
    exact ⟨es, [], s, s, false, mark, hentries, hes, hnone, rfl, hmark, hlast⟩
  | below lines hsize =>
    obtain ⟨es, s, hentries, hes, hs, hkinds⟩ := hread (by rintro _ ⟨⟩; rfl)
      (Or.inl (hsome.resolve_right (List.cons_ne_nil _ _))) hn
    obtain ⟨semi, _, hsemi, hsemiKind, hkinds⟩ := List.map_eq_cons_iff.1 hkinds
    obtain ⟨y, v, rfl, hy, hv⟩ := List.map_eq_cons_iff.1 hkinds
    rw [hsemi] at hs
    rw [List.length_cons] at hlength
    obtain ⟨zs, s', mark, half, hrun, hzs, hmark, hlast⟩ :=
      lines.members (n := n) hs.stepped hy hv (by omega)
    have hmembers : ReadsMembers (grammar (n + 1)) s (.ofList zs) s' := by
      rw [ReadsMembers, if_pos (hs.kind.trans hsemiKind)]
      exact hrun
    exact ⟨es, zs, s, s', half, mark, hentries, hes, hmembers, hzs, hmark, hlast⟩

/-- The tokens of an enumeration are read as its entries and members. -/
theorem parse_enumeration {file : FileId} {tokens : List Token} {rest : EnumRest} {xs : List Item}
    (hrows : ∀ e ∈ (row :: rows).flatten, e.PrintableEntry)
    (hsome : (row :: rows).flatten ≠ [] ∨ rest.members = [])
    (hkinds : (ParserState.start file tokens).rest.map (·.kind) = .keyword .enum :: .ident "E" ::
      .symbol .lBrace :: entryLinesKinds rest.ending later row rows)
    (hlength : tokens.length = (ParserState.start file tokens).rest.length + 1)
    (hrest : rest.Tokens file xs later) :
    ∃ q, parse file tokens = .ok q ∧ Diagnostic.anyError q.diagnostics = false ∧
      Likeness.bare.Alike [enumItem (row :: rows).flatten xs] q.stmts := by
  let s := ParserState.start file tokens
  obtain ⟨n, hn⟩ : ∃ n, tokens.length = n + 1 := ⟨tokens.length - 1, by omega⟩
  obtain ⟨x₀, _, htokens, h₀, htail⟩ := List.map_eq_cons_iff.1 hkinds
  obtain ⟨x₁, _, rfl, h₁, htail⟩ := List.map_eq_cons_iff.1 htail
  obtain ⟨x₂, inside, rfl, h₂, htail⟩ := List.map_eq_cons_iff.1 htail
  have sound : s.Sound := ParserState.start_sound file tokens
  have hthere : InBlock false 0 (insideBrace s x₂ inside).rest (insideBrace s x₂ inside) := by
    refine ⟨⟨sound.final, fun x hx => sound.rest x ?_⟩, rfl, rfl, rfl, rfl, rfl⟩
    rw [htokens]
    exact List.mem_cons_of_mem _ (List.mem_cons_of_mem _ (List.mem_cons_of_mem _ hx))
  have hcount := congrArg List.length hkinds
  rw [List.length_map] at hcount
  simp only [List.length_cons] at hcount
  obtain ⟨es, zs, s₁, s₂, half, mark, hentries, hes, hmembers, hzs, hmark, hlast⟩ :=
    hthere.enumeration (n := n + 1) hrows hsome htail hrest (by omega)
  -- Behind the last brace, what was read makes up the enumeration.
  obtain ⟨s₃, hend, hfree, hclose⟩ := hlast.close_enum hmark
  have hdecl := enumDecl_run htokens rfl h₀ h₁ h₂ hentries hmembers hclose
  obtain ⟨o, o', hstmt⟩ := stmt_of_enum ((ParserState.kind_cons htokens).trans h₀) hdecl
  have hfew : s₃.errorCount < maxErrors := by
    rw [hfree]
    decide
  obtain ⟨q, hparse, hq, hdiagnostics⟩ := parse_single (n := n) htokens (by rw [h₀]; simp)
    (by rw [h₀]; decide) hn hstmt ⟨hend.rest, hend.final⟩ hfew
  have hnone : s₃.ErrorFree := (ParserState.errorFree_iff s₃).2 hfree
  refine ⟨q, hparse, hdiagnostics ▸ hnone, ?_⟩
  rw [hq]
  exact (alike_enumItem hes hzs o o' x₁.span).cons Likeness.alike_nil

/-- Enumerations are read back from their texts, where there are entries in front of the members and
no member in front of another one leaves half of a `>>` behind: the one statement is the enumeration
with these entries and members, up to numbers and places, and no error is reported. -/
theorem written_enum_restored {file : FileId} {rest : EnumRest} {xs : List Item}
    (hrows : ∀ e ∈ (row :: rows).flatten, e.PrintableEntry)
    (hmembers : List.Forall₂ (ReadsFunction file) rest.members xs)
    (hsome : (row :: rows).flatten ≠ [] ∨ rest.members = [])
    (hwhole : ∀ text ∈ rest.members.dropLast, endsWhole file text = true) :
    ∃ lexed q, lex file (enumText row rows rest) = .ok lexed ∧ parse file lexed.tokens = .ok q ∧
      Diagnostic.anyError q.diagnostics = false ∧
      Likeness.bare.Alike [enumItem (row :: rows).flatten xs] q.stmts := by
  obtain ⟨ks, kss, hline, hlines, hkinds⟩ := entryTexts_scan .head hrows rest.ends file
  obtain ⟨kss', hbelow, htokens⟩ := EnumRest.tokens hmembers hwhole
  obtain ⟨tokens, hscans, hall⟩ := hline.stacked (List.rel_append hlines hbelow)
  obtain ⟨lexed, hlex, hlength, hrest, -⟩ := hscans.start
  have hstart : (ParserState.start file lexed.tokens).rest.map (·.kind) = .keyword .enum ::
      .ident "E" :: .symbol .lBrace ::
        entryLinesKinds rest.ending (kss'.flatMap (TokenKind.newline :: ·)) row rows := by
    rw [hrest, hall, stackedKinds, List.flatMap_append, hkinds]
    rfl
  obtain ⟨q, hparse, free, hstmts⟩ :=
    parse_enumeration hrows hsome hstart (by rw [hrest, hlength]) htokens
  exact ⟨lexed, q, hlex, hparse, free, hstmts⟩

/-- The function a text is read to alone. -/
def functionIn? (file : FileId) (text : String) : Option Item := do
  let lexed ← (lex file text).toOption
  let p ← (parse file lexed.tokens).toOption
  match p.stmts with
  | [.stmt _ (.itemStmt x)] =>
    if x.isFunction && !Diagnostic.anyError p.diagnostics then some x else none
  | _ => none

theorem readsFunction_of_functionIn? {file : FileId} {text : String} {x : Item}
    (h : functionIn? file text = some x) : ReadsFunction file text x := by
  unfold functionIn? at h
  obtain ⟨lexed, hlex, h⟩ := Option.bind_eq_some_iff.1 h
  obtain ⟨p, hparse, h⟩ := Option.bind_eq_some_iff.1 h
  split at h
  case h_1 o y hstmts =>
    obtain ⟨hgood, hx⟩ := Option.ite_none_right_eq_some.1 h
    obtain rfl := Option.some.inj hx
    rw [Bool.and_eq_true, Bool.not_eq_true'] at hgood
    exact ⟨hgood.1, lexed, p, o, eq_ok_of_toOption hlex, eq_ok_of_toOption hparse, hgood.2, hstmts⟩
  case h_2 => cases h

/-- An entry of each form. -/
def mixedEntries : List (Node .enumEntry) × List (Node .enumEntry) :=
  let entry (name : String) : Node .enumEntryForm → Node .enumEntry :=
    .enumEntry default ⟨name, default⟩
  ([entry "A" .bareEntry, entry "B" (.valueEntry (.expr default (.literal ⟨.form .decimal, "1"⟩)))],
    [entry "C" (.tupleEntry (.ofList [intType])),
      entry "D" (.structEntry (.ofList [.entryField ⟨"x", default⟩ intType]))])

/-- They stand on two lines, above two functions. -/
theorem written_enum_restored_mixed :
    enumText mixedEntries.1 [mixedEntries.2] (.below ["func f(): int => 1", "func g() \x7b\x7d"]) =
      "enum E \x7bA, B = 1\nC(int), D \x7b x: int \x7d;\nfunc f(): int => 1\nfunc g() \x7b\x7d\n\x7d" ∧
    ∃ xs, List.Forall₂ (ReadsFunction ⟨0⟩) ["func f(): int => 1", "func g() \x7b\x7d"] xs ∧
      ∃ lexed q, lex ⟨0⟩ (enumText mixedEntries.1 [mixedEntries.2]
          (.below ["func f(): int => 1", "func g() \x7b\x7d"])) = .ok lexed ∧
        parse ⟨0⟩ lexed.tokens = .ok q ∧ Diagnostic.anyError q.diagnostics = false ∧
        Likeness.bare.Alike [enumItem (mixedEntries.1 ++ mixedEntries.2) xs] q.stmts := by
  obtain ⟨f, hf⟩ := Option.isSome_iff_exists.1
    (show (functionIn? ⟨0⟩ "func f(): int => 1").isSome = true by decide +kernel)
  obtain ⟨g, hg⟩ := Option.isSome_iff_exists.1
    (show (functionIn? ⟨0⟩ "func g() \x7b\x7d").isSome = true by decide +kernel)
  have hmembers : List.Forall₂ (ReadsFunction ⟨0⟩)
    ["func f(): int => 1", "func g() \x7b\x7d"] [f, g] :=
    .cons (readsFunction_of_functionIn? hf) (.cons (readsFunction_of_functionIn? hg) .nil)
  have hone : Literal.Written ⟨.form .decimal, "1"⟩ := ⟨rfl, rfl, '1', [], rfl, Or.inl rfl⟩
  have hentries : ∀ e ∈ [mixedEntries.1, mixedEntries.2].flatten, e.PrintableEntry := by
    simp only [mixedEntries, List.flatten_cons, List.flatten_nil, List.append_nil, List.cons_append,
      List.nil_append, List.forall_mem_cons]
    exact ⟨.bare ⟨rfl, rfl⟩, .value ⟨rfl, rfl⟩ hone,
      .tuple ⟨rfl, rfl⟩ (.cons intType.isMissing_type intType_printable .nil),
      .fields ⟨rfl, rfl⟩ (List.forall_mem_singleton.2 (.field ⟨rfl, rfl⟩ intType_printable)),
      by simp⟩
  exact ⟨by decide +kernel, [f, g], hmembers,
    written_enum_restored hentries hmembers (Or.inl (by simp [mixedEntries])) (by decide +kernel)⟩

/-- Without entries the semicolon in front of the members is skipped, and the brace is missed. -/
theorem written_enum_memberless : (functionIn? ⟨0⟩ "func f() \x7b\x7d").isSome = true ∧
    enumText [] [] (.below ["func f() \x7b\x7d"]) = "enum E \x7b;\nfunc f() \x7b\x7d\n\x7d" ∧
    readsClean ⟨0⟩ "enum E \x7b;\nfunc f() \x7b\x7d\n\x7d" = false := by
  decide +kernel

end FrontEnd
