import FrontEnd.Proofs.Printing.Pieces
import FrontEnd.Syntax.Tree

/-!
# Types and generic parameters that are written out

The canonical text of types and of lists of generic parameters: no blanks stand at angle brackets,
and a single item of a tuple has a comma behind it. The pieces fit together without further blanks.
-/

namespace FrontEnd

/-- A symbol. -/
abbrev Piece.mark (mark : Symbol) : Piece := ⟨.symbol mark, false⟩

/-- A symbol with a blank behind it. -/
abbrev Piece.wide (mark : Symbol) : Piece := ⟨.symbol mark, true⟩

/-- Pieces with a blank behind them. -/
def spaced (ps : List Piece) : List Piece :=
  ps.dropLast ++ (ps.getLast?.map fun p => { p with blank := true }).toList

/-- What stands between the nodes of a sequence. -/
def Category.separator : Category → Piece
  | segment => .mark .path
  | _ => .wide .comma

/-- The token of a literal. -/
def Literal.token (l : Literal) : TokenKind :=
  match l.kind with
  | .form form => .literal form l.value
  | .bool => .keyword (if l.value = "true" then .true_ else .false_)

/-- Literals that can be written. -/
def Literal.Written (l : Literal) : Prop := Literal.ofToken? l.token = some l ∧ l.token.Legible

/-- Whether a literal is an integer. -/
def Literal.isInteger (l : Literal) : Bool :=
  l.kind = .form .decimal ∨ l.kind = .form .binary ∨ l.kind = .form .octal ∨
    l.kind = .form .hexadecimal

namespace Node

/-- Whether no node is there. -/
def isMissing : {c : Category} → Node c → Bool
  | _, nil => true
  | _, absent => true
  | _, _ => false

/-- Whether a sequence is a single node. -/
def isSingle : {c : Category} → Node c → Bool
  | _, cons _ tail => tail.isMissing
  | _, _ => false

/-- What a generic parameter begins with. -/
def namePieces (name : String) : Node .genericForm → List Piece
  | lifetimeGeneric => [⟨.lifetime name, false⟩]
  | typeGeneric _ => [⟨.ident name, false⟩]
  | constGeneric _ _ => [⟨.keyword .const, true⟩, ⟨.ident name, false⟩]

/-- The pieces of a type, of a generic parameter or of parts of them. -/
def pieces : {c : Category} → Node c → List Piece
  | _, @cons c head tail =>
    head.pieces ++ if tail.isMissing then [] else c.separator :: tail.pieces
  | _, present node => node.pieces
  | _, expr _ form => form.pieces
  | _, literal l => [⟨l.token, false⟩]
  | _, path global segments _ _ => (if global then [.mark .path] else []) ++ segments.pieces
  | _, segment ident args =>
    ⟨.ident ident.name, false⟩ ::
      if args.isMissing then [] else .mark .lAngle :: (args.pieces ++ [.mark .rAngle])
  | _, type _ form => form.pieces
  | _, pathType p => p.pieces
  | _, tupleType items =>
    .mark .lParen ::
      (items.pieces ++ if items.isSingle then [.mark .comma, .mark .rParen] else [.mark .rParen])
  | _, funcType params result =>
    .mark .lParen :: (params.pieces ++ .wide .rParen :: .wide .arrow :: result.pieces)
  | _, arrayType element size =>
    .mark .lBracket :: (element.pieces ++ .wide .semi :: (size.pieces ++ [.mark .rBracket]))
  | _, sliceType element => .mark .lBracket :: (element.pieces ++ [.mark .rBracket])
  | _, parenType inner => .mark .lParen :: (inner.pieces ++ [.mark .rParen])
  | _, unitType => [.mark .lParen, .mark .rParen]
  | _, generic _ x form => form.namePieces x.name ++ form.pieces
  | _, typeGeneric bound => if bound.isMissing then [] else .wide .colon :: bound.pieces
  | _, constGeneric t default =>
    .wide .colon ::
      if default.isMissing then t.pieces else spaced t.pieces ++ .wide .assign :: default.pieces
  | _, _ => []

/-- The text of a node. -/
def text {c : Category} (n : Node c) : String := String.ofList (written n.pieces)

/-- The kinds of the tokens of a node. -/
def kinds {c : Category} (n : Node c) : List TokenKind := n.pieces.map (·.kind)

/-- Types that can be written: names are names, sequences that need a node have one and the size of
an array is an integer. -/
inductive Printable : {c : Category} → Node c → Prop
  | nil {c : Category} : Printable (nil : Node (.many c))
  | cons {c : Category} {head : Node c} {tail : Node (.many c)} (hthere : head.isMissing = false)
    (hhead : head.Printable) (htail : tail.Printable) : Printable (.cons head tail)
  | segment {ident : Ident} {args : Node (.many .type)}
      (hname : (TokenKind.ident ident.name).Legible)
    (hargs : args.Printable) : Printable (.segment ident args)
  | path {global : Bool} {first : Node .segment} {more : Node (.many .segment)} {span : Span}
    (hsegments : (Node.cons first more).Printable) :
    Printable (.path global (.cons first more) span .empty)
  | type {origin : Origin} {form : TypeForm} (hform : form.Printable) :
      Printable (.type origin form)
  | pathType {p : Path} (hpath : p.Printable) : Printable (.pathType p)
  | tupleType {first : TypeExpr} {more : Node (.many .type)}
    (hitems : (Node.cons first more).Printable) : Printable (.tupleType (.cons first more))
  | funcType {params : Node (.many .type)} {result : TypeExpr} (hparams : params.Printable)
    (hresult : result.Printable) : Printable (.funcType params result)
  | arrayType {item : TypeExpr} {origin : Origin} {l : Literal} (hitem : item.Printable)
    (hinteger : l.isInteger = true) (hsize : l.Written) :
    Printable (.arrayType item (.expr origin (.literal l)))
  | sliceType {item : TypeExpr} (hitem : item.Printable) : Printable (.sliceType item)
  | parenType {inner : TypeExpr} (hinner : inner.Printable) : Printable (.parenType inner)
  | unitType : Printable .unitType

end Node

/-- Kinds of tokens that types and generic parameters begin with. -/
def TokenKind.beginsType : TokenKind → Bool
  | .ident _ | .lifetime _ | .keyword .const | .symbol .path | .symbol .lParen
  | .symbol .lBracket => true
  | _ => false

/-- Kinds of tokens that they end with. -/
def TokenKind.endsType : TokenKind → Bool
  | .ident _ | .lifetime _ | .literal _ _ | .keyword .true_ | .keyword .false_ | .symbol .rAngle
  | .symbol .rParen | .symbol .rBracket => true
  | _ => false

/-- Kinds of tokens that types are made of: none of them is a line break or depends on what stands
in front of it. -/
def TokenKind.calm : TokenKind → Bool
  | .newline | .lifetime _ | .literal .single _ | .symbol .shr => false
  | _ => true

theorem TokenKind.ne_of_calm {k : TokenKind} (h : k.calm = true) :
    k ≠ .symbol .shr ∧ k ≠ .newline := by
  constructor <;> (rintro rfl; cases h)

/-- They may stand anywhere. -/
theorem Lexer.Place.admitsAll_of_calm {p : Place} {ps : List Piece}
    (h : ∀ q ∈ ps, q.kind.calm = true) : p.AdmitsAll ps := by
  induction ps generalizing p with
  | nil => trivial
  | cons q ps ih =>
    obtain ⟨hq, hps⟩ := List.forall_mem_cons.1 h
    refine ⟨?_, ih hps⟩
    generalize q.kind = k at hq
    unfold Admits
    split
    · cases hq
    · cases hq
    · trivial

/-- Symbols that stand in front of types. -/
def Symbol.leads (mark : Symbol) : Bool :=
  mark = .lAngle ∨ mark = .lParen ∨ mark = .lBracket ∨ mark = .path

/-- Symbols that stand behind types. -/
def Symbol.trails (mark : Symbol) : Bool :=
  mark = .rAngle ∨ mark = .rParen ∨ mark = .rBracket ∨ mark = .path ∨ mark = .comma ∨
    mark = .semi ∨ mark = .lAngle ∨ mark = .colon ∨ mark = .rBrace

namespace Piece

/-- Pieces that types and generic parameters begin with. -/
def Opens (p : Piece) : Prop := p.kind.beginsType = true

/-- Pieces that they end with. -/
def Ends (p : Piece) : Prop := p.kind.endsType = true

variable {p q : Piece} {mark : Symbol}

theorem before_blank (h : p.blank = true) : p.Before q := Or.inl (Or.inl h)

/-- A type may stand behind the symbols in front of types. -/
theorem leads_before {blank : Bool} (hmark : mark.leads = true) (hopens : q.Opens)
    (hlegible : q.kind.Legible) : Before ⟨.symbol mark, blank⟩ q := by
  have hnext : mark.nextChars.all (fun c => Lexer.isNameStart c = false ∧ c ≠ '\x27' ∧ c ≠ ':' ∧
      c ≠ '(' ∧ c ≠ '[') = true := by
    simp only [Symbol.leads, decide_eq_true_eq] at hmark
    rcases hmark with rfl | rfl | rfl | rfl <;> decide
  refine Or.inl (Or.inr ?_)
  rw [Option.all_eq_true]
  intro c hc
  simp only [TokenKind.endsBefore, Bool.not_eq_true', List.contains_eq_mem, decide_eq_false_iff_not]
  intro hmem
  obtain ⟨hname, hquote, hcolon, hparen, hbracket⟩ :=
    of_decide_eq_true (List.all_eq_true.1 hnext c hmem)
  obtain ⟨kind, blank'⟩ := q
  unfold Opens TokenKind.beginsType at hopens
  dsimp only at hopens hlegible hc
  split at hopens
  · rename_i name
    have hstart := hlegible.1
    change c ∈ name.toList.head? at hc
    simp only [Lexer.isName, Bool.and_eq_true] at hstart
    rw [hc, Option.any_some, hname] at hstart
    exact Bool.false_ne_true hstart.1
  · exact hquote (by simpa [TokenKind.source, TokenKind.text] using hc.symm)
  · obtain rfl : 'c' = c := Option.some.inj hc
    cases hname
  · exact hcolon (Option.some.inj hc).symm
  · exact hparen (Option.some.inj hc).symm
  · exact hbracket (Option.some.inj hc).symm
  · cases hopens

/-- The symbols behind types may stand there. -/
theorem ends_before {blank : Bool} (hends : p.Ends) (hmark : mark.trails = true) :
    p.Before ⟨.symbol mark, blank⟩ := by
  obtain ⟨c, hc, hpart, hquest, hquote, hpoint⟩ : ∃ c, mark.spelling.toList.head? = some c ∧
      Lexer.isNamePart c = false ∧ c ≠ '?' ∧ c ≠ '\x27' ∧ c ≠ '.' := by
    simp only [Symbol.trails, decide_eq_true_eq] at hmark
    rcases hmark with rfl | rfl | rfl | rfl | rfl | rfl | rfl | rfl | rfl <;>
      exact ⟨_, rfl, by decide⟩
  obtain ⟨kind, blank'⟩ := p
  have hplain (h : kind.endsBefore c = true) :
      (Piece.mk kind blank').Before ⟨.symbol mark, blank⟩ := by
    refine Or.inl (Or.inr ?_)
    change mark.spelling.toList.head?.all kind.endsBefore = true
    rwa [hc]
  unfold Ends TokenKind.endsType at hends
  dsimp only at hends
  split at hends
  case h_3 form lexeme =>
    cases form <;> exact hplain (by simp [TokenKind.endsBefore, hpart, hpoint])
  case h_6 =>
    by_cases hclose : mark = .rAngle
    · exact Or.inr ⟨rfl, congrArg _ hclose⟩
    · have hnext : c ∉ Symbol.nextChars .rAngle := by
        simp only [Symbol.trails, hclose, false_or, decide_eq_true_eq] at hmark
        rcases hmark with rfl | rfl | rfl | rfl | rfl | rfl | rfl | rfl <;>
          obtain rfl := Option.some.inj hc <;> decide
      exact hplain (by simpa [TokenKind.endsBefore] using hnext)
  case h_7 =>
    have hnone : Symbol.nextChars .rParen = [] := by decide
    exact hplain (by simp [TokenKind.endsBefore, hnone])
  case h_8 =>
    have hnone : Symbol.nextChars .rBracket = [] := by decide
    exact hplain (by simp [TokenKind.endsBefore, hnone])
  case h_9 => cases hends
  all_goals exact hplain (by simp [TokenKind.endsBefore, hpart, hquest, hquote])

end Piece

/-- Literals end types and parameters. -/
theorem Literal.Written.ends {l : Literal} (h : l.Written) : l.token.endsType = true := by
  obtain ⟨hl, -⟩ := h
  generalize l.token = k at hl
  unfold Literal.ofToken? at hl
  split at hl
  · rfl
  · rfl
  · rfl
  · cases hl

namespace Neat

variable {First Last : Piece → Prop} {ps qs : List Piece} {mark : Symbol} {blank : Bool}

/-- A name. -/
theorem ident {name : String} (h : (TokenKind.ident name).Legible) :
    Neat Piece.Opens Piece.Ends [⟨.ident name, false⟩] := single h rfl rfl

/-- A literal. -/
theorem literal {l : Literal} (h : l.Written) :
    Neat (fun _ => True) Piece.Ends [⟨l.token, false⟩] := single h.2 trivial h.ends

/-- A symbol behind pieces that end as types do. -/
theorem closed (h : Neat First Piece.Ends ps) (mark : Symbol) (blank : Bool)
    (hplain : mark.isPlain = true) (hmark : mark.trails = true) :
    Neat First (· = ⟨.symbol mark, blank⟩) (ps ++ [⟨.symbol mark, blank⟩]) :=
  have hsingle : Neat (· = ⟨.symbol mark, blank⟩) (· = ⟨.symbol mark, blank⟩)
    [⟨.symbol mark, blank⟩] := single hplain rfl rfl
  h.append hsingle fun hp hq => hq ▸ Piece.ends_before hp hmark

/-- A symbol in front of pieces that begin as types do. -/
theorem led (h : Neat Piece.Opens Last ps) (mark : Symbol) (blank : Bool)
    (hplain : mark.isPlain = true) (hmark : mark.leads = true ∨ blank = true) :
    Neat (· = ⟨.symbol mark, blank⟩) Last (⟨.symbol mark, blank⟩ :: ps) := by
  have hopens : Neat (fun q => q.Opens ∧ q.kind.Legible) Last ps :=
    { h with first := fun q hq => ⟨h.first q hq, h.legible q (List.mem_of_mem_head? hq)⟩ }
  refine cons hplain rfl hopens fun hq => ?_
  rcases hmark with hmark | hblank
  · exact Piece.leads_before hmark hq.1 hq.2
  · exact Piece.before_blank hblank

/-- The symbol may be one that begins a type. -/
theorem opened (h : Neat (· = ⟨.symbol mark, blank⟩) Last ps)
    (hmark : (TokenKind.symbol mark).beginsType = true) : Neat Piece.Opens Last ps :=
  h.imp (fun hp => hp ▸ hmark) id

/-- The symbol may be one that ends a type. -/
theorem ended (h : Neat First (· = ⟨.symbol mark, blank⟩) ps)
    (hmark : (TokenKind.symbol mark).endsType = true) : Neat First Piece.Ends ps :=
  h.imp id fun hp => hp ▸ hmark

/-- A symbol between them. -/
theorem between (h : Neat First Piece.Ends ps) (h' : Neat Piece.Opens Last qs) (mark : Symbol)
    (blank : Bool) (hplain : mark.isPlain = true) (htrails : mark.trails = true)
    (hleads : mark.leads = true ∨ blank = true) :
    Neat First Last (ps ++ ⟨.symbol mark, blank⟩ :: qs) :=
  h.append (h'.led mark blank hplain hleads) fun hp hq => hq ▸ Piece.ends_before hp htrails

/-- A blank behind pieces that begin as types do. -/
theorem spaced (h : Neat Piece.Opens Last ps) :
    Neat Piece.Opens (·.blank = true) (FrontEnd.spaced ps) := by
  obtain ⟨init, p, rfl⟩ : ∃ init p, ps = init ++ [p] :=
    ⟨_, _, (List.dropLast_append_getLast h.ne_nil).symm⟩
  have hspaced : FrontEnd.spaced (init ++ [p]) = init ++ [{ p with blank := true }] := by
    simp [FrontEnd.spaced]
  obtain ⟨hinit, -, hjoin⟩ := List.isChain_append.1 h.joined
  have hlegible : p.kind.Legible := h.legible p (by simp)
  rw [hspaced]
  refine ⟨fun q hq => ?_, List.isChain_append.2 ⟨hinit, List.isChain_singleton _, ?_⟩, by simp,
    fun q hq => ?_, by simp⟩
  · rcases List.mem_append.1 hq with hq | hq
    · exact h.legible q (List.mem_append_left _ hq)
    · obtain rfl := List.mem_singleton.1 hq
      exact hlegible
  · intro q hq r hr
    obtain rfl : { p with blank := true } = r := Option.some.inj hr
    exact hjoin q hq p rfl
  · cases init with
    | nil =>
      obtain rfl : { p with blank := true } = q := Option.some.inj hq
      exact h.first p rfl
    | cons r init => exact h.first q hq

end Neat

/-- A blank changes no kind. -/
theorem kinds_spaced (ps : List Piece) : (spaced ps).map (·.kind) = ps.map (·.kind) := by
  rcases List.eq_nil_or_concat ps with rfl | ⟨init, p, rfl⟩
  · rfl
  · simp [spaced]

namespace Node

/-- Where no node is nothing is written. -/
theorem pieces_missing {c : Category} {n : Node c} (h : n.isMissing = true) : n.pieces = [] := by
  cases n
  all_goals first
    | rfl
    | cases h

theorem isMissing_type (t : TypeExpr) : t.isMissing = false := by
  cases t
  rfl

/-- The pieces of types and parameters fit together. -/
theorem Printable.neat {c : Category} {n : Node c} (h : n.Printable)
    (hthere : n.isMissing = false) : Neat Piece.Opens Piece.Ends n.pieces := by
  induction h with
  | nil => cases hthere
  | @cons c head tail hhere hhead htail ihhead ihtail =>
    unfold pieces
    by_cases hmissing : tail.isMissing = true
    · rw [if_pos hmissing, List.append_nil]
      exact ihhead hhere
    · rw [if_neg hmissing]
      have htail' := ihtail (by simpa using hmissing)
      cases c
      case segment => exact (ihhead hhere).between htail' _ _ rfl rfl (Or.inl rfl)
      all_goals exact (ihhead hhere).between htail' _ _ rfl rfl (Or.inr rfl)
  | @segment ident args hname hargs ih =>
    unfold pieces
    by_cases hmissing : args.isMissing = true
    · rw [if_pos hmissing]
      exact .ident hname
    · rw [if_neg hmissing]
      have hlist := (ih (by simpa using hmissing)).closed .rAngle false rfl rfl
      exact ((Neat.ident hname).between hlist _ _ rfl rfl (Or.inl rfl)).ended rfl
  | @path global first more span hsegments ih =>
    have hnames := ih rfl
    unfold pieces
    cases global with
    | true => exact (hnames.led .path _ rfl (Or.inl rfl)).opened rfl
    | false => exact hnames
  | @type origin form hform ih =>
    unfold pieces
    refine ih ?_
    cases hform <;> rfl
  | @pathType p hpath ih =>
    unfold pieces
    cases hpath
    exact ih rfl
  | @tupleType first more hitems ih =>
    have hitems' := ih rfl
    unfold pieces
    by_cases hsingle : (Node.cons first more).isSingle = true
    · rw [if_pos hsingle]
      have hparen : Neat (· = .mark .rParen) (· = .mark .rParen) [.mark .rParen] :=
        .single rfl rfl rfl
      have hclosed := (hitems'.closed .comma false rfl rfl).append hparen
        fun hp hq => hp ▸ hq ▸ Or.inl (Or.inr (by decide))
      rw [List.append_assoc] at hclosed
      exact ((hclosed.ended rfl).led _ _ rfl (Or.inl rfl)).opened rfl
    · rw [if_neg hsingle]
      exact (((hitems'.closed _ _ rfl rfl).ended rfl).led _ _ rfl (Or.inl rfl)).opened rfl
  | @funcType params result hparams hresult ihparams ihresult =>
    have harrow := (ihresult (isMissing_type result)).led .arrow true rfl
      (Or.inr rfl)
    have hclose : Neat (· = .wide .rParen) Piece.Ends (.wide .rParen :: .wide .arrow ::
      result.pieces) :=
      .cons rfl rfl harrow fun _ => Piece.before_blank rfl
    unfold pieces
    by_cases hmissing : params.isMissing = true
    · rw [pieces_missing hmissing]
      exact .cons rfl rfl hclose fun hq => hq ▸ Or.inl (Or.inr (by decide))
    · have hparams' := (ihparams (by simpa using hmissing)).append hclose fun hp hq =>
        hq ▸ Piece.ends_before hp rfl
      exact (hparams'.led _ _ rfl (Or.inl rfl)).opened rfl
  | @arrayType item origin l hitem hinteger hsize ih =>
    have hclosed := (Neat.literal hsize).closed .rBracket false rfl rfl
    have hbehind : Neat (· = .wide .semi) (· = .mark .rBracket)
        (.wide .semi :: ([⟨l.token, false⟩] ++ [.mark .rBracket])) :=
      .cons rfl rfl hclosed fun _ => Piece.before_blank rfl
    have hinside := (ih (isMissing_type item)).append hbehind fun hp hq =>
      hq ▸ Piece.ends_before hp rfl
    exact ((hinside.ended rfl).led .lBracket _ rfl (Or.inl rfl)).opened rfl
  | @sliceType item hitem ih =>
    have hitem' := ((ih (isMissing_type item)).closed .rBracket false rfl rfl)
    exact ((hitem'.ended rfl).led _ _ rfl (Or.inl rfl)).opened rfl
  | @parenType inner hinner ih =>
    have hinner' := ((ih (isMissing_type inner)).closed .rParen false rfl rfl)
    exact ((hinner'.ended rfl).led _ _ rfl (Or.inl rfl)).opened rfl
  | unitType =>
    have hclose : Neat (· = .mark .rParen) (· = .mark .rParen) [.mark .rParen] :=
      .single rfl rfl rfl
    have hopen : (Piece.mark .lParen).Before (.mark .rParen) := Or.inl (Or.inr (by decide))
    have hboth : Neat Piece.Opens (· = .mark .rParen) [.mark .lParen, .mark .rParen] :=
      .cons rfl rfl hclose fun hq => hq ▸ hopen
    exact hboth.ended rfl

theorem integer_calm {l : Literal} (h : l.isInteger = true) : l.token.calm = true := by
  obtain ⟨kind, value⟩ := l
  simp only [Literal.isInteger, decide_eq_true_eq] at h
  rcases h with rfl | rfl | rfl | rfl <;> rfl

theorem calm_symbol (mark : Symbol) : (TokenKind.symbol mark).calm = decide (mark ≠ .shr) := by
  cases mark <;> rfl

theorem calm_ident (name : String) : (TokenKind.ident name).calm = true := rfl

/-- Types are made of such tokens. -/
theorem Printable.calm {c : Category} {n : Node c} (h : n.Printable) :
    n.pieces.all (·.kind.calm) = true := by
  induction h with
  | nil => rfl
  | @cons c head tail hthere hhead htail ihhead ihtail =>
    have hseparator : c.separator.kind.calm = true := by cases c <;> rfl
    rw [pieces]
    split <;> simp [ihhead, ihtail, hseparator]
  | @segment ident args hname hargs ih =>
    rw [pieces]
    split <;> simp [ih, calm_symbol, calm_ident]
  | @path global first more span hsegments ih =>
    rw [pieces]
    split <;> simp [ih, calm_symbol]
  | type hform ih => exact ih
  | pathType hpath ih => exact ih
  | @tupleType first more hitems ih =>
    rw [pieces]
    split <;> simp [ih, calm_symbol]
  | @funcType params result hparams hresult ihparams ihresult =>
    simp [pieces, ihparams, ihresult, calm_symbol]
  | @arrayType item origin l hitem hinteger hsize ih =>
    simp [pieces, ih, integer_calm hinteger, calm_symbol]
  | sliceType hitem ih => simp [pieces, ih, calm_symbol]
  | parenType hinner ih => simp [pieces, ih, calm_symbol]
  | unitType => rfl

end Node

end FrontEnd
