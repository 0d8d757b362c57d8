import FrontEnd.Proofs.Printing.Generics

/-!
# Entries of an enumeration that are written out

An entry is a name, alone or with what it holds: a literal, types by position or types by name. The
entries of one line stand between commas. What is written of an entry gives the entry back.
-/

namespace FrontEnd

/-- Pieces with commas between them. -/
def listed : List (List Piece) → List Piece
  | [] => []
  | [ps] => ps
  | ps :: pss => ps ++ .wide .comma :: listed pss

theorem listed_cons (ps : List Piece) {pss : List (List Piece)} (h : pss ≠ []) :
    listed (ps :: pss) = ps ++ .wide .comma :: listed pss := by
  cases pss with
  | nil => exact absurd rfl h
  | cons qs pss => rfl

namespace Node

/-- The pieces of a named value. -/
def fieldPieces : Node .entryField → List Piece
  | entryField x t => ⟨.ident x.name, false⟩ :: .wide .colon :: t.pieces

/-- The pieces of an entry. -/
def entryPieces : Node .enumEntry → List Piece
  | enumEntry _ x bareEntry => [⟨.ident x.name, false⟩]
  | enumEntry _ x (valueEntry value) => ⟨.ident x.name, true⟩ :: .wide .assign :: value.pieces
  | enumEntry _ x (tupleEntry types) =>
    ⟨.ident x.name, false⟩ :: .mark .lParen :: (types.pieces ++ [.mark .rParen])
  | enumEntry _ x (structEntry fields) => ⟨.ident x.name, true⟩ :: .wide .lBrace ::
      (spaced (listed (fields.toList.map fieldPieces)) ++ [.mark .rBrace])

theorem entryPieces_fields (o : Origin) (x : Ident) (fields : List (Node .entryField)) :
    (enumEntry o x (structEntry (ofList fields))).entryPieces = ⟨.ident x.name, true⟩ ::
      .wide .lBrace :: (spaced (listed (fields.map fieldPieces)) ++ [.mark .rBrace]) := by
  rw [entryPieces, toList_ofList]

/-- Named values that can be written. -/
inductive PrintableField : Node .entryField → Prop
  | field {x : Ident} {t : TypeExpr} (hname : (TokenKind.ident x.name).Legible)
    (htype : t.Printable) : PrintableField (entryField x t)

/-- Entries that can be written. -/
inductive PrintableEntry : Node .enumEntry → Prop
  | bare {o : Origin} {x : Ident} (hname : (TokenKind.ident x.name).Legible) :
    PrintableEntry (enumEntry o x bareEntry)
  | value {o o' : Origin} {x : Ident} {l : Literal} (hname : (TokenKind.ident x.name).Legible)
    (hvalue : l.Written) : PrintableEntry (enumEntry o x (valueEntry (expr o' (.literal l))))
  | tuple {o : Origin} {x : Ident} {types : List TypeExpr}
      (hname : (TokenKind.ident x.name).Legible)
    (htypes : (ofList types).Printable) : PrintableEntry (enumEntry o x (tupleEntry (ofList types)))
  | fields {o : Origin} {x : Ident} {fields : List (Node .entryField)}
    (hname : (TokenKind.ident x.name).Legible) (hfields : ∀ f ∈ fields, f.PrintableField) :
    PrintableEntry (enumEntry o x (structEntry (ofList fields)))

end Node

/-- What may stand behind an entry on its line. -/
def TokenKind.BehindEntry (k : TokenKind) : Prop :=
  k = .symbol .comma ∨ k = .symbol .semi ∨ k = .symbol .rBrace

/-- The pieces of the entries of a line. -/
def rowPieces (row : List (Node .enumEntry)) : List Piece := listed (row.map Node.entryPieces)

/-- Pieces that entries end with. -/
def Piece.EndsEntry (p : Piece) : Prop := p.Ends ∨ p.kind = .symbol .rBrace

/-- The symbols behind types may stand behind entries too. -/
theorem Piece.EndsEntry.before {p : Piece} {mark : Symbol} {blank : Bool} (h : p.EndsEntry)
    (hmark : mark.trails = true) : p.Before ⟨.symbol mark, blank⟩ := by
  rcases h with hends | hbrace
  · exact Piece.ends_before hends hmark
  · refine Or.inl (Or.inr ?_)
    have hnone : Symbol.nextChars .rBrace = [] := by decide
    rw [hbrace, Option.all_eq_true]
    exact fun c _ => by simp [TokenKind.endsBefore, hnone]

/-- Pieces between commas fit together. -/
theorem Neat.listed {Last : Piece → Prop} {pss : List (List Piece)} (hsome : pss ≠ [])
    (h : ∀ ps ∈ pss, Neat Piece.Opens Last ps)
    (hcomma : ∀ {p : Piece}, Last p → p.Before (.wide .comma)) :
    Neat Piece.Opens Last (listed pss) := by
  induction pss with
  | nil => exact absurd rfl hsome
  | cons ps pss ih =>
    have hfirst := h ps List.mem_cons_self
    by_cases hnone : pss = []
    · subst hnone
      exact hfirst
    · rw [listed_cons ps hnone]
      have hothers := ih hnone fun qs hqs => h qs (List.mem_cons_of_mem ps hqs)
      exact hfirst.append (hothers.led .comma true rfl (Or.inr rfl)) fun hp hq => hq ▸ hcomma hp

namespace Node

/-- The pieces of a named value fit together. -/
theorem PrintableField.neat {f : Node .entryField} (h : f.PrintableField) :
    Neat Piece.Opens Piece.Ends f.fieldPieces := by
  cases h with
  | field hname htype =>
    exact (Neat.ident hname).between (htype.neat (isMissing_type _)) .colon true rfl rfl
      (Or.inr rfl)

/-- The pieces of an entry fit together. -/
theorem PrintableEntry.neat {e : Node .enumEntry} (h : e.PrintableEntry) :
    Neat Piece.Opens Piece.EndsEntry e.entryPieces := by
  cases h with
  | bare hname => exact (Neat.ident hname).imp id Or.inl
  | @value o o' x l hname hvalue =>
    have hassign : Neat (fun _ => True) Piece.Ends [.wide .assign, ⟨l.token, false⟩] :=
      .cons rfl trivial (.literal hvalue) fun _ => Piece.before_blank rfl
    have hentry : Neat Piece.Opens Piece.Ends
        (⟨.ident x.name, true⟩ :: [.wide .assign, ⟨l.token, false⟩]) :=
      .cons hname rfl hassign fun _ => Piece.before_blank rfl
    exact hentry.imp id Or.inl
  | @tuple o x types hname htypes =>
    have hclose : Neat (fun _ => True) Piece.EndsEntry [.mark .rParen] :=
      .single rfl trivial (Or.inl rfl)
    have hinside : Neat (fun q => q.Opens ∧ q.kind.Legible ∨ q = .mark .rParen) Piece.EndsEntry
        ((ofList types).pieces ++ [.mark .rParen]) := by
      by_cases hmissing : (ofList types).isMissing = true
      · rw [pieces_missing hmissing]
        exact .single rfl (Or.inr rfl) (Or.inl rfl)
      · have hneat := (htypes.neat (by simpa using hmissing)).closed .rParen false rfl rfl
        exact { hneat with
          first := fun q hq => Or.inl ⟨hneat.first q hq, hneat.legible q (List.mem_of_mem_head? hq)⟩
          last := fun q hq => Or.inl (hneat.last q hq ▸ rfl) }
    have hparen : Neat (· = .mark .lParen) Piece.EndsEntry
        (.mark .lParen :: ((ofList types).pieces ++ [.mark .rParen])) := by
      refine .cons rfl rfl hinside fun hq => ?_
      rcases hq with ⟨hopens, hlegible⟩ | rfl
      · exact Piece.leads_before rfl hopens hlegible
      · exact Or.inl (Or.inr (by decide))
    refine .cons hname rfl hparen fun hq => ?_
    subst hq
    have hpart : Lexer.isNamePart '(' = false := by decide
    exact Or.inl (Or.inr (by simp [TokenKind.source, TokenKind.text, Symbol.spelling,
      TokenKind.endsBefore, hpart]))
  | @fields o x fields hname hfields =>
    have hclose : Neat (fun _ => True) Piece.EndsEntry [.mark .rBrace] :=
      .single rfl trivial (Or.inr rfl)
    have hinside : Neat (fun _ => True) Piece.EndsEntry
        (spaced (listed (fields.map fieldPieces)) ++ [.mark .rBrace]) := by
      by_cases hnone : fields = []
      · subst hnone
        exact hclose
      · have hneat : Neat Piece.Opens Piece.Ends (listed (fields.map fieldPieces)) := by
          refine .listed (by simpa using hnone) (fun ps hps => ?_) fun hp =>
            Piece.ends_before hp rfl
          obtain ⟨f, hf, rfl⟩ := List.mem_map.1 hps
          exact (hfields f hf).neat
        exact (hneat.spaced.append hclose fun hp _ => Piece.before_blank hp).imp (fun _ =>
          trivial) id
    have hbrace : Neat (fun _ => True) Piece.EndsEntry
        (.wide .lBrace :: (spaced (listed (fields.map fieldPieces)) ++ [.mark .rBrace])) :=
      .cons rfl trivial hinside fun _ => Piece.before_blank rfl
    rw [entryPieces_fields]
    exact .cons hname rfl hbrace fun _ => Piece.before_blank rfl

end Node

/-- The pieces of a line of entries fit together. -/
theorem rowPieces_neat {row : List (Node .enumEntry)} (hsome : row ≠ [])
    (h : ∀ e ∈ row, e.PrintableEntry) : Neat Piece.Opens Piece.EndsEntry (rowPieces row) := by
  refine .listed (by simpa using hsome) (fun ps hps => ?_) fun hp => hp.before rfl
  obtain ⟨e, he, rfl⟩ := List.mem_map.1 hps
  exact (h e he).neat

/-- What is between commas is listed. -/
theorem mem_listed {pss : List (List Piece)} {q : Piece} (h : q ∈ listed pss) :
    q = .wide .comma ∨ ∃ ps ∈ pss, q ∈ ps := by
  induction pss with
  | nil => cases h
  | cons ps pss ih =>
    by_cases hnone : pss = []
    · subst hnone
      exact Or.inr ⟨ps, List.mem_cons_self, h⟩
    · rw [listed_cons ps hnone] at h
      rcases List.mem_append.1 h with h | h
      · exact Or.inr ⟨ps, List.mem_cons_self, h⟩
      · rcases List.mem_cons.1 h with rfl | h
        · exact Or.inl rfl
        · exact (ih h).imp_right fun ⟨qs, hqs, hq⟩ => ⟨qs, List.mem_cons_of_mem ps hqs, hq⟩

/-- A blank changes no kind of a piece. -/
theorem mem_spaced {ps : List Piece} {q : Piece} (h : q ∈ spaced ps) :
    ∃ p ∈ ps, p.kind = q.kind := by
  have hkind : q.kind ∈ (spaced ps).map (·.kind) := List.mem_map_of_mem h
  rw [kinds_spaced] at hkind
  exact List.mem_map.1 hkind

/-- Literals are no closing brackets and no line breaks. -/
theorem Literal.Written.shown {l : Literal} (h : l.Written) :
    l.token ≠ .symbol .shr ∧ l.token ≠ .newline := by
  obtain ⟨hself, -⟩ := h
  constructor <;> (intro hk; rw [hk] at hself; cases hself)

/-- Behind other tokens than commas and opening angle brackets every literal may stand. -/
theorem Literal.Written.admits {l : Literal} (h : l.Written) {p : Lexer.Place}
    (hp : p.listStart = false) : p.Admits l.token := by
  obtain ⟨hself, -⟩ := h
  generalize l.token = k at hself
  unfold Lexer.Place.Admits
  split
  · cases hself
  · exact Or.inr hp
  · trivial

namespace Node

/-- Named values are made of calm tokens. -/
theorem PrintableField.calm {f : Node .entryField} (h : f.PrintableField) :
    ∀ q ∈ f.fieldPieces, q.kind.calm = true := by
  cases h with
  | @field x t hname htype =>
    have ht : ∀ q ∈ t.pieces, q.kind.calm = true := List.all_eq_true.1 htype.calm
    simp only [fieldPieces, List.forall_mem_cons]
    exact ⟨rfl, rfl, ht⟩

/-- So are entries, but for literals. -/
theorem PrintableEntry.calm {e : Node .enumEntry} (h : e.PrintableEntry) :
    (∀ q ∈ e.entryPieces, q.kind.calm = true) ∨ ∃ (x : String) (l : Literal), l.Written ∧
      e.entryPieces = [⟨.ident x, true⟩, .wide .assign, ⟨l.token, false⟩] := by
  cases h with
  | bare hname =>
    left
    simp only [entryPieces, List.forall_mem_cons]
    exact ⟨rfl, by simp⟩
  | @value o o' x l hname hvalue => exact Or.inr ⟨x.name, l, hvalue, rfl⟩
  | @tuple o x types hname htypes =>
    left
    have ht : ∀ q ∈ (ofList types).pieces, q.kind.calm = true := List.all_eq_true.1 htypes.calm
    simp only [entryPieces, List.forall_mem_cons, List.forall_mem_append]
    exact ⟨rfl, rfl, ht, rfl, by simp⟩
  | @fields o x fields hname hfields =>
    left
    rw [entryPieces_fields]
    simp only [List.forall_mem_cons, List.forall_mem_append]
    refine ⟨rfl, rfl, fun q hq => ?_, rfl, by simp⟩
    obtain ⟨p, hp, hkind⟩ := mem_spaced hq
    rw [← hkind]
    rcases mem_listed hp with rfl | ⟨ps, hps, hp⟩
    · rfl
    · obtain ⟨f, hf, rfl⟩ := List.mem_map.1 hps
      exact (hfields f hf).calm p hp

/-- Entries may stand anywhere. -/
theorem PrintableEntry.admits {e : Node .enumEntry} (h : e.PrintableEntry) (p : Lexer.Place) :
    p.AdmitsAll e.entryPieces := by
  rcases h.calm with hcalm | ⟨x, l, hl, hpieces⟩
  · exact Lexer.Place.admitsAll_of_calm hcalm
  · rw [hpieces]
    exact ⟨trivial, trivial, hl.admits rfl, trivial⟩

/-- They are shown as they are. -/
theorem PrintableEntry.shown {e : Node .enumEntry} (h : e.PrintableEntry) :
    ∀ q ∈ e.entryPieces, q.kind ≠ .symbol .shr ∧ q.kind ≠ .newline := by
  rcases h.calm with hcalm | ⟨x, l, hl, hpieces⟩
  · exact fun q hq => TokenKind.ne_of_calm (hcalm q hq)
  · rw [hpieces]
    simp only [List.forall_mem_cons]
    exact ⟨by simp, by simp, hl.shown, by simp⟩

/-- The kinds of the tokens of an entry. -/
def entryKinds (e : Node .enumEntry) : List TokenKind := e.entryPieces.map (·.kind)

/-- An entry begins with its name. -/
theorem entryKinds_eq (e : Node .enumEntry) : ∃ name ks, e.entryKinds = .ident name :: ks := by
  cases e with
  | enumEntry o x form => cases form <;> exact ⟨_, _, rfl⟩

end Node

/-- The kinds of the tokens of a line of entries. -/
def rowKinds (row : List (Node .enumEntry)) : List TokenKind := (rowPieces row).map (·.kind)

theorem rowKinds_cons (e : Node .enumEntry) {row : List (Node .enumEntry)} (h : row ≠ []) :
    rowKinds (e :: row) = e.entryKinds ++ .symbol .comma :: rowKinds row := by
  unfold rowKinds rowPieces
  rw [List.map_cons, listed_cons _ (by simpa using h), List.map_append, List.map_cons]
  rfl

/-- A line of entries begins with a name. -/
theorem rowKinds_eq {row : List (Node .enumEntry)} (h : row ≠ []) :
    ∃ name ks, rowKinds row = .ident name :: ks := by
  obtain ⟨e, row, rfl⟩ := List.exists_cons_of_ne_nil h
  obtain ⟨name, ks, he⟩ := e.entryKinds_eq
  by_cases hnone : row = []
  · subst hnone
    exact ⟨name, ks, he⟩
  · exact ⟨name, _, by rw [rowKinds_cons e hnone, he, List.cons_append]⟩

/-- Lines of entries may stand anywhere. -/
theorem rowPieces_admits {row : List (Node .enumEntry)} (h : ∀ e ∈ row, e.PrintableEntry)
    (p : Lexer.Place) : p.AdmitsAll (rowPieces row) := by
  induction row generalizing p with
  | nil => trivial
  | cons e row ih =>
    have he := (h e List.mem_cons_self).admits
    by_cases hnone : row = []
    · subst hnone
      exact he p
    · have hothers := ih fun x hx => h x (List.mem_cons_of_mem e hx)
      unfold rowPieces at hothers ⊢
      rw [List.map_cons, listed_cons _ (by simpa using hnone)]
      exact Lexer.Place.admitsAll_append.2 ⟨he p, trivial, hothers _⟩

/-- They are shown as they are. -/
theorem rowPieces_shown {row : List (Node .enumEntry)} (h : ∀ e ∈ row, e.PrintableEntry) :
    ∀ q ∈ rowPieces row, q.kind ≠ .symbol .shr ∧ q.kind ≠ .newline := by
  intro q hq
  rcases mem_listed hq with rfl | ⟨ps, hps, hq⟩
  · simp
  · obtain ⟨e, he, rfl⟩ := List.mem_map.1 hps
    exact (h e he).shown q hq

/-- How many of some pieces are no closing angle brackets. -/
def weigh (ps : List Piece) : Nat := (ps.map (·.kind)).countP (· ≠ .symbol .rAngle)

theorem weigh_cons (p : Piece) (ps : List Piece) :
    weigh (p :: ps) = weigh ps + if p.kind ≠ .symbol .rAngle then 1 else 0 := by
  unfold weigh
  rw [List.map_cons, List.countP_cons]
  simp

theorem weigh_append (ps qs : List Piece) : weigh (ps ++ qs) = weigh ps + weigh qs := by
  unfold weigh
  rw [List.map_append, List.countP_append]

theorem weigh_spaced (ps : List Piece) : weigh (spaced ps) = weigh ps := by
  unfold weigh
  rw [kinds_spaced]

/-- What is listed weighs no less than a part of it. -/
theorem weigh_listed {pss : List (List Piece)} {ps : List Piece} (h : ps ∈ pss) :
    weigh ps ≤ weigh (listed pss) := by
  induction pss with
  | nil => cases h
  | cons qs pss ih =>
    by_cases hnone : pss = []
    · subst hnone
      obtain rfl := List.mem_singleton.1 h
      exact Nat.le_refl _
    · rw [listed_cons qs hnone, weigh_append, weigh_cons]
      rcases List.mem_cons.1 h with rfl | h
      · omega
      · have := ih h
        omega

/-- There are no more parts than the list weighs. -/
theorem length_le_weigh {pss : List (List Piece)} (h : ∀ ps ∈ pss, 0 < weigh ps) :
    pss.length ≤ weigh (listed pss) := by
  induction pss with
  | nil => exact Nat.zero_le _
  | cons ps pss ih =>
    have hfirst := h ps List.mem_cons_self
    by_cases hnone : pss = []
    · subst hnone
      exact hfirst
    · have := ih fun qs hqs => h qs (List.mem_cons_of_mem ps hqs)
      rw [listed_cons ps hnone, weigh_append, weigh_cons, List.length_cons]
      omega

theorem Node.weigh_pieces {c : Category} (n : Node c) : weigh n.pieces = n.weight := rfl

open Parse

section Reading

variable {g : Grammar} {base s : ParserState} {ks zs : List TokenKind} {n : Nat}

/-- Lists in braces. -/
theorem delimits_braces : Delimits (· = .symbol .rBrace) (pure ()) (.symbol .rBrace) where
  gap h := .result h trivial
  opens := by
    intro k hk
    rw [decide_eq_false_iff_not]
    rintro rfl
    cases hk
  close := by
    intro s ks h
    rw [h.kind_eq (by simp)]
    rfl
  ends := endsType_cons.2 (by simp)
  noComma := by simp

/-- A named value is given back. -/
theorem entryField_restores {x : Ident} {t : TypeExpr} (ht : Restores (g .type) t)
    (hks : EndsType ks) (h : base.At s (.ident x.name :: .symbol .colon :: (t.kinds ++ ks))) :
    Finds base (entryField g) s ks fun f => Likeness.bare.Alike (Node.entryField x t) f := by
  unfold entryField
  refine (Finds.ident h).bind fun name s₁ hname h₁ => ?_
  refine (Finds.expect h₁ (by simp)).discard.bind fun _ s₂ _ h₂ => ?_
  refine (ht base s₂ ks h₂ hks).bind fun t' s₃ ht' h₃ => ?_
  have hident : Likeness.bare.Alike x name := (congrArg (Ident.mk · default) hname.symm :)
  exact .result h₃ (congr (congrArg Node.entryField hident) ht' :)

/-- The types of named values that the parser of types gives back. -/
def RestoresField (g : Grammar) (f : Node .entryField) : Prop :=
  ∃ x t, f = .entryField x t ∧ Restores (g .type) t

/-- Lists of named values are given back. -/
theorem fields_restore {fields : List (Node .entryField)} {afterComma : Bool}
    (hfields : ∀ f ∈ fields, RestoresField g f) (hn : fields.length < n)
    (h : base.At s ((listed (fields.map Node.fieldPieces)).map (·.kind) ++ .symbol .rBrace :: ks)) :
    Finds base (commaList (· = .symbol .rBrace) (pure ()) (entryField g) n afterComma) s
      (.symbol .rBrace :: ks) fun r => Likeness.bare.Alike fields r.1 := by
  induction fields generalizing n s afterComma with
  | nil =>
    obtain ⟨n, rfl⟩ : ∃ m, n = m + 1 := ⟨n - 1, by simp at hn; omega⟩
    exact (commaList_close delimits_braces h).mono fun r hr => hr ▸ rfl
  | cons f fields ih =>
    obtain ⟨n, rfl⟩ : ∃ m, n = m + 1 := ⟨n - 1, by simp at hn; omega⟩
    obtain ⟨x, t, rfl, ht⟩ := hfields f List.mem_cons_self
    by_cases hnone : fields = []
    · subst hnone
      have hat :
        base.At s (.ident x.name :: .symbol .colon :: (t.kinds ++ .symbol .rBrace :: ks)) := h
      refine (commaList_last delimits_braces rfl hat
        (entryField_restores ht (endsType_cons.2 (by simp)) hat)).mono ?_
      rintro _ ⟨y, rfl, hy⟩
      exact hy.cons Likeness.alike_nil
    · have hat : base.At s (.ident x.name :: .symbol .colon :: (t.kinds ++ .symbol .comma ::
          ((listed (fields.map Node.fieldPieces)).map (·.kind) ++ .symbol .rBrace :: ks))) := by
        rw [List.map_cons, listed_cons _ (by simpa using hnone), List.map_append, List.append_assoc]
          at h
        exact h
      refine commaList_element delimits_braces rfl hat
        (entryField_restores ht (endsType_cons.2 (by simp)) hat) fun y s' hy h' => ?_
      refine (Finds.accept h' (by simp)).bind fun found s₁ hfound h₁ => ?_
      rw [if_pos hfound]
      refine .after (show (pure () : Parser Unit) s₁ = .ok () s₁ from rfl) ?_
      refine (ih (fun f hf => hfields f (List.mem_cons_of_mem _ hf)) (by simpa using hn) h₁).bind
        fun r s₂ hr h₂ => ?_
      exact .result h₂ (hy.cons hr)

/-- The types of printable named values are given back. -/
theorem Inner.restoresField (hg : Inner g n) {f : Node .entryField} (h : f.PrintableField)
    (hweight : weigh f.fieldPieces < n) : RestoresField g f := by
  cases h with
  | @field x t hname htype =>
    refine ⟨x, t, rfl, hg.types t htype ?_⟩
    simp only [Node.fieldPieces, weigh_cons, Node.weigh_pieces] at hweight
    omega

/-- A named value weighs something. -/
theorem Node.weigh_field_pos (f : Node .entryField) : 0 < weigh f.fieldPieces := by
  cases f with
  | entryField x t => simp [fieldPieces, weigh_cons]

/-- Nothing is read of an entry that is only a name. -/
theorem bareEntry_restores (hzs : ∀ k ∈ zs.head?, k.BehindEntry) (h : base.At s zs) :
    Finds base (enumEntryForm n g) s zs fun f => Likeness.bare.Alike Node.bareEntry f := by
  have hkind : s.kind ≠ .symbol .assign ∧ s.kind ≠ .symbol .lParen ∧ s.kind ≠ .symbol .lBrace := by
    refine ⟨h.shows.kind_ne ?_ (by simp) (by simp), h.shows.kind_ne ?_ (by simp) (by simp),
      h.shows.kind_ne ?_ (by simp) (by simp)⟩
    all_goals
      intro hk
      rcases hzs _ hk with hk | hk | hk <;> cases hk
  unfold enumEntryForm
  refine .after (kind_run s) ?_
  split
  · exact absurd ‹_› hkind.1
  · exact absurd ‹_› hkind.2.1
  · exact absurd ‹_› hkind.2.2
  · exact .result h rfl

/-- The value of an entry is given back. -/
theorem valueEntry_restores {o : Origin} {l : Literal} (hvalue : l.Written) (hg : Inner g n)
    (hn : 1 < n) (hzs : ∀ k ∈ zs.head?, k.BehindEntry)
    (h : base.At s (.symbol .assign :: l.token :: zs)) :
    Finds base (enumEntryForm n g) s zs fun f =>
      Likeness.bare.Alike (Node.valueEntry (.expr o (.literal l))) f := by
  unfold enumEntryForm
  refine .after (kind_run s) ?_
  rw [h.shows.kind_eq (by simp)]
  refine (Finds.advance h (by simp)).bind fun _ s₁ _ h₁ => ?_
  have hends : ∀ k ∈ zs.head?, k.canStartValue = false := by
    intro k hk
    rcases hzs k hk with rfl | rfl | rfl <;> rfl
  refine (hg.literals hn l base s₁ zs hvalue h₁ hends).bind fun e s₂ he h₂ => ?_
  obtain ⟨origin, rfl⟩ := he
  exact .result h₂ rfl

/-- The types of an entry are given back. -/
theorem tupleEntry_restores {types : List TypeExpr} (htypes : (Node.ofList types).Printable)
    (hg : Inner g n) (hless : (Node.ofList types).weight < n)
    (h : base.At s (.symbol .lParen :: ((Node.ofList types).kinds ++ .symbol .rParen :: zs))) :
    Finds base (enumEntryForm n g) s zs fun f =>
      Likeness.bare.Alike (Node.tupleEntry (.ofList types)) f := by
  unfold enumEntryForm
  refine .after (kind_run s) ?_
  rw [h.shows.kind_eq (by simp)]
  refine (Finds.advance h (by simp)).bind fun _ s₁ _ h₁ => ?_
  refine (Finds.openGroup h₁ true).bind fun _ s₂ _ h₂ => ?_
  have hlist : Finds (base.openGroup true) (commaListTo n .rParen (g .type)) s₂
      (.symbol .rParen :: zs) fun ts => Likeness.bare.Alike types ts :=
    ((types_restore delimits_parens (hg.restoresAll htypes hless)
      (Nat.lt_of_le_of_lt htypes.length_le hless) h₂).mono fun r hr => hr.1).map
  refine hlist.bind fun ts s₃ hts h₃ => ?_
  refine (Finds.closeStrict h₃ (by simp)).bind fun _ s₄ _ h₄ => ?_
  exact .result h₄ (congrArg Node.tupleEntry hts.ofList :)

/-- The named values of an entry are given back. -/
theorem structEntry_restores {fields : List (Node .entryField)}
    (hfields : ∀ f ∈ fields, f.PrintableField) (hg : Inner g n)
    (hless : weigh (listed (fields.map Node.fieldPieces)) < n)
    (h : base.At s (.symbol .lBrace ::
      ((listed (fields.map Node.fieldPieces)).map (·.kind) ++ .symbol .rBrace :: zs))) :
    Finds base (enumEntryForm n g) s zs fun f =>
      Likeness.bare.Alike (Node.structEntry (.ofList fields)) f := by
  have hlength : fields.length < n := by
    refine Nat.lt_of_le_of_lt ?_ hless
    rw [← fields.length_map (f := Node.fieldPieces)]
    refine length_le_weigh fun ps hps => ?_
    obtain ⟨f, -, rfl⟩ := List.mem_map.1 hps
    exact f.weigh_field_pos
  unfold enumEntryForm
  refine .after (kind_run s) ?_
  rw [h.shows.kind_eq (by simp)]
  refine (Finds.advance h (by simp)).bind fun _ s₁ _ h₁ => ?_
  refine (Finds.openGroup h₁ true).bind fun _ s₂ _ h₂ => ?_
  have hlist : Finds (base.openGroup true) (commaListTo n .rBrace (entryField g)) s₂
      (.symbol .rBrace :: zs) fun fs => Likeness.bare.Alike fields fs := by
    refine (fields_restore (fun f hf => hg.restoresField (hfields f hf) ?_) hlength h₂).map
    exact Nat.lt_of_le_of_lt (weigh_listed (List.mem_map_of_mem hf)) hless
  refine hlist.bind fun fs s₃ hfs h₃ => ?_
  refine (Finds.closeStrict h₃ (by simp)).bind fun _ s₄ _ h₄ => ?_
  exact .result h₄ (congrArg Node.structEntry hfs.ofList :)

/-- What is behind the name of an entry gives its form back. -/
theorem enumEntryForm_restores {o : Origin} {x : Ident} {form : Node .enumEntryForm}
    (he : (Node.enumEntry o x form).PrintableEntry) (hg : Inner g n)
    (hweight : weigh (Node.enumEntry o x form).entryPieces < n)
    (hzs : ∀ k ∈ zs.head?, k.BehindEntry)
    (h : base.At s ((Node.enumEntry o x form).entryKinds.tail ++ zs)) :
    Finds base (enumEntryForm n g) s zs fun f => Likeness.bare.Alike form f := by
  cases he with
  | bare hname => exact bareEntry_restores hzs h
  | @value _ o' _ l hname hvalue =>
    have hn : 1 < n := by
      have hsome : l.token ≠ .symbol .rAngle := by
        intro hk
        have hself := hvalue.1
        rw [hk] at hself
        cases hself
      simp [Node.entryPieces, Node.pieces, weigh, hsome] at hweight
      omega
    exact valueEntry_restores hvalue hg hn hzs h
  | @tuple _ _ types hname htypes =>
    have hat :
      base.At s (.symbol .lParen :: ((Node.ofList types).kinds ++ .symbol .rParen :: zs)) := by
      simpa [Node.entryKinds, Node.entryPieces, Node.kinds] using h
    simp only [Node.entryPieces, weigh_cons, weigh_append, Node.weigh_pieces] at hweight
    exact tupleEntry_restores htypes hg (by omega) hat
  | @fields _ _ fields hname hfields =>
    have hat : base.At s (.symbol .lBrace :: ((listed (fields.map Node.fieldPieces)).map (·.kind) ++
        .symbol .rBrace :: zs)) := by
      unfold Node.entryKinds at h
      rw [Node.entryPieces_fields] at h
      simpa [kinds_spaced] using h
    rw [Node.entryPieces_fields] at hweight
    simp only [weigh_cons, weigh_append, weigh_spaced] at hweight
    exact structEntry_restores hfields hg (by omega) hat

/-- An entry is given back. -/
theorem enumEntry_restores {e : Node .enumEntry} (he : e.PrintableEntry) (hg : Inner g n)
    (hweight : weigh e.entryPieces < n)
    (hzs : ∀ k ∈ zs.head?, k.BehindEntry)
    (h : base.At s (e.entryKinds ++ zs)) :
    Finds base (enumEntry n g) s zs fun x => Likeness.bare.Alike e x := by
  cases e with
  | enumEntry o x form =>
  have hat : base.At s (.ident x.name :: ((Node.enumEntry o x form).entryKinds.tail ++ zs)) := by
    cases form <;> exact h
  unfold enumEntry
  refine (Finds.here hat).bind fun start s₁ _ h₁ => ?_
  refine (Finds.ident h₁).bind fun name s₂ hname h₂ => ?_
  refine (enumEntryForm_restores he hg hweight hzs h₂).bind fun f s₃ hf h₃ => ?_
  refine (Finds.spanFrom h₃ start).bind fun span s₄ _ h₄ => ?_
  refine (Finds.origin h₄ span).bind fun o' s₅ _ h₅ => ?_
  have hident : Likeness.bare.Alike x name := (congrArg (Ident.mk · default) hname.symm :)
  exact .result h₅ (congr (congrArg (Node.enumEntry default) hident) hf :)

end Reading

end FrontEnd
