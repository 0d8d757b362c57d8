import FrontEnd.Proofs.Printing.Types
import FrontEnd.Proofs.Siblings

/-!
# Generic parameters that are read back

The text of a list of generic parameters gives the list back, in front of the parameters of a
function. Two things are in the way. A default is read as an expression, which takes the closing
bracket of the list for an operator; and the semicolon of an array type closes all angle brackets
for the scanner, which then takes the quote of a lifetime for the beginning of a string.
-/

namespace FrontEnd

open Parse

namespace Node

/-- Generic parameters that can be written. -/
inductive PrintableParam : Node .generic → Prop
  | lifetime {origin : Origin} {name : Ident} (hname : (TokenKind.lifetime name.name).Legible) :
    PrintableParam (.generic origin name .lifetimeGeneric)
  | plain {origin : Origin} {name : Ident} (hname : (TokenKind.ident name.name).Legible) :
    PrintableParam (.generic origin name (.typeGeneric .absent))
  | bounded {origin : Origin} {name : Ident} {bound : TypeExpr}
    (hname : (TokenKind.ident name.name).Legible) (hbound : bound.Printable) :
    PrintableParam (.generic origin name (.typeGeneric (.present bound)))
  | const {origin : Origin} {name : Ident} {type : TypeExpr}
    (hname : (TokenKind.ident name.name).Legible) (htype : type.Printable) :
    PrintableParam (.generic origin name (.constGeneric type .absent))
  | default {origin valueOrigin : Origin} {name : Ident} {type : TypeExpr} {l : Literal}
    (hname : (TokenKind.ident name.name).Legible) (htype : type.Printable) (hvalue : l.Written) :
    PrintableParam (.generic origin name
      (.constGeneric type (.present (.expr valueOrigin (.literal l)))))

/-- Whether a parameter is a lifetime. -/
def isLifetime : Node .generic → Bool
  | generic _ _ lifetimeGeneric => true
  | _ => false

/-- Whether a parameter has a default. -/
def hasDefault : Node .generic → Bool
  | generic _ _ (constGeneric _ (present _)) => true
  | _ => false

/-- Whether an array type is part of what is written. -/
def hasArray {c : Category} (n : Node c) : Bool := n.pieces.any (·.kind = .symbol .semi)

/-- The pieces of a parameter fit together. -/
theorem PrintableParam.neat {p : Node .generic} (h : p.PrintableParam) :
    Neat Piece.Opens Piece.Ends p.pieces := by
  cases h with
  | lifetime hname => exact .single hname rfl rfl
  | plain hname => exact .ident hname
  | @bounded origin name bound hname hbound =>
    exact (Neat.ident hname).between (hbound.neat bound.isMissing_type) _ _ rfl rfl (Or.inr rfl)
  | @const origin name type hname htype =>
    have hnamed := (Neat.ident hname).between (htype.neat type.isMissing_type) .colon true
      rfl rfl (Or.inr rfl)
    exact .cons (by simp [TokenKind.Legible]) rfl hnamed fun _ => Piece.before_blank rfl
  | @default origin valueOrigin name type l hname htype hvalue =>
    have hdefault : Neat (fun _ => True) Piece.Ends [.wide .assign, ⟨l.token, false⟩] :=
      .cons rfl trivial (.literal hvalue) fun _ => Piece.before_blank rfl
    have htype' := (htype.neat type.isMissing_type).spaced.append hdefault fun hp _ =>
      Piece.before_blank hp
    have hnamed := (Neat.ident hname).between htype' .colon true rfl rfl
      (Or.inr rfl)
    exact .cons (p := ⟨.keyword .const, true⟩) (by simp [TokenKind.Legible]) rfl hnamed
      fun _ => Piece.before_blank rfl

/-- So do those of several parameters. -/
theorem neat_params {p : Node .generic} {params : List (Node .generic)}
    (h : ∀ q ∈ p :: params, q.PrintableParam) :
    Neat Piece.Opens Piece.Ends (ofList (p :: params)).pieces := by
  induction params generalizing p with
  | nil =>
    have hsingle : (ofList [p]).pieces = p.pieces := List.append_nil _
    rw [hsingle]
    exact (h p List.mem_cons_self).neat
  | cons q params ih =>
    have hothers := ih fun r hr => h r (List.mem_cons_of_mem p hr)
    exact (h p List.mem_cons_self).neat.between hothers _ _ rfl rfl (Or.inr rfl)

/-- A literal is a string where no list begins, and opens and closes nothing. -/
theorem literal_fits {l : Literal} (h : l.Written) (angles : Nat) :
    (l.token ≠ .symbol .shr ∧ l.token ≠ .newline) ∧
      Lexer.Place.Admits ⟨angles, false⟩ l.token ∧
      Lexer.Context.anglesAfter angles l.token = angles := by
  obtain ⟨hl, -⟩ := h
  obtain ⟨form, lexeme, hk⟩ | hk | hk := literal_token hl
  · rw [hk]
    refine ⟨⟨by simp, by simp⟩, ?_, rfl⟩
    cases form <;> first | trivial | exact Or.inr rfl
  · rw [hk]
    exact ⟨⟨by simp, by simp⟩, trivial, rfl⟩
  · rw [hk]
    exact ⟨⟨by simp, by simp⟩, trivial, rfl⟩

end Node

namespace Lexer.Place

variable {p : Place} {ps qs : List Piece}

/-- Where pieces lead depends on their kinds. -/
theorem passing_spaced (ps : List Piece) : p.passing (spaced ps) = p.passing ps := by
  rcases List.eq_nil_or_concat ps with rfl | ⟨init, q, rfl⟩
  · rfl
  · simp [spaced, passing, List.foldl_append]

theorem passing_nil : p.passing [] = p := rfl

theorem passing_cons (q : Piece) : p.passing (q :: ps) = (p.after q.kind).passing ps := rfl

end Lexer.Place

namespace Node

open Lexer.Place in
/-- A type in which no array is keeps the angle brackets that are open. -/
theorem Printable.passing_angles {c : Category} {n : Node c} (h : n.Printable)
    (harray : n.hasArray = false) (p : Lexer.Place) : (p.passing n.pieces).angles = p.angles := by
  unfold hasArray at harray
  induction h generalizing p with
  | nil => rfl
  | @cons c head tail hthere hhead htail ihhead ihtail =>
    have hseparator (q : Lexer.Place) : (q.after c.separator.kind).angles = q.angles := by
      cases c <;> rfl
    rw [pieces] at harray ⊢
    split at harray
    · simp only [List.append_nil] at harray
      simp [*]
    · simp only [List.any_append, List.any_cons, Bool.or_eq_false_iff] at harray
      simp [*, passing_append, passing_cons]
  | @segment ident args hname hargs ih =>
    rw [pieces] at harray ⊢
    split at harray
    · simp [*, passing_nil, passing_cons, after, Lexer.Context.anglesAfter]
    · simp only [List.any_append, List.any_cons, Bool.or_eq_false_iff] at harray
      simp [*, passing_append, passing_cons, passing_nil, after, Lexer.Context.anglesAfter]
  | @path global first more span hsegments ih =>
    rw [pieces] at harray ⊢
    rw [List.any_append, Bool.or_eq_false_iff] at harray
    rw [passing_append, ih harray.2]
    cases global <;> rfl
  | type hform ih => exact ih harray p
  | pathType hpath ih => exact ih harray p
  | @tupleType first more hitems ih =>
    rw [pieces] at harray ⊢
    split at harray <;>
      simp only [List.any_append, List.any_cons, Bool.or_eq_false_iff] at harray <;>
      simp [*, passing_append, passing_cons, passing_nil, after, Lexer.Context.anglesAfter]
  | @funcType params result hparams hresult ihparams ihresult =>
    rw [pieces] at harray ⊢
    simp only [List.any_append, List.any_cons, Bool.or_eq_false_iff] at harray
    simp [*, passing_append, passing_cons, after, Lexer.Context.anglesAfter]
  | @arrayType item origin l hitem hinteger hsize ih => simp [pieces] at harray
  | @sliceType item hitem ih =>
    rw [pieces] at harray ⊢
    simp only [List.any_append, List.any_cons, Bool.or_eq_false_iff] at harray
    simp [*, passing_append, passing_cons, passing_nil, after, Lexer.Context.anglesAfter]
  | @parenType inner hinner ih =>
    rw [pieces] at harray ⊢
    simp only [List.any_append, List.any_cons, Bool.or_eq_false_iff] at harray
    simp [*, passing_append, passing_cons, passing_nil, after, Lexer.Context.anglesAfter]
  | unitType => rfl

/-- A blank changes no kind of token. -/
theorem spaced_calm {ps : List Piece} (h : ps.all (·.kind.calm) = true) :
    ∀ q ∈ spaced ps, q.kind.calm = true := by
  intro q hq
  have hmem : q.kind ∈ (spaced ps).map (·.kind) := List.mem_map_of_mem hq
  rw [kinds_spaced] at hmem
  obtain ⟨r, hr, hkind⟩ := List.mem_map.1 hmem
  rw [← hkind]
  exact List.all_eq_true.1 h r hr

/-- At the elements of a list in angle brackets parameters may stand. -/
theorem PrintableParam.admits {p : Node .generic} (h : p.PrintableParam) {angles : Nat}
    (hangles : p.isLifetime = true → 0 < angles) :
    Lexer.Place.AdmitsAll ⟨angles, true⟩ p.pieces := by
  cases h with
  | lifetime hname => exact ⟨⟨hangles rfl, rfl⟩, trivial⟩
  | plain hname => exact ⟨trivial, trivial⟩
  | bounded hname hbound =>
    exact ⟨trivial, trivial, Lexer.Place.admitsAll_of_calm (List.all_eq_true.1 hbound.calm)⟩
  | const hname htype =>
    exact ⟨trivial, trivial, trivial,
      Lexer.Place.admitsAll_of_calm (List.all_eq_true.1 htype.calm)⟩
  | default hname htype hvalue =>
    refine ⟨trivial, trivial, trivial, ?_⟩
    refine Lexer.Place.admitsAll_append.2
      ⟨Lexer.Place.admitsAll_of_calm (spaced_calm htype.calm), trivial, ?_, trivial⟩
    exact (literal_fits hvalue _).2.1

/-- A parameter in which no array is keeps the angle brackets that are open. -/
theorem PrintableParam.passing_angles {p : Node .generic} (h : p.PrintableParam)
    (harray : p.hasArray = false) (place : Lexer.Place) :
    (place.passing p.pieces).angles = place.angles := by
  cases h with
  | lifetime hname => rfl
  | plain hname => rfl
  | @bounded origin name bound hname hbound =>
    exact hbound.passing_angles harray _
  | @const origin name type hname htype =>
    exact htype.passing_angles harray _
  | @default origin valueOrigin name type l hname htype hvalue =>
    have htype' : type.hasArray = false := by
      unfold hasArray at harray ⊢
      rw [List.any_eq_false] at harray ⊢
      intro q hq
      have hmem : q.kind ∈ (spaced type.pieces).map (·.kind) := by
        rw [kinds_spaced]
        exact List.mem_map_of_mem hq
      obtain ⟨r, hr, hkind⟩ := List.mem_map.1 hmem
      rw [← hkind]
      exact harray r (by simp [pieces, namePieces, isMissing, hr])
    have hpassing : (place.passing (generic origin name (.constGeneric type
        (.present (.expr valueOrigin (.literal l))))).pieces).angles =
        Lexer.Context.anglesAfter ((((place.after (.keyword .const)).after (.ident name.name)).after
          (.symbol .colon)).passing type.pieces).angles l.token := by
      simp [pieces, namePieces, isMissing, Lexer.Place.passing_cons, Lexer.Place.passing_append,
        Lexer.Place.passing_spaced, Lexer.Place.passing_nil, Lexer.Place.after,
        Lexer.Context.anglesAfter]
    rw [hpassing, (literal_fits hvalue _).2.2, htype.passing_angles htype']
    rfl

/-- Parameters are written in one line, and closing brackets one by one. -/
theorem PrintableParam.shown {p : Node .generic} (h : p.PrintableParam) :
    ∀ q ∈ p.pieces, q.kind ≠ .symbol .shr ∧ q.kind ≠ .newline := by
  have htype {t : TypeExpr} (ht : t.Printable) :
      ∀ q ∈ t.pieces, q.kind ≠ .symbol .shr ∧ q.kind ≠ .newline :=
    fun q hq => TokenKind.ne_of_calm (List.all_eq_true.1 ht.calm q hq)
  cases h with
  | lifetime hname => simp [pieces, namePieces]
  | plain hname => simp [pieces, namePieces, isMissing]
  | bounded hname hbound =>
    simpa [pieces, namePieces, isMissing] using htype hbound
  | const hname htype' =>
    simpa [pieces, namePieces, isMissing] using htype htype'
  | @default origin valueOrigin name type l hname htype' hvalue =>
    intro q hq
    have hparts : q.kind = .keyword .const ∨ q.kind = .ident name.name ∨ q.kind = .symbol .colon ∨
        q ∈ spaced type.pieces ∨ q.kind = .symbol .assign ∨ q.kind = l.token := by
      simp only [pieces, namePieces, isMissing, List.mem_append, List.mem_cons] at hq
      aesop
    rcases hparts with hk | hk | hk | hq | hk | hk
    · simp [hk]
    · simp [hk]
    · simp [hk]
    · exact TokenKind.ne_of_calm (spaced_calm htype'.calm q hq)
    · simp [hk]
    · rw [hk]
      exact (literal_fits hvalue 0).1

theorem params_shown {params : List (Node .generic)} (h : ∀ p ∈ params, p.PrintableParam) :
    ∀ q ∈ (ofList params).pieces, q.kind ≠ .symbol .shr ∧ q.kind ≠ .newline := by
  induction params with
  | nil => nofun
  | cons p params ih =>
    obtain ⟨hp, hothers⟩ := List.forall_mem_cons.1 h
    rw [ofList, pieces]
    intro q hq
    rcases List.mem_append.1 hq with hq | hq
    · exact hp.shown q hq
    · split at hq
      · cases hq
      · rcases List.mem_cons.1 hq with rfl | hq
        · exact ⟨by simp [Category.separator], by simp [Category.separator]⟩
        · exact ih hothers q hq

/-- The parameters of a list may stand in angle brackets, if no lifetime stands behind an array. -/
theorem params_admit {params : List (Node .generic)} (h : ∀ p ∈ params, p.PrintableParam)
    (harrays : params.Pairwise fun p q => p.hasArray = true → q.isLifetime = false)
    {angles : Nat} (hangles : ∀ p ∈ params, p.isLifetime = true → 0 < angles) :
    Lexer.Place.AdmitsAll ⟨angles, true⟩ (ofList params).pieces := by
  induction params generalizing angles with
  | nil => trivial
  | cons p params ih =>
    obtain ⟨hfirst, hothers⟩ := List.pairwise_cons.1 harrays
    have hp := h p List.mem_cons_self
    have hadmits := hp.admits (hangles p List.mem_cons_self)
    cases params with
    | nil =>
      have hsingle : (ofList [p]).pieces = p.pieces := List.append_nil _
      rwa [hsingle]
    | cons q params =>
      refine Lexer.Place.admitsAll_append.2 ⟨hadmits, trivial, ?_⟩
      refine ih (fun r hr => h r (List.mem_cons_of_mem p hr)) hothers fun r hr hlifetime => ?_
      have harray : p.hasArray = false := by
        refine Bool.eq_false_iff.2 fun harray => Bool.false_ne_true ?_
        exact (hfirst r hr harray).symm.trans hlifetime
      change 0 < (Lexer.Place.passing _ p.pieces).angles
      rw [hp.passing_angles harray]
      exact hangles r (List.mem_cons_of_mem p hr) hlifetime

end Node

section Reading

variable {g : Grammar} {base s : ParserState} {ks zs : List TokenKind}

/-- What a parameter is follows from its form. -/
theorem generic_of_form {origin : Origin} {name : Ident} {form : Node .genericForm}
    (hform : Finds base (genericForm g) s ks fun r =>
      r.1.name = name.name ∧ Likeness.bare.Alike form r.2) :
    Finds base (generic g) s ks fun p => Likeness.bare.Alike (Node.generic origin name form) p := by
  unfold generic
  have hhere : here s = .ok s.current.span s := rfl
  refine .after hhere ?_
  refine hform.bind fun r s₁ hr h₁ => ?_
  refine (Finds.spanFrom h₁ _).bind fun span s₂ _ h₂ => ?_
  refine (Finds.origin h₂ span).bind fun origin' s₃ _ h₃ => ?_
  refine .result h₃ ?_
  have hname : Likeness.bare.Alike name r.1 := (congrArg (Ident.mk · default) hr.1.symm :)
  exact (congr (congrArg (Node.generic (Relabeling.bare.origin origin)) hname) hr.2 :)

/-- A lifetime is given back. -/
theorem lifetime_restores {name : String} (h : base.At s (.lifetime name :: ks)) :
    Finds base (genericForm g) s ks fun r =>
      r.1.name = name ∧ Likeness.bare.Alike Node.lifetimeGeneric r.2 := by
  obtain ⟨span, hcurrent⟩ := Finds.current h (by simp)
  unfold genericForm
  refine .after hcurrent ?_
  refine (Finds.advance h (by simp)).bind fun _ s₁ _ h₁ => ?_
  exact .result h₁ ⟨rfl, rfl⟩

/-- A parameter for types is read from its name on. -/
theorem typeForm_of_bound {name : String} {bound : Node (.maybe .type)}
    (h : base.At s (.ident name :: ks))
    (hbound : ∀ s', base.At s' ks →
      Finds base (typeAfterColon? g) s' zs fun b => Likeness.bare.Alike bound b) :
    Finds base (genericForm g) s zs fun r =>
      r.1.name = name ∧ Likeness.bare.Alike (Node.typeGeneric bound) r.2 := by
  obtain ⟨span, hcurrent⟩ := Finds.current h (by simp)
  unfold genericForm
  refine .after hcurrent ?_
  refine (Finds.reject h (by simp) (by simp) (by simp)).bind fun found s₁ hfound h₁ => ?_
  rw [if_neg (by simp [hfound])]
  refine (Finds.ident h₁).bind fun x s₂ hx h₂ => ?_
  refine (hbound s₂ h₂).bind fun b s₃ hb h₃ => ?_
  exact .result h₃ ⟨hx, (congrArg Node.typeGeneric hb :)⟩

/-- A parameter for values is read up to its default. -/
theorem constForm_of_default {name : String} {type : TypeExpr} {default : Node (.maybe .expr)}
    (htype : Restores (g .type) type) (hks : EndsType ks)
    (h : base.At s (.keyword .const :: .ident name :: .symbol .colon :: (type.kinds ++ ks)))
    (hdefault : ∀ s', base.At s' ks →
      Finds base (defaultValue? g) s' zs fun d => Likeness.bare.Alike default d) :
    Finds base (genericForm g) s zs fun r =>
      r.1.name = name ∧ Likeness.bare.Alike (Node.constGeneric type default) r.2 := by
  obtain ⟨span, hcurrent⟩ := Finds.current h (by simp)
  unfold genericForm
  refine .after hcurrent ?_
  refine (Finds.accept h (by simp)).bind fun found s₁ hfound h₁ => ?_
  rw [if_pos hfound]
  refine (Finds.ident h₁).bind fun x s₂ hx h₂ => ?_
  refine (Finds.expect h₂ (by simp)).discard.bind fun _ s₃ _ h₃ => ?_
  refine (htype base s₃ ks h₃ hks).bind fun t s₄ ht h₄ => ?_
  refine (hdefault s₄ h₄).bind fun d s₅ hd h₅ => ?_
  exact .result h₅ ⟨hx, (congr (congrArg Node.constGeneric ht) hd :)⟩

/-- Parameters are given back in front of a comma, and those without a default in front of the
closing bracket of the list. -/
theorem generic_restores {n : Nat} {p : Node .generic} (hp : p.PrintableParam)
    (hg : Inner g n) (hweight : p.weight < n) {k : TokenKind}
    (hk : k = .symbol .comma ∨ k = .symbol .rAngle ∧ p.hasDefault = false) :
    RestoresAt (generic g) p k := by
  intro base s zs h
  have hbehind : k ≠ .symbol .colon ∧ k ≠ .symbol .assign ∧ EndsType (k :: zs) := by
    rcases hk with rfl | ⟨rfl, -⟩ <;> exact ⟨by simp, by simp, endsType_cons.2 (by simp)⟩
  obtain ⟨hcolon, hassign, hends⟩ := hbehind
  cases hp with
  | lifetime hname => exact generic_of_form (lifetime_restores h)
  | @plain origin name hname =>
    have hat : base.At s (.ident name.name :: k :: zs) := h
    refine generic_of_form (typeForm_of_bound hat fun s' h' => ?_)
    unfold typeAfterColon?
    refine (Finds.reject h' (by simpa using hcolon) (by simp) (by simp)).bind
      fun found s₁ hfound h₁ => ?_
    rw [if_neg (by simp [hfound])]
    exact .result h₁ rfl
  | @bounded origin name bound hname hbound =>
    have hat : base.At s (.ident name.name :: .symbol .colon :: (bound.kinds ++ k :: zs)) := by
      simpa [Node.kinds, Node.pieces, Node.namePieces, Node.isMissing] using h
    have hless : bound.weight < n := by
      refine Nat.lt_of_le_of_lt ?_ hweight
      simp [Node.weight, Node.kinds, Node.pieces, Node.namePieces, Node.isMissing]
      omega
    refine generic_of_form (typeForm_of_bound hat fun s' h' => ?_)
    unfold typeAfterColon?
    refine (Finds.accept h' (by simp)).bind fun found s₁ hfound h₁ => ?_
    rw [if_pos hfound]
    refine (hg.types bound hbound hless base s₁ _ h₁ hends).bind fun t s₂ ht h₂ => ?_
    exact .result h₂ (congrArg Node.present ht :)
  | @const origin name type hname htype =>
    have hat : base.At s (.keyword .const :: .ident name.name :: .symbol .colon ::
        (type.kinds ++ k :: zs)) := by
      simpa [Node.kinds, Node.pieces, Node.namePieces, Node.isMissing] using h
    have hless : type.weight < n := by
      refine Nat.lt_of_le_of_lt ?_ hweight
      simp [Node.weight, Node.kinds, Node.pieces, Node.namePieces, Node.isMissing]
      omega
    refine generic_of_form (constForm_of_default (hg.types type htype hless) hends hat
      fun s' h' => ?_)
    unfold defaultValue?
    refine (Finds.reject h' (by simpa using hassign) (by simp) (by simp)).bind
      fun found s₁ hfound h₁ => ?_
    rw [if_neg (by simp [hfound])]
    exact .result h₁ rfl
  | @default origin valueOrigin name type l hname htype hvalue =>
    have hat : base.At s (.keyword .const :: .ident name.name :: .symbol .colon ::
        (type.kinds ++ .symbol .assign :: l.token :: k :: zs)) := by
      simpa [Node.kinds, Node.pieces, Node.namePieces, Node.isMissing, kinds_spaced] using h
    have hless : type.weight < n := by
      refine Nat.lt_of_le_of_lt ?_ hweight
      simp [Node.weight, Node.kinds, Node.pieces, Node.namePieces, Node.isMissing, kinds_spaced]
      omega
    -- Behind the default of the last parameter the closing bracket would be an operator.
    obtain rfl : k = .symbol .comma := hk.resolve_right fun hlast => Bool.noConfusion hlast.2
    have hpos := htype.type_pos
    refine generic_of_form (constForm_of_default (hg.types type htype hless)
      (endsType_cons.2 (by simp)) hat fun s' h' => ?_)
    unfold defaultValue?
    refine (Finds.accept h' (by simp)).bind fun found s₁ hfound h₁ => ?_
    rw [if_pos hfound]
    refine (hg.literals (by omega) l base s₁ _ hvalue h₁ (by simp [TokenKind.canStartValue])).bind
      fun e s₂ he h₂ => ?_
    obtain ⟨valueOrigin', rfl⟩ := he
    exact .result h₂ rfl

/-- Lists of generic parameters that are read back: the last one has no default, and no
lifetime stands behind an array. -/
structure Recoverable (params : List (Node .generic)) : Prop where
  ne_nil : params ≠ []
  printable : ∀ p ∈ params, p.PrintableParam
  noDefault : ∀ p ∈ params.getLast?, p.hasDefault = false
  lifetimes : params.Pairwise fun p q => p.hasArray = true → q.isLifetime = false

/-- A list of generic parameters is given back. -/
theorem generics_restores {n : Nat} {params : List (Node .generic)} (hparams : Recoverable params)
    (hg : Inner g n) (hweight : (Node.ofList params).weight < n)
    (h : base.At s (.symbol .lAngle :: ((Node.ofList params).kinds ++ .symbol .rAngle :: ks))) :
    Finds base (generics n g) s ks fun ps => Likeness.bare.Alike (Node.ofList params) ps := by
  have hbegins : ∀ p ∈ params, p.Begins := fun p hp =>
    Node.begins_of_neat (hparams.printable p hp).neat
  have hless {p : Node .generic} (hp : p ∈ params) : p.weight < n :=
    Nat.lt_of_le_of_lt (Node.weight_element hp) hweight
  have hlength := Node.length_le_weight hbegins
  unfold generics
  refine (Finds.accept h (by simp)).bind fun found s₁ hfound h₁ => ?_
  rw [if_neg (by simp [hfound])]
  refine (Finds.skipNewlines h₁).bind fun _ s₂ _ h₂ => ?_
  refine (commaList_restores delimits_angles rfl hbegins (fun p hp => ?_) (fun p hp => ?_)
    (by omega) h₂).bind fun r s₃ hr h₃ => ?_
  · have hmem := List.dropLast_subset params hp
    exact generic_restores (hparams.printable p hmem) hg (hless hmem) (Or.inl rfl)
  · have hmem := List.mem_of_getLast? hp
    exact generic_restores (hparams.printable p hmem) hg (hless hmem)
      (Or.inr ⟨rfl, hparams.noDefault p hp⟩)
  · refine (Finds.closeAngle h₃).bind fun _ s₄ _ h₄ => ?_
    exact .result h₄ hr.1.ofList

/-- An empty block. -/
theorem block_empty {n : Nat} (h : base.At s (.symbol .lBrace :: .symbol .rBrace :: ks)) :
    Finds base (block (grammar (n + 1))) s ks fun b => ∃ origin, b = .block origin .nil := by
  unfold block
  refine (Finds.expect h (by simp)).bind fun start s₁ _ h₁ => ?_
  refine (Finds.openGroup h₁ false).bind fun _ s₂ _ h₂ => ?_
  have hstmts : grammar (n + 1) .stmts s₂ = .ok .nil s₂ := by
    obtain ⟨t, ts, hrest, hkind, -⟩ := h₂.shows.rest_cons (by simp)
    have hskip : s₂.atStatement = s₂ := ParserState.atStatement_stays hrest (by rw [hkind]; rfl)
    have hclose : s₂.kind = .symbol .rBrace := h₂.shows.kind_eq (by simp)
    have hlist : stmtList (n + 1) (grammar n) (n + 1) s₂ = .ok [] s₂ := by
      have hat : atSymbol .rBrace s₂ = .ok true s₂ := by
        change EStateM.Result.ok (s₂.kind == .symbol .rBrace) s₂ = _
        rw [hclose]
        rfl
      unfold stmtList
      exact (bind_run hat).trans rfl
    change (stmtList (n + 1) (grammar n) (n + 1) >>= _) s₂.atStatement = _
    rw [hskip]
    exact bind_run hlist
  refine .after hstmts ?_
  refine (Finds.closeStrict h₂ (by simp)).bind fun _ s₃ _ h₃ => ?_
  refine (Finds.freshId h₃).bind fun id s₄ _ h₄ => ?_
  refine (Finds.spanFrom h₄ start).bind fun span s₅ _ h₅ => ?_
  exact .result h₅ ⟨⟨id, span⟩, rfl⟩

/-- A parameter of a function is given back. -/
theorem param_restores {name : String} {type : TypeExpr} (htype : Restores (g .type) type)
    (hks : EndsType ks) (hassign : .symbol .assign ∉ ks.head?)
    (h : base.At s (.ident name :: .symbol .colon :: (type.kinds ++ ks))) :
    Finds base (param g) s ks fun p =>
      Likeness.bare.Alike (Node.param default ⟨name, default⟩ type .absent) p := by
  unfold param
  refine (Finds.here h).bind fun start s₁ _ h₁ => ?_
  refine (Finds.ident h₁).bind fun x s₂ hx h₂ => ?_
  refine (Finds.expect h₂ (by simp)).discard.bind fun _ s₃ _ h₃ => ?_
  refine (htype base s₃ ks h₃ hks).bind fun t s₄ ht h₄ => ?_
  have hdefault : Finds base (defaultValue? g) s₄ ks (· = .absent) := by
    unfold defaultValue?
    refine (Finds.reject h₄ hassign (by simp) (by simp)).bind fun found s' hfound h' => ?_
    rw [if_neg (by simp [hfound])]
    exact .result h' rfl
  refine hdefault.bind fun d s₅ hd h₅ => ?_
  refine (Finds.spanFrom h₅ start).bind fun span s₆ _ h₆ => ?_
  refine (Finds.origin h₆ span).bind fun origin s₇ _ h₇ => ?_
  subst hd
  have hname : Likeness.bare.Alike (⟨name, default⟩ : Ident) x :=
    (congrArg (Ident.mk · default) hx.symm :)
  exact .result h₇ (congrFun (congr (congrArg (Node.param default) hname) ht) Node.absent :)

/-- A single parameter of a function is given back. -/
theorem params_restores {n : Nat} {name : String} {type : TypeExpr}
    (htype : Restores (g .type) type)
    (h : base.At s (.symbol .lParen :: .ident name :: .symbol .colon ::
      (type.kinds ++ .symbol .rParen :: ks))) :
    Finds base (params (n + 1) g) s ks fun ps => Likeness.bare.Alike
      (Node.cons (Node.param default ⟨name, default⟩ type .absent) .nil) ps := by
  unfold params
  refine (Finds.expect h (by simp)).discard.bind fun _ s₁ _ h₁ => ?_
  refine (Finds.openGroup h₁ true).bind fun _ s₂ _ h₂ => ?_
  have hparam := param_restores htype (endsType_cons.2 (by simp)) (by simp) h₂
  have hlist : Finds (base.openGroup true) (commaListTo (n + 1) .rParen (param g)) s₂
      (.symbol .rParen :: ks) fun ps => ∃ p, ps = [p] ∧
        Likeness.bare.Alike (Node.param default ⟨name, default⟩ type .absent) p := by
    refine (commaList_last (n := n) delimits_parens rfl h₂ hparam).mono ?_ |>.map
    rintro _ ⟨p, rfl, hp⟩
    exact ⟨p, rfl, hp⟩
  refine hlist.bind fun ps s₃ hps h₃ => ?_
  obtain ⟨p, rfl, hp⟩ := hps
  refine (Finds.closeStrict h₃ (by simp)).bind fun _ s₄ _ h₄ => ?_
  exact .result h₄ (hp.cons Likeness.alike_nil).ofList

/-- A function with generic parameters and nothing in its body. -/
def genericFunc (name param : String) (type : TypeExpr) (params : List (Node .generic)) :
    ItemForm :=
  .funcItem ⟨name, default⟩ (.ofList params)
    (.cons (.param default ⟨param, default⟩ type .absent) .nil) .absent
    (.present (.blockBody (.block default .nil)))

theorem inner_grammar (n : Nat) : Inner (grammar (n + 1)) (n + 1) :=
  ⟨fun _ hu hless => grammar_restores (n + 1) hu (Nat.le_of_lt hless),
    fun _ => expr_restoresLiterals n (grammar n)⟩

/-- Such a function is given back. -/
theorem func_restores {n : Nat} {name param : String} {type : TypeExpr}
    {params : List (Node .generic)} (hparams : Recoverable params) (htype : type.Printable)
    (hweight : (Node.ofList params).weight < n + 1) (hless : type.weight < n + 1)
    (h : base.At s (.keyword .func :: .ident name :: .symbol .lAngle ::
    ((Node.ofList params).kinds ++
      .symbol .rAngle :: .symbol .lParen :: .ident param :: .symbol .colon ::
        (type.kinds ++ [.symbol .rParen, .symbol .lBrace, .symbol .rBrace])))) :
    Finds base (func (n + 1) (grammar (n + 1))) s [] fun f =>
      Likeness.bare.Alike (genericFunc name param type params) f := by
  have hg := inner_grammar n
  unfold func
  refine (Finds.expect h (by simp)).discard.bind fun _ s₁ _ h₁ => ?_
  refine (Finds.ident h₁).bind fun x s₂ hx h₂ => ?_
  refine (generics_restores hparams hg hweight h₂).bind fun gs s₃ hgs h₃ => ?_
  refine (params_restores (n := n) (hg.types type htype hless) h₃).bind fun ps s₄ hps h₄ => ?_
  have hresult : Finds base (typeAfterColon? (grammar (n + 1))) s₄
      [.symbol .lBrace, .symbol .rBrace] (· = .absent) := by
    unfold typeAfterColon?
    refine (Finds.reject h₄ (by simp) (by simp) (by simp)).bind fun found s' hfound h' => ?_
    rw [if_neg (by simp [hfound])]
    exact .result h' rfl
  refine hresult.bind fun r s₅ hr h₅ => ?_
  have hbody : Finds base (funcBody? (grammar (n + 1))) s₅ [] fun b =>
      ∃ origin, b = .present (.blockBody (.block origin .nil)) := by
    unfold funcBody?
    refine .after (kind_run s₅) ?_
    rw [h₅.shows.kind_eq (by simp)]
    refine (block_empty h₅).bind fun b s' hb h' => ?_
    obtain ⟨origin, rfl⟩ := hb
    exact .result h' ⟨origin, rfl⟩
  refine hbody.bind fun b s₆ hb h₆ => ?_
  obtain ⟨origin, rfl⟩ := hb
  subst hr
  have hname : Likeness.bare.Alike (⟨name, default⟩ : Ident) x :=
    (congrArg (Ident.mk · default) hx.symm :)
  have hparts := congr (congr (congrArg Node.funcItem hname) hgs) hps
  exact .result h₆ (congrFun (congrFun hparts .absent)
    (.present (.blockBody (.block default .nil))) :)

/-- A declaration without attributes and modifiers is given back as a statement. -/
theorem stmt_of_func {n : Nat} {form : ItemForm} (h : base.At s (.keyword .func :: ks))
    (hfunc : ∀ s', base.At s' (.keyword .func :: ks) → Finds base (func (n + 1) g) s' zs
      fun f => Likeness.bare.Alike form f) :
    Finds base (stmt (n + 1) g) s zs fun x =>
      Likeness.bare.Alike (Node.stmt default (.itemStmt (.item default .nil [] form))) x := by
  have hkind {s' : ParserState} (h' : base.At s' (.keyword .func :: ks)) :
    s'.kind = .keyword .func :=
    h'.shows.kind_eq (by simp)
  have hattrs {s' : ParserState} (h' : base.At s' (.keyword .func :: ks)) :
      Finds base (attrs (n + 1) g (n + 1)) s' (.keyword .func :: ks) (· = []) := by
    unfold attrs
    refine (Finds.atOther h' (by simp) (by simp) (by simp)).bind fun found s₁ hfound h₁ => ?_
    rw [if_pos (by simp [hfound])]
    exact .result h₁ rfl
  have hmodifiers {s' : ParserState} (h' : base.At s' (.keyword .func :: ks)) :
      Finds base (modifiers (n + 1)) s' (.keyword .func :: ks) (· = []) := by
    unfold modifiers
    refine .after (kind_run s') ?_
    rw [hkind h']
    exact .result h' rfl
  have hitem {s' : ParserState} (h' : base.At s' (.keyword .func :: ks)) :
      Finds base (item (n + 1) g) s' zs fun x =>
        Likeness.bare.Alike (Node.item default .nil [] form) x := by
    unfold item itemAfter
    refine (Finds.here h').bind fun start s₁ _ h₁ => ?_
    refine (hattrs h₁).bind fun as s₂ has h₂ => ?_
    refine (hmodifiers h₂).bind fun ms s₃ hms h₃ => ?_
    have hform : Finds base (itemForm (n + 1) g false) s₃ zs
        fun f => Likeness.bare.Alike form f := by
      unfold itemForm
      refine .after (kind_run s₃) ?_
      rw [hkind h₃]
      exact hfunc s₃ h₃
    refine hform.bind fun f s₄ hf h₄ => ?_
    refine (Finds.freshId h₄).bind fun id s₅ _ h₅ => ?_
    refine (Finds.spanFrom h₅ start).bind fun span s₆ _ h₆ => ?_
    subst has hms
    exact .result h₆ (congrArg (Node.item default .nil []) hf :)
  have hstmtForm {s' : ParserState} (h' : base.At s' (.keyword .func :: ks)) :
      Finds base (stmtForm (n + 1) g) s' zs fun f =>
        Likeness.bare.Alike (Node.itemStmt (.item default .nil [] form)) f := by
    unfold stmtForm
    refine .after (kind_run s') ?_
    rw [hkind h']
    refine (hitem h').bind fun x s₁ hx h₁ => ?_
    exact .result h₁ (congrArg Node.itemStmt hx :)
  unfold stmt
  refine (Finds.here h).bind fun start s₁ _ h₁ => ?_
  refine (hstmtForm h₁).bind fun f s₂ hf h₂ => ?_
  refine (Finds.freshId h₂).bind fun id s₃ _ h₃ => ?_
  refine (Finds.spanFrom h₃ start).bind fun span s₄ _ h₄ => ?_
  exact .result h₄ (congrArg (Node.stmt default) hf :)

end Reading

/-- The text of a function with generic parameters. -/
def genericText (params : List (Node .generic)) : String :=
  "func f<" ++ (Node.ofList params).text ++ ">(x: int) \x7b\x7d"

/-- The type of its parameter. -/
def intType : TypeExpr :=
  .type default (.pathType (.path false (.ofList [.segment ⟨"int", default⟩ .nil]) default .empty))

theorem intType_printable : intType.Printable :=
  .type (.pathType (.path (.cons rfl (.segment ⟨rfl, rfl⟩ .nil) .nil)))

/-- What stands in front of the generic parameters. -/
def genericFront : List Piece := [⟨.keyword .func, true⟩, ⟨.ident "f", false⟩, .mark .lAngle]

/-- What stands behind them. -/
def genericBack : List Piece :=
  [.mark .rAngle, .mark .lParen, ⟨.ident "x", false⟩, .wide .colon, ⟨.ident "int", false⟩,
    .wide .rParen, .mark .lBrace, .mark .rBrace]

theorem genericText_eq (params : List (Node .generic)) : genericText params =
    String.ofList (written (genericFront ++ ((Node.ofList params).pieces ++ genericBack))) := by
  have hfront : written genericFront = "func f<".toList := by decide
  have hback : written genericBack = ">(x: int) \x7b\x7d".toList := by decide
  have htext : (Node.ofList params).text.toList = written (Node.ofList params).pieces :=
    String.toList_ofList
  rw [← String.toList_inj, String.toList_ofList]
  unfold genericText
  rw [String.toList_append, String.toList_append, htext, ← hfront, ← hback, List.append_assoc]
  unfold written
  rw [List.flatMap_append, List.flatMap_append]

namespace Recoverable

variable {params : List (Node .generic)}

/-- All pieces of the text fit together. -/
theorem neat (h : Recoverable params) : Neat (fun _ => True) (fun _ => True)
    (genericFront ++ ((Node.ofList params).pieces ++ genericBack)) := by
  obtain ⟨p, others, rfl⟩ := List.exists_cons_of_ne_nil h.ne_nil
  have hback : Neat (· = .mark .rAngle) (fun _ => True) genericBack := by
    refine ⟨?_, ?_, by simp [genericBack], by simp [genericBack], fun _ _ => trivial⟩
    · simp only [genericBack, List.forall_mem_cons]
      exact ⟨rfl, rfl, ⟨rfl, rfl⟩, rfl, ⟨rfl, rfl⟩, rfl, rfl, rfl, by simp⟩
    · simp only [genericBack, List.isChain_cons_cons, List.isChain_singleton, and_true]
      refine ⟨?_, ?_, ?_, ?_, ?_, ?_, ?_⟩
      all_goals first
        | exact Or.inl (Or.inl rfl)
        | exact Or.inl (Or.inr (by decide))
  have hlist := (Node.neat_params h.printable).append hback fun hp hq =>
    hq ▸ Piece.ends_before hp rfl
  have hname : Neat Piece.Opens (fun _ => True)
      (⟨.ident "f", false⟩ :: .mark .lAngle :: ((Node.ofList (p :: others)).pieces ++
      genericBack)) :=
    (Neat.ident ⟨rfl, rfl⟩).between hlist _ _ rfl rfl (Or.inl rfl)
  exact .cons (p := ⟨.keyword .func, true⟩) (by simp [TokenKind.Legible]) trivial hname
    fun _ => Piece.before_blank rfl

/-- They stand where they may. -/
theorem admits (h : Recoverable params) : Lexer.Place.AdmitsAll ⟨0, false⟩
    (genericFront ++ ((Node.ofList params).pieces ++ genericBack)) := by
  have hback : ∀ q ∈ genericBack, q.kind.calm = true := by decide
  have hparams : Lexer.Place.AdmitsAll ⟨1, true⟩ ((Node.ofList params).pieces ++ genericBack) :=
    Lexer.Place.admitsAll_append.2 ⟨Node.params_admit h.printable h.lifetimes fun _ _ _ =>
    Nat.one_pos,
      Lexer.Place.admitsAll_of_calm hback⟩
  exact Lexer.Place.admitsAll_append.2 ⟨⟨trivial, trivial, trivial, trivial⟩, hparams⟩

/-- They are shown as they are. -/
theorem shown (h : Recoverable params) :
    ∀ q ∈ genericFront ++ ((Node.ofList params).pieces ++ genericBack),
      q.kind ≠ .symbol .shr ∧ q.kind ≠ .newline ∧ q.kind ≠ .eof := by
  intro q hq
  have hfixed : ∀ q ∈ genericFront ++ genericBack,
      q.kind ≠ .symbol .shr ∧ q.kind ≠ .newline := by decide
  have heof : q.kind ≠ .eof := by
    intro hkind
    have hlegible := h.neat.legible q hq
    rw [hkind] at hlegible
    exact hlegible
  rw [← and_assoc]
  refine ⟨?_, heof⟩
  rcases List.mem_append.1 hq with hq | hq
  · exact hfixed q (List.mem_append_left _ hq)
  rcases List.mem_append.1 hq with hq | hq
  · exact Node.params_shown h.printable q hq
  · exact hfixed q (List.mem_append_right _ hq)

end Recoverable

/-- Generic parameters are read back from the text of a function: the function that is read has
these parameters up to numbers and places, and nothing is reported. -/
theorem written_generics_restored {params : List (Node .generic)} (h : Recoverable params)
    (file : FileId) : ∃ lexed q, lex file (genericText params) = .ok lexed ∧
      parse file lexed.tokens = .ok q ∧ q.diagnostics = [] ∧
      Likeness.bare.Alike
        [Node.stmt default (.itemStmt (.item default .nil [] (genericFunc "f" "x" intType params)))]
        q.stmts := by
  have hneat := h.neat
  obtain ⟨ts, span, lines, hlex, hts⟩ := lex_written hneat.legible hneat.joined h.admits file
  rw [← genericText_eq] at hlex
  have hshows : (ParserState.start file (ts ++ [⟨.eof, span⟩])).Shows _ :=
    ParserState.start_shows h.shown hts
  have hkinds : (genericFront ++ ((Node.ofList params).pieces ++ genericBack)).map (·.kind) =
      .keyword .func :: .ident "f" :: .symbol .lAngle :: ((Node.ofList params).kinds ++
        .symbol .rAngle :: .symbol .lParen :: .ident "x" :: .symbol .colon ::
          (intType.kinds ++ [.symbol .rParen, .symbol .lBrace, .symbol .rBrace])) := by
    rw [List.map_append, List.map_append]
    rfl
  have hweight : (Node.ofList params).weight + 7 ≤ ts.length := by
    have hcount := countP_le_fused (genericFront ++ ((Node.ofList params).pieces ++ genericBack))
    rw [← hts, List.length_map, hkinds] at hcount
    refine Nat.le_trans ?_ hcount
    unfold Node.weight
    simp [List.countP_append]
  rw [hkinds] at hshows
  obtain ⟨x, s, hrun, hx, ⟨⟨_, _, _, _, rfl⟩, hend⟩⟩ := stmt_of_func hshows.at fun s' h' =>
    func_restores (n := ts.length + 1) h intType_printable (by omega)
      (Nat.lt_of_lt_of_le (by decide) (Nat.le_add_left 2 _)) h'
  obtain ⟨t, rest, hrest, hkind, -⟩ := hshows.rest_cons (by simp)
  obtain ⟨q, hparse, hq, hdiagnostics⟩ := parse_single (n := ts.length) hrest (by rw [hkind]; simp)
    (by rw [hkind]; decide) (by simp) hrun ⟨hend.rest_nil.1, hend.final⟩
    (show 0 < maxErrors by decide)
  refine ⟨_, q, hlex, hparse, hdiagnostics, ?_⟩
  rw [hq]
  exact hx.cons Likeness.alike_nil

/-- A lifetime, a constant with a default, and a type whose bound ends in three closing brackets
with the list. -/
def mixedParams : List (Node .generic) :=
  let list (t : TypeExpr) : TypeExpr := .type default
    (.pathType (.path false (.ofList [.segment ⟨"List", default⟩ (.ofList [t])]) default .empty))
  let three : Expr := .expr default (.literal ⟨.form .decimal, "3"⟩)
  [.generic default ⟨"a", default⟩ .lifetimeGeneric,
    .generic default ⟨"n", default⟩ (.constGeneric intType (.present three)),
    .generic default ⟨"T", default⟩ (.typeGeneric (.present (list (list intType))))]

theorem written_generics_restored_mixed : Recoverable mixedParams ∧
    genericText mixedParams =
      "func f<\x27a, const n: int = 3, T: List<List<int>>>(x: int) \x7b\x7d" ∧
    ∃ lexed q, lex ⟨0⟩ (genericText mixedParams) = .ok lexed ∧
      parse ⟨0⟩ lexed.tokens = .ok q ∧ q.diagnostics = [] ∧
      Likeness.bare.Alike [Node.stmt default
        (.itemStmt (.item default .nil [] (genericFunc "f" "x" intType mixedParams)))] q.stmts := by
  have hlist {t : TypeExpr} (ht : t.Printable) : Node.Printable (.type default (.pathType
      (.path false (.ofList [.segment ⟨"List", default⟩ (.ofList [t])]) default .empty))) :=
    .type (.pathType (.path (.cons rfl
      (.segment ⟨rfl, rfl⟩ (.cons t.isMissing_type ht .nil)) .nil)))
  have hthree : Literal.Written ⟨.form .decimal, "3"⟩ := ⟨rfl, rfl, '3', [], rfl, Or.inl rfl⟩
  have hprintable : ∀ p ∈ mixedParams, p.PrintableParam := by
    unfold mixedParams
    simp only [List.forall_mem_cons]
    exact ⟨.lifetime rfl, .default ⟨rfl, rfl⟩ intType_printable hthree,
      .bounded ⟨rfl, rfl⟩ (hlist (hlist intType_printable)), by simp⟩
  have hmixed : Recoverable mixedParams :=
    ⟨by simp [mixedParams], hprintable, by decide, by decide⟩
  exact ⟨hmixed, by decide +kernel, written_generics_restored hmixed ⟨0⟩⟩

/-- Behind the default of the last parameter the closing bracket is read as an operator, and behind
the semicolon of an array the scanner takes a lifetime for the beginning of a string. -/
theorem written_generics_torn :
    readsClean ⟨0⟩ "func f<const n: int = 3>(x: int) \x7b\x7d" = false ∧
    readsClean ⟨0⟩ "func f<T: [int; 3], \x27a>(x: int) \x7b\x7d" = false := by
  constructor <;> decide +kernel

end FrontEnd
