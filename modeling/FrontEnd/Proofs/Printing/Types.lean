import FrontEnd.Proofs.Grouping.Operands
import FrontEnd.Proofs.Parts
import FrontEnd.Proofs.Printing.Lists

/-!
# Types that are read back

The text of a type gives the type back, whatever types it is made of. What is shown to the parser is
followed along the type: lists of arguments find their closing brackets one by one, even where the
scanner has taken two of them for one token.
-/

namespace FrontEnd

open Parse

/-- A parser of expressions gives literals back, where they end. -/
def RestoresLiterals (p : Parser Expr) : Prop :=
  ∀ (l : Literal) base s zs, l.Written → base.At s (l.token :: zs) →
    (∀ k ∈ zs.head?, k.canStartValue = false) →
    Finds base p s zs fun e => ∃ origin, e = .expr origin (.literal l)

namespace Node

theorem kinds_segment (ident : Ident) (args : Node (.many .type)) : (segment ident args).kinds =
    .ident ident.name ::
      if args.isMissing then [] else .symbol .lAngle :: (args.kinds ++ [.symbol .rAngle]) := by
  unfold kinds
  rw [pieces, List.map_cons]
  split <;> simp

/-- The elements of a printable sequence. -/
theorem Printable.element {c : Category} {items : List (Node c)} (h : (ofList items).Printable) :
    ∀ x ∈ items, x.Printable ∧ x.Begins := by
  induction items with
  | nil => simp
  | cons x items ih =>
    cases h with
    | cons hthere hhead htail =>
      exact List.forall_mem_cons.2 ⟨⟨hhead, begins_of_neat (hhead.neat hthere)⟩, ih htail⟩

theorem Printable.length_le {c : Category} {items : List (Node c)} (h : (ofList items).Printable) :
    items.length ≤ (ofList items).weight := length_le_weight fun x hx => (h.element x hx).2

/-- A type is something. -/
theorem Printable.type_pos {t : TypeExpr} (h : t.Printable) : 0 < t.weight :=
  (begins_of_neat (h.neat t.isMissing_type)).weight_pos

theorem weight_tuple (origin : Origin) (items : Node (.many .type)) :
    items.weight + 2 ≤ (type origin (tupleType items)).weight := by
  simp only [weight, kinds, pieces, List.map_cons, List.map_append, List.countP_cons,
    List.countP_append]
  split <;> simp

theorem weight_func (origin : Origin) (params : Node (.many .type)) (result : TypeExpr) :
    params.weight + result.weight + 2 ≤ (type origin (funcType params result)).weight := by
  simp +arith [weight, kinds, pieces]

theorem weight_array (origin : Origin) (element : TypeExpr) (size : Expr) :
    element.weight < (type origin (arrayType element size)).weight := by
  simp +arith [weight, kinds, pieces]

theorem weight_slice (origin : Origin) (element : TypeExpr) :
    element.weight < (type origin (sliceType element)).weight := by
  simp +arith [weight, kinds, pieces]

theorem weight_paren (origin : Origin) (inner : TypeExpr) :
    inner.weight + 2 ≤ (type origin (parenType inner)).weight := by
  simp [weight, kinds, pieces]

end Node

section Types

variable {g : Grammar} {base s : ParserState} {ks zs : List TokenKind} {n bound : Nat}

/-- Types that the parser of types gives back. -/
def RestoresAll (g : Grammar) (args : List TypeExpr) : Prop :=
  ∀ t ∈ args, Restores (g .type) t ∧ t.Begins

/-- Lists of types are given back. -/
theorem types_restore {args : List TypeExpr} {closes : TokenKind → Bool} {gap : Parser Unit}
    {stop : TokenKind} (hlist : Delimits closes gap stop) (hargs : RestoresAll g args)
    (hn : args.length < n) (h : base.At s ((Node.ofList args).kinds ++ stop :: ks)) :
    Finds base (commaList closes gap (g .type) n false) s (stop :: ks) fun r =>
      Likeness.bare.Alike args r.1 ∧ r.2 = false := by
  refine (commaList_restores hlist rfl (fun t ht => (hargs t ht).2) (fun t ht => ?_)
    (fun t ht => ?_) hn h).mono fun r hr => ⟨hr.1, by simp [hr.2]⟩
  · exact (hargs t (List.dropLast_subset args ht)).1.restoresAt (endsType_cons.2 (by simp))
  · exact (hargs t (List.mem_of_getLast? ht)).1.restoresAt hlist.ends

/-- Type arguments are given back. -/
theorem typeArgs_restores {args : List TypeExpr} (hargs : RestoresAll g args)
    (hn : args.length < n)
    (h : base.At s (.symbol .lAngle :: ((Node.ofList args).kinds ++ .symbol .rAngle :: ks))) :
    Finds base (typeArgs n g) s ks fun xs => Likeness.bare.Alike args xs := by
  unfold typeArgs
  refine (Finds.expect h (by simp)).discard.bind fun _ s₁ _ h₁ => ?_
  refine (Finds.skipNewlines h₁).bind fun _ s₂ _ h₂ => ?_
  refine (types_restore delimits_angles hargs hn h₂).bind fun r s₃ hr h₃ => ?_
  refine (Finds.closeAngle h₃).bind fun _ s₄ _ h₄ => ?_
  exact .result h₄ hr.1

/-- The type arguments directly behind a name. -/
theorem directArgs_restores {α : Type} {args : List TypeExpr} {after : List TypeExpr → Parser α}
    {Good : α → Prop} (hargs : RestoresAll g args) (hn : args.length < n)
    (hks : .symbol .lAngle ∉ ks.head?)
    (h : base.At s ((if (Node.ofList args).isMissing then [] else
      .symbol .lAngle :: ((Node.ofList args).kinds ++ [.symbol .rAngle])) ++ ks))
    (hafter : ∀ direct s', Likeness.bare.Alike args direct → base.At s' ks →
      Finds base (after direct) s' zs Good) :
    Finds base (atSymbol .lAngle >>= fun found => if true = true ∧ found = true then
      typeArgs n g >>= after else pure [] >>= after) s zs Good := by
  cases args with
  | nil =>
    refine (Finds.atOther h hks (by simp) (by simp)).bind fun found s' hfound h' => ?_
    rw [if_neg (by simp [hfound])]
    exact hafter [] s' rfl h'
  | cons t args =>
    have hat : base.At s (.symbol .lAngle ::
        ((Node.ofList (t :: args)).kinds ++ .symbol .rAngle :: ks)) := by
      simpa [Node.ofList, Node.isMissing] using h
    refine (Finds.atThis hat (by simp)).bind fun found s' hfound h' => ?_
    rw [if_pos ⟨rfl, hfound⟩]
    exact (typeArgs_restores hargs hn h').bind hafter

/-- A segment whose type arguments are given back. -/
def RestoresSegment (g : Grammar) (bound : Nat) (x : Node .segment) : Prop :=
  ∃ ident args, x = .segment ident (.ofList args) ∧ RestoresAll g args ∧ args.length < bound

theorem alike_segment {ident name : Ident} {args args' : List TypeExpr}
    (hname : name.name = ident.name) (hargs : Likeness.bare.Alike args args') :
    Likeness.bare.Alike (Node.segment ident (.ofList args)) (.segment name (.ofList args')) := by
  have hident : Likeness.bare.Alike ident name := (congrArg (Ident.mk · default) hname.symm :)
  exact (congr (congrArg Node.segment hident) hargs.ofList :)

/-- The segments of a path are given back. -/
theorem segments_restores {x : Node .segment} {names : List (Node .segment)}
    (hnames : ∀ y ∈ x :: names, RestoresSegment g bound y) (hn : names.length < n)
    (hks : EndsType ks) (h : base.At s ((Node.ofList (x :: names)).kinds ++ ks)) :
    Finds base (segments bound g true n) s ks fun ys => Likeness.bare.Alike (x :: names) ys := by
  induction names generalizing x n s with
  | nil =>
    obtain ⟨n, rfl⟩ : ∃ m, n = m + 1 := ⟨n - 1, by omega⟩
    obtain ⟨ident, args, rfl, hargs, hbound⟩ := hnames x List.mem_cons_self
    have hat : base.At s (.ident ident.name :: ((if (Node.ofList args).isMissing then [] else
        .symbol .lAngle :: ((Node.ofList args).kinds ++ [.symbol .rAngle])) ++ ks)) := by
      simpa [Node.ofList, Node.kinds_cons, Node.kinds_segment, Node.isMissing] using h
    unfold segments
    refine (Finds.ident hat).bind fun name s₁ hname h₁ => ?_
    refine directArgs_restores hargs hbound (fun hk => (hks _ hk).2.1 rfl) h₁
      fun direct s₂ hdirect h₂ => ?_
    refine (Finds.reject h₂ (fun hk => (hks _ hk).1 rfl) (by simp) (by simp)).bind
      fun found s₃ hfound h₃ => ?_
    rw [if_pos (by simp [hfound])]
    exact .result h₃ ((alike_segment hname hdirect).cons Likeness.alike_nil)
  | cons x' names ih =>
    obtain ⟨n, rfl⟩ : ∃ m, n = m + 1 := ⟨n - 1, by omega⟩
    obtain ⟨ident, args, rfl, hargs, hbound⟩ := hnames x List.mem_cons_self
    obtain ⟨ident', args', rfl, hargs', hbound'⟩ := hnames x' (by simp)
    have hat : base.At s (.ident ident.name :: ((if (Node.ofList args).isMissing then [] else
        .symbol .lAngle :: ((Node.ofList args).kinds ++ [.symbol .rAngle])) ++
        .symbol .path :: ((Node.ofList (.segment ident' (.ofList args') :: names)).kinds ++
        ks))) := by
      simpa [Node.ofList, Node.kinds_cons (.segment ident _), Node.kinds_segment ident,
        Node.isMissing, Category.separator] using h
    unfold segments
    refine (Finds.ident hat).bind fun name s₁ hname h₁ => ?_
    refine directArgs_restores hargs hbound (by simp) h₁ fun direct s₂ hdirect h₂ => ?_
    refine (Finds.accept h₂ (by simp)).bind fun found s₃ hfound h₃ => ?_
    rw [if_neg (by simp [hfound])]
    have hname' : TokenKind.symbol .lAngle ∉
        ((Node.ofList (.segment ident' (.ofList args') :: names)).kinds ++ ks).head? := by
      simp [Node.ofList, Node.kinds_cons, Node.kinds_segment]
    refine (Finds.atOther h₃ hname' (by simp) (by simp)).bind fun angle s₄ _ h₄ => ?_
    rw [if_neg (by simp)]
    refine (ih (fun y hy => hnames y (List.mem_cons_of_mem _ hy)) (by simpa using hn) h₄).bind
      fun ys s₅ hys h₅ => ?_
    exact .result h₅ ((alike_segment hname hdirect).cons hys)

/-- A path of types is given back. -/
theorem path_restores {global : Bool} {x : Node .segment} {names : List (Node .segment)}
    {span : Span}
    (hnames : ∀ y ∈ x :: names, RestoresSegment g n y) (hn : names.length < n) (hks : EndsType ks)
    (h : base.At s ((Node.path global (.ofList (x :: names)) span .empty).kinds ++ ks)) :
    Finds base (path n g true) s ks fun p =>
      Likeness.bare.Alike (Node.path global (.ofList (x :: names)) span .empty) p := by
  unfold path
  refine (Finds.here h).bind fun start s₁ _ h₁ => ?_
  have hsegments : Finds base (acceptSymbol .path) s₁ ((Node.ofList (x :: names)).kinds ++ ks)
      (· = global) := by
    cases global with
    | true => exact Finds.accept h₁ (by simp)
    | false =>
      refine Finds.reject h₁ ?_ (by simp) (by simp)
      obtain ⟨ident, args, rfl, -, -⟩ := hnames x List.mem_cons_self
      simp [Node.kinds, Node.pieces, Node.ofList]
  refine hsegments.bind fun found s₂ hfound h₂ => ?_
  subst hfound
  refine (segments_restores hnames hn hks h₂).bind fun ys s₃ hys h₃ => ?_
  refine (Finds.spanFrom h₃ start).bind fun span' s₄ _ h₄ => ?_
  exact .result h₄ (congrArg (Node.path found · default .empty) hys.ofList :)

/-- What is known of the types inside a type. -/
structure Inner (g : Grammar) (bound : Nat) : Prop where
  types : ∀ u : TypeExpr, u.Printable → u.weight < bound → Restores (g .type) u
  literals : 1 < bound → RestoresLiterals (g .expr)

theorem Inner.restoresAll (hg : Inner g bound) {args : List TypeExpr}
    (hargs : (Node.ofList args).Printable) (hweight : (Node.ofList args).weight < bound) :
    RestoresAll g args := by
  intro t ht
  obtain ⟨hprintable, hbegins⟩ := hargs.element t ht
  exact ⟨hg.types t hprintable (Nat.lt_of_le_of_lt (Node.weight_element ht) hweight), hbegins⟩

/-- Types in parentheses are read by what is known of the list of them. -/
theorem parenType_items {inside : List TokenKind} {GoodItems : List TypeExpr × Bool → Prop}
    {Good : TypeExpr → Prop}
    (hitems : ∀ base s, base.At s (inside ++ .symbol .rParen :: ks) →
      Finds base (commaList (· = .symbol .rParen) (pure ()) (g .type) n false) s
        (.symbol .rParen :: ks) GoodItems)
    (h : base.At s (.symbol .lParen :: (inside ++ .symbol .rParen :: ks)))
    (hafter : ∀ (start : Span) r s', GoodItems r → base.At s' ks → Finds base (do
      if ← acceptSymbol .arrow then
        let result ← g .type
        newType (.funcType (.ofList r.1) result) (start.cover result.typeSpan)
      else newType (parenForm r.1 r.2) (← spanFrom start)) s' zs Good) :
    Finds base (parenType n g) s zs Good := by
  unfold parenType
  refine (Finds.here h).bind fun start s₁ _ h₁ => ?_
  refine (Finds.advance h₁ (by simp)).bind fun _ s₂ _ h₂ => ?_
  refine (Finds.openGroup h₂ true).bind fun _ s₃ _ h₃ => ?_
  refine (hitems _ s₃ h₃).bind fun r s₄ hr h₄ => ?_
  refine (Finds.close h₄ (by simp)).bind fun closed s₅ hclosed h₅ => ?_
  rw [if_neg (by simp [hclosed])]
  exact hafter start r s₅ hr h₅

/-- Without an arrow behind them they are a type. -/
theorem parenType_plain {inside : List TokenKind} {GoodItems : List TypeExpr × Bool → Prop}
    (hitems : ∀ base s, base.At s (inside ++ .symbol .rParen :: ks) →
      Finds base (commaList (· = .symbol .rParen) (pure ()) (g .type) n false) s
        (.symbol .rParen :: ks) GoodItems) (hks : EndsType ks)
    (h : base.At s (.symbol .lParen :: (inside ++ .symbol .rParen :: ks))) :
    Finds base (parenType n g) s ks fun t =>
      ∃ origin r, GoodItems r ∧ t = .type origin (parenForm r.1 r.2) := by
  refine parenType_items hitems h fun start r s₁ hr h₁ => ?_
  refine (Finds.reject h₁ (fun hk => (hks _ hk).2.2 rfl) (by simp) (by simp)).bind
    fun found s₂ hfound h₂ => ?_
  rw [if_neg (by simp [hfound])]
  refine (Finds.spanFrom h₂ start).bind fun span s₃ _ h₃ => ?_
  refine (Finds.newType h₃ _ span).mono ?_
  rintro t ⟨origin, rfl⟩
  exact ⟨origin, r, hr, rfl⟩

theorem alike_type {origin origin' : Origin} {form form' : TypeForm}
    (h : Likeness.bare.Alike form form') :
    Likeness.bare.Alike (Node.type origin form) (.type origin' form') :=
  (congrArg (Node.type (Relabeling.bare.origin origin)) h :)

/-- The type of functions is given back. -/
theorem funcType_restores {params : List TypeExpr} {result : TypeExpr} {origin : Origin}
    (hparams : RestoresAll g params) (hn : params.length < n) (hresult : Restores (g .type) result)
    (hks : EndsType ks)
    (h : base.At s ((Node.type origin (.funcType (.ofList params) result)).kinds ++ ks)) :
    Finds base (parenType n g) s ks fun t =>
      Likeness.bare.Alike (Node.type origin (.funcType (.ofList params) result)) t := by
  have hat : base.At s (.symbol .lParen :: ((Node.ofList params).kinds ++ .symbol .rParen ::
      .symbol .arrow :: (result.kinds ++ ks))) := by
    simpa [Node.kinds, Node.pieces] using h
  refine parenType_items (fun base' s' h' => types_restore delimits_parens hparams hn h') hat
    fun start r s₁ hr h₁ => ?_
  refine (Finds.accept h₁ (by simp)).bind fun found s₂ hfound h₂ => ?_
  rw [if_pos hfound]
  refine (hresult base s₂ ks h₂ hks).bind fun result' s₃ hresult' h₃ => ?_
  refine (Finds.newType h₃ _ _).mono ?_
  rintro t ⟨origin', rfl⟩
  exact alike_type (congr (congrArg Node.funcType hr.1.ofList) hresult' :)

/-- Several types in parentheses are given back. -/
theorem tupleType_restores {x : TypeExpr} {items : List TypeExpr} {origin : Origin}
    (hitems : RestoresAll g (x :: items)) (hn : items.length + 1 < n) (hks : EndsType ks)
    (h : base.At s ((Node.type origin (.tupleType (.ofList (x :: items)))).kinds ++ ks)) :
    Finds base (parenType n g) s ks fun t =>
      Likeness.bare.Alike (Node.type origin (.tupleType (.ofList (x :: items)))) t := by
  cases items with
  | nil =>
    -- The comma behind a single element tells the tuple from a type in parentheses.
    have hat :
      base.At s (.symbol .lParen :: (x.kinds ++ [.symbol .comma] ++ .symbol .rParen :: ks)) := by
      simpa [Node.kinds, Node.pieces, Node.ofList, Node.isSingle, Node.isMissing] using h
    obtain ⟨n, rfl⟩ : ∃ m, n = m + 2 := ⟨n - 2, by omega⟩
    obtain ⟨hx, hbegins⟩ := hitems x List.mem_cons_self
    have hread base' s' (h' : base'.At s' (x.kinds ++ [.symbol .comma] ++ .symbol .rParen :: ks)) :
        Finds base' (commaList (· = .symbol .rParen) (pure ()) (g .type) (n + 2) false) s'
          (.symbol .rParen :: ks) fun r => ∃ y, r = ([y], true) ∧ Likeness.bare.Alike x y := by
      refine (commaList_comma delimits_parens hbegins (hx.restoresAt (endsType_cons.2 (by simp)))
        (by simpa using h') fun s'' h'' => commaList_close delimits_parens h'').mono ?_
      rintro ⟨_, _⟩ ⟨y, ys, rfl, hy, hys⟩
      obtain ⟨rfl, rfl⟩ := Prod.mk.inj hys
      exact ⟨y, rfl, hy⟩
    refine (parenType_plain hread hks hat).mono ?_
    rintro _ ⟨origin', _, ⟨y, rfl, hy⟩, rfl⟩
    exact alike_type (congrArg Node.tupleType (hy.cons Likeness.alike_nil).ofList :)
  | cons x' items =>
    have hat : base.At s (.symbol .lParen :: ((Node.ofList (x :: x' :: items)).kinds ++
        .symbol .rParen :: ks)) := by
      simpa [Node.kinds, Node.pieces, Node.ofList, Node.isSingle, Node.isMissing] using h
    refine (parenType_plain (fun base' s' h' => types_restore delimits_parens hitems hn h') hks
      hat).mono ?_
    rintro _ ⟨origin', ⟨ys, trailing⟩, ⟨hys, -⟩, rfl⟩
    obtain ⟨y, zs, rfl, -, hzs⟩ := List.map_eq_cons_iff.1 hys.symm
    obtain ⟨y', zs, rfl, -, -⟩ := List.map_eq_cons_iff.1 hzs
    exact alike_type (congrArg Node.tupleType hys.ofList :)

/-- A type in parentheses is given back. -/
theorem parenForm_restores {inner : TypeExpr} {origin : Origin} (hinner : RestoresAll g [inner])
    (hn : 1 < n) (hks : EndsType ks)
    (h : base.At s ((Node.type origin (.parenType inner)).kinds ++ ks)) :
    Finds base (parenType n g) s ks fun t =>
      Likeness.bare.Alike (Node.type origin (.parenType inner)) t := by
  have hat :
    base.At s (.symbol .lParen :: ((Node.ofList [inner]).kinds ++ .symbol .rParen :: ks)) := by
    simpa [Node.kinds, Node.pieces, Node.ofList, Node.isMissing] using h
  refine (parenType_plain (fun base' s' h' => types_restore delimits_parens hinner hn h') hks
    hat).mono ?_
  rintro _ ⟨origin', ⟨ys, trailing⟩, ⟨hys, rfl⟩, rfl⟩
  obtain ⟨y, zs, rfl, hy, hzs⟩ := List.map_eq_cons_iff.1 hys.symm
  obtain rfl := List.map_eq_nil_iff.1 hzs
  exact alike_type (congrArg Node.parenType hy.symm :)

/-- So is the empty tuple. -/
theorem unitType_restores {origin : Origin} (hn : 0 < n) (hks : EndsType ks)
    (h : base.At s ((Node.type origin .unitType).kinds ++ ks)) :
    Finds base (parenType n g) s ks fun t =>
    Likeness.bare.Alike (Node.type origin .unitType) t := by
  have hread base' s' (h' : base'.At s' ([] ++ .symbol .rParen :: ks)) :
      Finds base' (commaList (· = .symbol .rParen) (pure ()) (g .type) n false) s'
        (.symbol .rParen :: ks) (· = ([], false)) := by
    obtain ⟨n, rfl⟩ : ∃ m, n = m + 1 := ⟨n - 1, by omega⟩
    exact commaList_close delimits_parens h'
  refine (parenType_plain hread hks h).mono ?_
  rintro _ ⟨origin', _, rfl, rfl⟩
  exact alike_type rfl

/-- The end of a type in brackets. -/
theorem bracketType_close {form form' : TypeForm} {origin : Origin} (start : Span)
    (hform : Likeness.bare.Alike form form')
    (h : (base.openGroup true).At s (.symbol .rBracket :: ks)) :
    Finds base (do
      if !(← close .rBracket) then return ← newType .errorType start
      newType form' (← spanFrom start)) s ks
      fun t => Likeness.bare.Alike (Node.type origin form) t := by
  refine (Finds.close h (by simp)).bind fun closed s₁ hclosed h₁ => ?_
  rw [if_neg (by simp [hclosed])]
  refine (Finds.spanFrom h₁ start).bind fun span s₂ _ h₂ => ?_
  refine (Finds.newType h₂ _ span).mono ?_
  rintro t ⟨origin', rfl⟩
  exact alike_type hform

/-- A slice is given back. -/
theorem sliceType_restores {item : TypeExpr} {origin : Origin} (hitem : Restores (g .type) item)
    (h : base.At s ((Node.type origin (.sliceType item)).kinds ++ ks)) :
    Finds base (bracketType g) s ks fun t =>
      Likeness.bare.Alike (Node.type origin (.sliceType item)) t := by
  have hat : base.At s (.symbol .lBracket :: (item.kinds ++ .symbol .rBracket :: ks)) := by
    simpa [Node.kinds, Node.pieces] using h
  unfold bracketType
  refine (Finds.here hat).bind fun start s₁ _ h₁ => ?_
  refine (Finds.advance h₁ (by simp)).bind fun _ s₂ _ h₂ => ?_
  refine (Finds.openGroup h₂ true).bind fun _ s₃ _ h₃ => ?_
  refine (hitem _ s₃ _ h₃ (endsType_cons.2 (by simp))).bind fun item' s₄ hitem' h₄ => ?_
  refine (Finds.reject h₄ (by simp) (by simp) (by simp)).bind fun found s₅ hfound h₅ => ?_
  rw [if_neg (by simp [hfound])]
  exact bracketType_close start (congrArg Node.sliceType hitem' :) h₅

/-- An array is given back with its size. -/
theorem arrayType_restores {item : TypeExpr} {l : Literal} {origin sizeOrigin : Origin}
    (hitem : Restores (g .type) item) (hsize : RestoresLiterals (g .expr)) (hl : l.Written)
    (h : base.At s
      ((Node.type origin (.arrayType item (.expr sizeOrigin (.literal l)))).kinds ++ ks)) :
    Finds base (bracketType g) s ks fun t =>
      Likeness.bare.Alike
        (Node.type origin (.arrayType item (.expr sizeOrigin (.literal l)))) t := by
  have hat : base.At s (.symbol .lBracket :: (item.kinds ++
      .symbol .semi :: l.token :: .symbol .rBracket :: ks)) := by
    simpa [Node.kinds, Node.pieces] using h
  unfold bracketType
  refine (Finds.here hat).bind fun start s₁ _ h₁ => ?_
  refine (Finds.advance h₁ (by simp)).bind fun _ s₂ _ h₂ => ?_
  refine (Finds.openGroup h₂ true).bind fun _ s₃ _ h₃ => ?_
  refine (hitem _ s₃ _ h₃ (endsType_cons.2 (by simp))).bind fun item' s₄ hitem' h₄ => ?_
  refine (Finds.accept h₄ (by simp)).bind fun found s₅ hfound h₅ => ?_
  rw [if_pos hfound]
  refine (hsize l _ s₅ _ hl h₅ (by simp [TokenKind.canStartValue])).bind fun size s₆ hsize' h₆ => ?_
  obtain ⟨sizeOrigin', rfl⟩ := hsize'
  refine bracketType_close start ?_ h₆
  exact (congr (congrArg Node.arrayType hitem') rfl :)

/-- The segments of a path can be given back if the types inside it can. -/
theorem Inner.segment (hg : Inner g bound) {x : Node .segment} (hx : x.Printable)
    (hweight : x.weight ≤ bound) (hbound : bound ≤ n) : RestoresSegment g n x := by
  cases hx with
  | @segment ident args hname hargs =>
    have hlist := Node.ofList_toList args
    rw [← hlist] at hargs hweight ⊢
    have hless : (Node.ofList args.toList).weight < bound := by
      refine Nat.lt_of_lt_of_le ?_ hweight
      unfold Node.weight
      rw [Node.kinds_segment]
      split
      case isTrue hmissing => simp [Node.kinds, Node.pieces_missing hmissing]
      case isFalse => simp +arith
    have hlength := hargs.length_le
    exact ⟨ident, _, rfl, hg.restoresAll hargs hless, by omega⟩

/-- Paths are given back. -/
theorem Inner.path (hg : Inner g bound) {p : Path} (hp : p.Printable) (hweight : p.weight ≤ bound)
    (hbound : bound ≤ n) (hks : EndsType ks) (h : base.At s (p.kinds ++ ks)) :
    Finds base (path n g true) s ks fun p' => Likeness.bare.Alike p p' := by
  cases hp with
  | @path global first more span hsegments =>
    have hlist : Node.cons first more = .ofList (first :: more.toList) :=
      congrArg (Node.cons first) (Node.ofList_toList more).symm
    rw [hlist] at hsegments hweight h ⊢
    have hnames : (Node.ofList (first :: more.toList)).weight ≤ bound := by
      refine Nat.le_trans ?_ hweight
      simp [Node.weight, Node.kinds, Node.pieces, List.countP_append]
    have hlength := hsegments.length_le
    rw [List.length_cons] at hlength
    refine path_restores (fun y hy => ?_) (by omega) hks h
    obtain ⟨hprintable, -⟩ := hsegments.element y hy
    have := Node.weight_element hy
    exact hg.segment hprintable (by omega) hbound

/-- A path begins with a name or a separator. -/
theorem Node.Printable.path_opens {p : Path} (hp : p.Printable) :
    ∃ k more, p.kinds = k :: more ∧ (k = .symbol .path ∨ ∃ name, k = .ident name) := by
  cases hp with
  | @path global first more span hsegments =>
    cases hsegments with
    | cons hthere hfirst hmore =>
      cases hfirst with
      | @segment ident args hname hargs =>
        cases global with
        | true => exact ⟨_, _, rfl, Or.inl rfl⟩
        | false => exact ⟨_, _, rfl, Or.inr ⟨ident.name, rfl⟩⟩

/-- A named type is given back. -/
theorem Inner.pathType (hg : Inner g bound) {p : Path} {origin : Origin} (hp : p.Printable)
    (hweight : p.weight ≤ bound) (hbound : bound ≤ n) (hks : EndsType ks)
    (h : base.At s (p.kinds ++ ks)) :
    Finds base (type n g) s ks fun t => Likeness.bare.Alike (Node.type origin (.pathType p)) t := by
  have hpath : Finds base (do
      let p ← Parse.path n g true
      newType (.pathType p) p.pathSpan) s ks
      fun t => Likeness.bare.Alike (Node.type origin (.pathType p)) t := by
    refine (hg.path hp hweight hbound hks h).bind fun p' s₁ hp' h₁ => ?_
    refine (Finds.newType h₁ _ _).mono ?_
    rintro t ⟨origin', rfl⟩
    exact alike_type (congrArg Node.pathType hp' :)
  obtain ⟨k, more, hkinds, hk⟩ := hp.path_opens
  have hkind : s.kind = k := by
    have hshows := h.shows
    rw [hkinds] at hshows
    refine hshows.kind_eq ?_
    rcases hk with rfl | ⟨name, rfl⟩ <;> simp
  unfold type
  refine .after (kind_run s) ?_
  rw [hkind]
  rcases hk with rfl | ⟨name, rfl⟩ <;> exact hpath

/-- Types that begin with a parenthesis. -/
theorem type_paren {Good : TypeExpr → Prop} (hp : Finds base (parenType n g) s zs Good)
    (h : base.At s (.symbol .lParen :: ks)) : Finds base (type n g) s zs Good := by
  unfold type
  refine .after (kind_run s) ?_
  rw [h.shows.kind_eq (by simp)]
  exact hp

/-- Types that begin with a bracket. -/
theorem type_bracket {Good : TypeExpr → Prop} (hp : Finds base (bracketType g) s zs Good)
    (h : base.At s (.symbol .lBracket :: ks)) : Finds base (type n g) s zs Good := by
  unfold type
  refine .after (kind_run s) ?_
  rw [h.shows.kind_eq (by simp)]
  exact hp

/-- A type is given back if those inside it are. -/
theorem type_restores {t : TypeExpr} (ht : t.Printable) (hg : Inner g t.weight)
    (hn : t.weight ≤ n) : Restores (type n g) t := by
  intro base s zs h hzs
  cases ht with
  | @type origin form hform =>
  cases hform with
  | pathType hpath => exact hg.pathType hpath (Nat.le_refl _) hn hzs h
  | @tupleType first more hitems =>
    have hlist : Node.cons first more = .ofList (first :: more.toList) :=
      congrArg (Node.cons first) (Node.ofList_toList more).symm
    rw [hlist] at hitems hg hn h ⊢
    have hless := Node.weight_tuple origin (.ofList (first :: more.toList))
    have hlength := hitems.length_le
    rw [List.length_cons] at hlength
    refine type_paren ?_ h
    exact tupleType_restores (hg.restoresAll hitems (by omega)) (by omega) hzs h
  | @funcType params result hparams hresult =>
    have hlist := Node.ofList_toList params
    rw [← hlist] at hparams hg hn h ⊢
    have hless := Node.weight_func origin (.ofList params.toList) result
    have hlength := hparams.length_le
    refine type_paren ?_ h
    exact funcType_restores (hg.restoresAll hparams (by omega)) (by omega)
      (hg.types result hresult (by omega)) hzs h
  | @arrayType item _ l hitem hinteger hsize =>
    have hless := Node.weight_array origin item (.expr ‹_› (.literal l))
    have hpos := hitem.type_pos
    exact type_bracket
      (arrayType_restores (hg.types item hitem hless) (hg.literals (by omega)) hsize h) h
  | @sliceType item hitem =>
    have hless := Node.weight_slice origin item
    exact type_bracket (sliceType_restores (hg.types item hitem hless) h) h
  | @parenType inner hinner =>
    have hless := Node.weight_paren origin inner
    have hinside : (Node.ofList [inner]).Printable := .cons inner.isMissing_type hinner .nil
    have hsame : (Node.ofList [inner]).weight = inner.weight := by
      simp [Node.weight, Node.kinds, Node.ofList, Node.pieces, Node.isMissing]
    refine type_paren (parenForm_restores ?_ (by omega) hzs h) h
    exact hg.restoresAll hinside (by omega)
  | unitType =>
    have hweight : (Node.type origin .unitType).weight = 2 := rfl
    exact type_paren (unitType_restores (by omega) hzs h) h

end Types

/-- What is shown behind a value when nothing goes on with it. -/
theorem ParserState.Shows.canStartValue {s : ParserState} {ks : List TokenKind} (h : s.Shows ks)
    (hks : ∀ k ∈ ks.head?, k.canStartValue = false) : s.kind.canStartValue = false := by
  cases ks with
  | nil =>
    unfold kind current
    rw [h.rest_nil.1]
    change s.final.kind.canStartValue = false
    rw [h.final]
    rfl
  | cons k ks =>
    have hk := hks k rfl
    rw [h.kind_eq (by rintro rfl; cases hk)]
    exact hk

/-- Literals are given back. -/
theorem expr_restoresLiterals (n : Nat) (g : Grammar) : RestoresLiterals (expr (n + 1) g) := by
  intro l base s zs hl h hzs
  have hclose : l.token ≠ .symbol .rAngle := by
    intro hk
    have hself := hl.1
    rw [hk] at hself
    cases hself
  obtain ⟨t, ts, hrest, hkind, -, -⟩ := h.shows.rest_cons hclose
  obtain ⟨hshows, hpasses⟩ := h.shows.advance hclose
  rw [ParserState.advance_unbroken hrest h.shows.unbroken] at hshows hpasses
  have hcloses := Closes.of_canStartValue (hshows.canStartValue hzs)
  have hidle := ParserState.idle_unbroken hshows.unbroken hcloses.detached
  obtain ⟨origin, hoperand⟩ := operand_literal (n := n) (g := g) hrest (hkind ▸ hl.1) rfl hidle
  have hrun := expr_operand hoperand ⟨hidle.detached, hidle.behind, hidle.calm⟩ hcloses
  refine ⟨_, _, hrun, ⟨origin, rfl⟩, ?_, hshows.moved rfl rfl rfl⟩
  exact (h.passes.trans hpasses).trans ⟨_, _, _, _, rfl⟩

/-- The parser gives all types back, given enough fuel for the tokens of a type. -/
theorem grammar_restores (n : Nat) {t : TypeExpr} (ht : t.Printable) (hn : t.weight ≤ n) :
    Restores (grammar n .type) t := by
  induction n generalizing t with
  | zero => exact absurd ht.type_pos (by omega)
  | succ n ih =>
    refine type_restores ht ⟨fun u hu hweight => ih hu (by omega), fun hweight => ?_⟩ hn
    obtain ⟨n, rfl⟩ : ∃ m, n = m + 1 := ⟨n - 1, by omega⟩
    exact expr_restoresLiterals n (grammar n)

/-- A type that is written is read back: its text is cut into tokens, from which the parser makes
the same type up to numbers and places. Nothing is reported, all tokens are used up, and no half of
a token is left over. -/
theorem written_type_restored {t : TypeExpr} (ht : t.Printable) (file : FileId) :
    ∃ lexed, lex file t.text = .ok lexed ∧ ∀ n, lexed.tokens.length ≤ n →
      ∃ u s, grammar n .type (.start file lexed.tokens) = .ok u s ∧ Likeness.bare.Alike t u ∧
        s.diagnostics = [] ∧ s.rest = [] ∧ s.halfShift = false := by
  have hneat := ht.neat t.isMissing_type
  have hcalm : ∀ p ∈ t.pieces, p.kind.calm = true := List.all_eq_true.1 ht.calm
  obtain ⟨ts, span, lines, hlex, hts⟩ := lex_written hneat.legible hneat.joined
    (Lexer.Place.admitsAll_of_calm hcalm) file
  refine ⟨_, hlex, fun n hn => ?_⟩
  have hshows : (ParserState.start file (ts ++ [⟨.eof, span⟩])).Shows (t.kinds ++ []) := by
    rw [List.append_nil]
    refine ParserState.start_shows (fun p hp => ?_) hts
    obtain ⟨hshr, hnewline⟩ := TokenKind.ne_of_calm (hcalm p hp)
    refine ⟨hshr, hnewline, fun heof => ?_⟩
    have hlegible := hneat.legible p hp
    rw [heof] at hlegible
    exact hlegible
  have hweight : t.weight ≤ n := by
    have hcount := countP_le_fused t.pieces
    rw [← hts, List.length_map] at hcount
    rw [List.length_append] at hn
    exact Nat.le_trans hcount (Nat.le_trans (Nat.le_add_right _ _) hn)
  obtain ⟨u, s, hrun, hu, ⟨⟨_, _, _, _, rfl⟩, hend⟩⟩ :=
    grammar_restores n ht hweight _ _ [] hshows.at (by simp [EndsType])
  exact ⟨u, _, hrun, hu, rfl, hend.rest_nil⟩

/-- A map whose lists end in four closing brackets, for which the scanner finds two tokens. -/
def nestedType : TypeExpr :=
  let named (name : String) (args : List TypeExpr) : TypeExpr := .type default
    (.pathType (.path false (.ofList [.segment ⟨name, default⟩ (.ofList args)]) default .empty))
  let size : Expr := .expr default (.literal ⟨.form .decimal, "3"⟩)
  named "Map" [named "Str" [], named "List" [named "List" [named "Set" [
    .type default (.arrayType (named "int" []) size)]]]]

theorem nestedType_restored : nestedType.Printable ∧
    nestedType.text = "Map<Str, List<List<Set<[int; 3]>>>>" ∧
    ∃ lexed, lex ⟨0⟩ nestedType.text = .ok lexed ∧ ∀ n, lexed.tokens.length ≤ n →
      ∃ u s, grammar n .type (.start ⟨0⟩ lexed.tokens) = .ok u s ∧
        Likeness.bare.Alike nestedType u ∧ s.diagnostics = [] ∧ s.rest = [] ∧
        s.halfShift = false := by
  have hnamed (name : String) (args : List TypeExpr) (hname : (TokenKind.ident name).Legible)
      (hargs : (Node.ofList args).Printable) : Node.Printable (.type default (.pathType
        (.path false (.ofList [.segment ⟨name, default⟩ (.ofList args)]) default .empty))) :=
    .type (.pathType (.path (.cons rfl (.segment hname hargs) .nil)))
  have hsize : Literal.Written ⟨.form .decimal, "3"⟩ :=
    ⟨rfl, rfl, '3', [], rfl, Or.inl rfl⟩
  have hint := hnamed "int" [] ⟨rfl, rfl⟩ .nil
  have harray : Node.Printable (.type default (.arrayType _ (.expr default (.literal _)))) :=
    .type (.arrayType hint rfl hsize)
  have hset := hnamed "Set" [_] ⟨rfl, rfl⟩ (.cons rfl harray .nil)
  have hinner := hnamed "List" [_] ⟨rfl, rfl⟩ (.cons rfl hset .nil)
  have houter := hnamed "List" [_] ⟨rfl, rfl⟩ (.cons rfl hinner .nil)
  have hmap : nestedType.Printable := hnamed "Map" [_, _] ⟨rfl, rfl⟩
    (.cons rfl (hnamed "Str" [] ⟨rfl, rfl⟩ .nil) (.cons rfl houter .nil))
  exact ⟨hmap, rfl, written_type_restored hmap ⟨0⟩⟩

end FrontEnd
