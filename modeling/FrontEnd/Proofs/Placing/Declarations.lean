import FrontEnd.Proofs.Grouping.Operands
import FrontEnd.Proofs.Loosening.Declarations
import FrontEnd.Proofs.Placing.Expressions

/-!
# Where declarations and statements stand

Declarations, members and statements stand among the tokens behind what is in front of them. Their
terminators belong to none of them. A statement that is read without errors is not abandoned, so no
stub has to be placed.
-/

namespace FrontEnd.Parse

open TokenStream

variable {K : TokenStream} {G : List Bool} {i : Nat} {g : Grammar}

section Functions

/-- An attribute ends with its name or with the parenthesis behind its arguments. -/
theorem attr_places (hg : GrammarPlaces K g) (n : Nat) :
    Places K G G i (attr n g) fun j a => K.Tight (ignored G) i j a := by
  refine .here fun start => advance_places.bind fun j₁ _ => expectIdent_places.bind
    fun j₂ name => ?_
  refine (acceptSymbol_places .lParen).bind fun j₃ found => ?_
  extract_lets after
  have after_places (args : Node (.many .argument)) (j : Nat) : Places K G G j (after args)
      fun k a => (K.tokenAt i).span = start → i ≤ j₁ → K.Named (ignored G) j₁ j₂ name →
        K.Lies true j₂ j args → K.Ends (ignored G) j → K.Tight (ignored G) i k a := by
    refine .spanFrom fun span => .pure fun hspan hstart hfirst hname hargs hends => ?_
    have hlt : i < j₂ := hfirst.trans_lt hname.lt
    exact tight_spanned rfl (hspan.token hstart (hlt.trans_le hargs.le) hargs.inside) hends
      (row_single hargs hlt.le (Nat.le_refl j) hargs.inside)
      (List.forall_mem_singleton.2 (hname.within hfirst hargs.le)) trivial
  refine .ite ?_ ?_
  · refine (openGroup_places true).bind fun j₄ _ => (arguments_places hg n).bind fun j₅ args => ?_
    refine (closeStrict_places .rParen).bind fun j₆ _ => (after_places args j₆).mono ?_
    rintro k a h ⟨hclose, hlast⟩ hargs hopen _ hfound hname ⟨hfirst, _⟩ hstart
    exact h hstart hfirst hname (hargs.mono (hfound.le.trans hopen) hlast.lt.le hlast.le)
      (hlast.ends (by rw [hclose]; nofun))
  · refine (after_places .nil j₃).mono fun k a h hno hfound hname ⟨hfirst, _⟩ hstart => ?_
    obtain rfl := hfound.no hno
    exact h hstart hfirst hname (lies_nil (Nat.le_refl j₃) hname.le) hname.ends

/-- Attributes stand in a row. -/
theorem attrs_places (hg : GrammarPlaces K g) (bound n : Nat) :
    Places K G G i (attrs bound g n) fun j xs =>
      K.Row i j (xs.map fun x => (⟨_, x⟩, ignored G)) := by
  induction n generalizing i with
  | zero => exact stalled_places
  | succ n ih =>
    unfold attrs
    refine .atKind fun found => .ite (.stay fun hi _ _ => .nil (Nat.le_refl i) hi) ?_
    refine (attr_places hg bound).bind fun j₁ x => skipTerminators_places.bind fun j₂ _ => ?_
    refine ih.bind fun j₃ xs => .pure fun hxs hskip hx _ _ => ?_
    exact .cons (hx.lies.mono (Nat.le_refl i) hskip (hxs.le.trans hxs.inside)) (Nat.le_refl i) hxs

/-- Modifiers have no places of their own. -/
theorem modifiers_places (n : Nat) : Places K G G i (modifiers n) fun j _ => i ≤ j := by
  induction n generalizing i with
  | zero => exact stalled_places
  | succ n ih =>
    unfold modifiers
    refine .kind fun k => ?_
    split
    · refine advance_places.bind fun j₁ _ => ih.bind fun j₂ ms => .pure ?_
      exact fun hothers ⟨hfirst, _⟩ _ => hfirst.trans hothers
    · exact .pure fun _ => Nat.le_refl i

/-- A parameter begins with its name. -/
theorem param_places (hg : GrammarPlaces K g) :
    Places K G G i (param g) fun j p => K.Whole (ignored G) i j p := by
  refine .here fun start => expectIdent_places.bind fun j₁ name => ?_
  refine (expectSymbol_places .colon).bind fun j₂ _ => hg.type.bind fun j₃ t => ?_
  refine (defaultValue_places hg).bind fun j₄ default => .spanFrom fun span => ?_
  refine origin_places fun o => .pure fun ho hspan hdefault ht ⟨_, hcolon⟩ hname hstart => ?_
  have hle : i ≤ j₂ := hname.lt.le.trans hcolon.lt.le
  have hend : j₂ ≤ j₄ := ht.lt.le.trans hdefault.lies.le
  have covers := hspan.token hstart ((hle.trans_lt ht.lt).trans_le hdefault.lies.le)
    hdefault.lies.inside
  exact Tight.whole (tight_spanned rfl (ho ▸ covers) (hdefault.ends ht.ends)
    (.cons ht.lies hle (row_single hdefault.lies (Nat.le_refl j₃) (Nat.le_refl j₄)
      hdefault.lies.inside))
    (List.forall_mem_singleton.2 (hname.within (Nat.le_refl i) (hcolon.lt.le.trans hend))) trivial)

/-- Parameters stand between parentheses, where line breaks are ignored. -/
theorem params_places (hg : GrammarPlaces K g) (n : Nat) :
    Places K G G i (params n g) fun j ps =>
      K.Lies true i j ps ∧ i < j ∧ K.Ends (ignored G) j := by
  refine (expectSymbol_places .lParen).bind fun j₁ _ => (openGroup_places true).bind fun j₂ _ => ?_
  refine (commaListTo_places (fun _ => param_places hg) n).bind fun j₃ ps => ?_
  refine (closeStrict_places .rParen).bind fun j₄ _ => .pure ?_
  rintro ⟨hclose, hlast⟩ hps hopen ⟨_, hfirst⟩
  have hle : i < j₂ := hfirst.lt.trans_le hopen
  exact ⟨hps.mono hle.le hlast.lt.le hlast.le, (hle.trans_le hps.le).trans hlast.lt,
    hlast.ends (by rw [hclose]; nofun)⟩

/-- The body of a function, where there is one, is a block or an expression behind an arrow. -/
theorem funcBody_places (hg : GrammarPlaces K g) :
    Places K G G i (funcBody? g) fun j b => K.Perhaps (ignored G) i j b := by
  refine .kind fun k => ?_
  split
  · refine (block_places hg).bind fun j body => .pure fun hbody _ => ?_
    exact perhaps_present (whole_bare rfl hbody.lt hbody.ends (row_single hbody.lies (Nat.le_refl i)
      (Nat.le_refl j) hbody.lies.inside) (List.forall_mem_nil _) trivial) (Nat.le_refl i)
  · refine advance_places.bind fun j₁ _ => skipNewlines_places.bind fun j₂ _ => ?_
    refine hg.expr.bind fun j₃ e => .pure fun he hbreaks ⟨hfirst, _⟩ _ => ?_
    exact perhaps_present (whole_bare rfl he.lt he.ends (row_single he.lies (Nat.le_refl j₂)
      (Nat.le_refl j₃) he.inside) (List.forall_mem_nil _) trivial) (hfirst.trans hbreaks.le)
  · exact .stay fun hi _ => perhaps_absent hi

/-- The parts of a function stand in a row behind its keyword. -/
theorem func_places (hg : GrammarPlaces K g) (n : Nat) :
    Places K G G i (func n g) fun j f => K.Whole (ignored G) i j f := by
  refine (expectKeyword_places .func).bind fun j₁ _ => expectIdent_places.bind fun j₂ name => ?_
  refine (generics_places hg n).bind fun j₃ generics => (params_places hg n).bind
    fun j₄ params => ?_
  refine (typeAfterColon_places hg).bind fun j₅ result => (funcBody_places hg).bind
    fun j₆ body => ?_
  refine .pure fun hbody hresult ⟨hparams, _, hends⟩ hgenerics hname ⟨_, hword⟩ => ?_
  have hle : i < j₂ := hword.lt.trans hname.lt
  have hend : j₂ ≤ j₆ := ((hgenerics.lies.le.trans hparams.le).trans hresult.lies.le).trans
    hbody.lies.le
  exact whole_bare rfl (hle.trans_le hend) (hbody.ends (hresult.ends hends))
    (.cons hgenerics.lies hle.le (.cons hparams (Nat.le_refl j₃)
    (.cons hresult.lies (Nat.le_refl j₄)
      (row_single hbody.lies (Nat.le_refl j₅) (Nat.le_refl j₆) hbody.lies.inside))))
    (List.forall_mem_singleton.2 (hname.within hword.lt.le hend)) trivial

end Functions

section Types

/-- Supertypes, with what is in front of them. -/
theorem superTypes_places (hg : GrammarPlaces K g) (n : Nat) :
    Places K G G i (superTypes g n) fun j ts => K.Whole (ignored G) i j (.ofList ts) := by
  induction n generalizing i with
  | zero => exact stalled_places
  | succ n ih =>
    unfold superTypes
    refine skipNewlines_places.bind fun j₁ _ => hg.type.bind fun j₂ t => ?_
    refine (acceptSymbol_places .comma).bind fun j₃ found => .ite (.pure ?_)
      (ih.bind fun j₄ ts => .pure ?_)
    · intro hno hcomma ht hbreaks
      obtain rfl := hcomma.no (by simpa using hno)
      exact (lies_cons (ht.lies.mono hbreaks.le (Nat.le_refl j₃) ht.inside)
        (lies_nil (Nat.le_refl j₃) ht.inside) (Nat.le_refl j₃)).whole rfl
        (hbreaks.le.trans_lt ht.lt) ht.ends
    · intro hts _ hcomma ht hbreaks
      exact (lies_cons (ht.lies.mono hbreaks.le (Nat.le_refl j₂) ht.inside) hts.lies
        hcomma.le).whole rfl (((hbreaks.le.trans_lt ht.lt).trans_le hcomma.le).trans
        hts.lt) hts.ends

/-- Supertypes stand in a row behind the colon. -/
theorem supers_places (hg : GrammarPlaces K g) (n : Nat) :
    Places K G G i (supers n g) fun j ts => K.Perhaps (ignored G) i j ts := by
  refine (acceptSymbol_places .colon).bind fun j₁ found => .ite (.stay ?_) ?_
  · intro hj hno hcolon
    obtain rfl := hcolon.no (by simpa using hno)
    exact ⟨lies_nil (Nat.le_refl j₁) hj, id⟩
  · refine (superTypes_places hg n).bind fun j₂ ts => .pure fun hts _ hcolon => ?_
    exact ⟨hts.lies.mono hcolon.le (Nat.le_refl j₂) hts.inside, fun _ => hts.ends⟩

/-- Members stand between braces, where line breaks count. -/
theorem memberBlock_places (hg : GrammarPlaces K g) (inClass : Bool) :
    Places K G G i (memberBlock g inClass) fun j xs =>
      K.Lies false i j xs ∧ i < j ∧ K.Ends (ignored G) j := by
  refine (expectSymbol_places .lBrace).bind fun j₁ _ => (openGroup_places false).bind fun j₂ _ => ?_
  refine hg.members.bind fun j₃ xs => (closeStrict_places .rBrace).bind fun j₄ _ => .pure ?_
  rintro ⟨hclose, hlast⟩ hxs hopen ⟨_, hfirst⟩
  have hle : i < j₂ := hfirst.lt.trans_le hopen
  exact ⟨hxs.mono hle.le hlast.lt.le hlast.le, (hle.trans_le hxs.le).trans hlast.lt,
    hlast.ends (by rw [hclose]; nofun)⟩

/-- The parts of a class stand in a row, where the colon may be missing. -/
theorem classDecl_places (hg : GrammarPlaces K g) (n : Nat) :
    Places K G G i (classDecl n g) fun j f => K.Whole (ignored G) i j f := by
  refine .atKind fun isStruct => advance_places.bind fun j₁ _ => expectIdent_places.bind
    fun j₂ name => ?_
  refine (generics_places hg n).bind fun j₃ generics => ?_
  extract_lets after
  have after_places (supers : Node (.many .type)) (j₄ : Nat) : Places K G G j₄ (after supers)
      fun j f => i ≤ j₁ → K.Named (ignored G) j₁ j₂ name → K.Perhaps (ignored G) j₂ j₃ generics →
        K.Perhaps (ignored G) j₃ j₄ supers → K.Whole (ignored G) i j f := by
    refine (memberBlock_places hg true).bind fun j₅ members => .pure ?_
    rintro ⟨hmembers, _, hends⟩ hfirst hname hgenerics hsupers
    have hle : i < j₂ := hfirst.trans_lt hname.lt
    have hend : j₂ ≤ j₅ := (hgenerics.lies.le.trans hsupers.lies.le).trans hmembers.le
    exact whole_bare rfl (hle.trans_le hend) hends (.cons hgenerics.lies hle.le
      (.cons hsupers.lies (Nat.le_refl j₃) (row_single hmembers (Nat.le_refl j₄) (Nat.le_refl j₅)
        hmembers.inside))) (List.forall_mem_singleton.2 (hname.within hfirst hend)) trivial
  refine .ite ?_ ?_
  · refine (after_places .nil j₃).mono fun j f h _ hgenerics hname ⟨hfirst, _⟩ _ => ?_
    exact h hfirst hname hgenerics ⟨lies_nil (Nat.le_refl j₃) hgenerics.lies.inside, id⟩
  · refine (supers_places hg n).bind fun j₄ supers => (after_places supers j₄).mono ?_
    exact fun j f h hsupers _ hgenerics hname ⟨hfirst, _⟩ _ => h hfirst hname hgenerics hsupers

/-- So do those of a trait. -/
theorem traitDecl_places (hg : GrammarPlaces K g) (n : Nat) :
    Places K G G i (traitDecl n g) fun j f => K.Whole (ignored G) i j f := by
  refine (expectKeyword_places .trait).bind fun j₁ _ => expectIdent_places.bind fun j₂ name => ?_
  refine (generics_places hg n).bind fun j₃ generics => (supers_places hg n).bind
    fun j₄ supers => ?_
  refine (memberBlock_places hg false).bind fun j₅ members => .pure ?_
  rintro ⟨hmembers, _, hends⟩ hsupers hgenerics hname ⟨_, hword⟩
  have hle : i < j₂ := hword.lt.trans hname.lt
  have hend : j₂ ≤ j₅ := (hgenerics.lies.le.trans hsupers.lies.le).trans hmembers.le
  exact whole_bare rfl (hle.trans_le hend) hends (.cons hgenerics.lies hle.le
    (.cons hsupers.lies (Nat.le_refl j₃) (row_single hmembers (Nat.le_refl j₄) (Nat.le_refl j₅)
      hmembers.inside))) (List.forall_mem_singleton.2 (hname.within hword.lt.le hend)) trivial

/-- So do those of an object. -/
theorem objectDecl_places (hg : GrammarPlaces K g) (n : Nat) :
    Places K G G i (objectDecl n g) fun j f => K.Whole (ignored G) i j f := by
  refine (expectKeyword_places .object).bind fun j₁ _ => expectIdent_places.bind fun j₂ name => ?_
  refine (supers_places hg n).bind fun j₃ supers => ?_
  refine (memberBlock_places hg false).bind fun j₄ members => .pure ?_
  rintro ⟨hmembers, _, hends⟩ hsupers hname ⟨_, hword⟩
  have hle : i < j₂ := hword.lt.trans hname.lt
  have hend : j₂ ≤ j₄ := hsupers.lies.le.trans hmembers.le
  exact whole_bare rfl (hle.trans_le hend) hends (.cons hsupers.lies hle.le
    (row_single hmembers (Nat.le_refl j₃) (Nat.le_refl j₄) hmembers.inside))
    (List.forall_mem_singleton.2 (hname.within hword.lt.le hend)) trivial

/-- A type alias ends with the type. -/
theorem aliasDecl_places (hg : GrammarPlaces K g) (n : Nat) :
    Places K G G i (aliasDecl n g) fun j f => K.Whole (ignored G) i j f := by
  refine (expectKeyword_places .type).bind fun j₁ _ => expectIdent_places.bind fun j₂ name => ?_
  refine (generics_places hg n).bind fun j₃ generics => (expectSymbol_places .assign).bind
    fun j₄ _ => ?_
  refine skipNewlines_places.bind fun j₅ _ => hg.type.bind fun j₆ t => .pure ?_
  rintro ht hbreaks ⟨_, hassign⟩ hgenerics hname ⟨_, hword⟩
  have hle : i < j₂ := hword.lt.trans hname.lt
  have hbehind : j₃ ≤ j₅ := hassign.lt.le.trans hbreaks.le
  have hend : j₂ ≤ j₆ := (hgenerics.lies.le.trans hbehind).trans ht.lt.le
  exact whole_bare rfl (hle.trans_le hend) ht.ends (.cons hgenerics.lies hle.le
    (row_single ht.lies hbehind (Nat.le_refl j₆) ht.inside))
    (List.forall_mem_singleton.2 (hname.within hword.lt.le hend)) trivial

/-- A constructor ends with its block. -/
theorem initDecl_places (hg : GrammarPlaces K g) (n : Nat) :
    Places K G G i (initDecl n g) fun j f => K.Whole (ignored G) i j f := by
  refine (expectKeyword_places .init).bind fun j₁ _ => (params_places hg n).bind fun j₂ params => ?_
  refine (block_places hg).bind fun j₃ body => .pure fun hbody ⟨hparams, hlt, _⟩ ⟨_, hword⟩ => ?_
  exact whole_bare rfl ((hword.lt.trans hlt).trans hbody.lt) hbody.ends (.cons hparams hword.lt.le
    (row_single hbody.lies (Nat.le_refl j₂) (Nat.le_refl j₃) hbody.lies.inside))
    (List.forall_mem_nil _) trivial

end Types

section Enumerations

/-- A field of an entry begins with its name and ends with its type. -/
theorem entryField_places (hg : GrammarPlaces K g) :
    Places K G G i (entryField g) fun j f => K.Whole (ignored G) i j f := by
  refine expectIdent_places.bind fun j₁ name => (expectSymbol_places .colon).bind fun j₂ _ => ?_
  refine hg.type.bind fun j₃ t => .pure fun ht ⟨_, hcolon⟩ hname => ?_
  have hle : i < j₂ := hname.lt.trans hcolon.lt
  exact whole_bare rfl (hle.trans ht.lt) ht.ends
    (row_single ht.lies hle.le (Nat.le_refl j₃) ht.inside)
    (List.forall_mem_singleton.2 (hname.within (Nat.le_refl i)
    (hcolon.lt.le.trans ht.lt.le))) trivial

/-- What an entry holds stands behind a mark or between delimiters. -/
theorem enumEntryForm_places (hg : GrammarPlaces K g) (n : Nat) :
    Places K G G i (enumEntryForm n g) fun j f => K.Perhaps (ignored G) i j f := by
  refine .kind fun k => ?_
  split
  · refine advance_places.bind fun j₁ _ => hg.expr.bind fun j₂ value => .pure ?_
    rintro hvalue ⟨hfirst, _⟩ _
    exact ⟨lies_bare rfl (row_single hvalue.lies hfirst (Nat.le_refl j₂) hvalue.inside)
      (List.forall_mem_nil _) trivial, fun _ => hvalue.ends⟩
  · refine advance_places.bind fun j₁ _ => (openGroup_places true).bind fun j₂ _ => ?_
    refine (commaListTo_places (fun _ => hg.type) n).bind fun j₃ types => ?_
    refine (closeStrict_places .rParen).bind fun j₄ _ => .pure ?_
    rintro ⟨hclose, hlast⟩ htypes hopen ⟨hfirst, _⟩ _
    exact ⟨lies_bare rfl (row_single htypes (hfirst.trans hopen) hlast.lt.le hlast.le)
      (List.forall_mem_nil _) trivial, fun _ => hlast.ends (by rw [hclose]; nofun)⟩
  · refine advance_places.bind fun j₁ _ => (openGroup_places true).bind fun j₂ _ => ?_
    refine (commaListTo_places (fun _ => entryField_places hg) n).bind fun j₃ fields => ?_
    refine (closeStrict_places .rBrace).bind fun j₄ _ => .pure ?_
    rintro ⟨hclose, hlast⟩ hfields hopen ⟨hfirst, _⟩ _
    exact ⟨lies_bare rfl (row_single hfields (hfirst.trans hopen) hlast.lt.le hlast.le)
      (List.forall_mem_nil _) trivial, fun _ => hlast.ends (by rw [hclose]; nofun)⟩
  · exact .stay fun hi _ => ⟨lies_bare rfl (.nil (Nat.le_refl i) hi)
      (List.forall_mem_nil _) trivial, id⟩

/-- An entry begins with its name. -/
theorem enumEntry_places (hg : GrammarPlaces K g) (n : Nat) :
    Places K G G i (enumEntry n g) fun j e => K.Whole (ignored G) i j e := by
  refine .here fun start => expectIdent_places.bind fun j₁ name => ?_
  refine (enumEntryForm_places hg n).bind fun j₂ form => .spanFrom fun span => ?_
  refine origin_places fun o => .pure fun ho hspan hform hname hstart => ?_
  have covers := hspan.token hstart (hname.lt.trans_le hform.lies.le) hform.lies.inside
  exact Tight.whole (tight_spanned rfl (ho ▸ covers) (hform.ends hname.ends)
    (row_single hform.lies hname.lt.le (Nat.le_refl j₂) hform.lies.inside)
    (List.forall_mem_singleton.2 (hname.within (Nat.le_refl i) hform.lies.le)) trivial)

/-- Entries stand in a row. -/
theorem enumEntries_places (hg : GrammarPlaces K g) (bound n : Nat) :
    Places K G G i (enumEntries bound g n) fun j xs => K.Lies (ignored G) i j (.ofList xs) := by
  induction n generalizing i with
  | zero => exact stalled_places
  | succ n ih =>
    unfold enumEntries
    refine .kind fun k => .ite (.stay fun hi _ _ => lies_nil (Nat.le_refl i) hi) ?_
    refine (enumEntry_places hg bound).bind fun j₁ x => .kind fun k => .ite ?_ ?_
    · exact .stay fun hj _ _ hx _ _ => lies_cons hx.lies (lies_nil (Nat.le_refl j₁) hj)
        (Nat.le_refl j₁)
    · refine (skipWhile_places separatesEntries).bind fun j₂ _ => ih.bind fun j₃ xs => .pure ?_
      exact fun hxs hskip _ _ hx _ _ => lies_cons hx.lies hxs hskip

/-- An enumeration ends with its brace, with the members behind the entries. -/
theorem enumDecl_places (hg : GrammarPlaces K g) (n : Nat) :
    Places K G G i (enumDecl n g) fun j f => K.Whole (ignored G) i j f := by
  refine (expectKeyword_places .enum).bind fun j₁ _ => expectIdent_places.bind fun j₂ name => ?_
  refine (generics_places hg n).bind fun j₃ generics => (expectSymbol_places .lBrace).bind
    fun j₄ _ => ?_
  refine (openGroup_places false).bind fun j₅ _ => skipSeparators_places.bind fun j₆ _ => ?_
  refine (enumEntries_places hg n n).bind fun j₇ entries => ?_
  refine (acceptSymbol_places .semi).bind fun j₈ found => ?_
  extract_lets after
  have after_places (members : Node (.many .item)) (j₉ : Nat) :
      Places K (false :: G) G j₉ (after members) fun j f => i < j₂ → K.Within i j₂ name.span →
        K.Lies (ignored G) j₂ j₃ generics → j₃ ≤ j₆ → K.Lies false j₆ j₇ (.ofList entries) →
          K.Lies false j₇ j₉ members → K.Whole (ignored G) i j f := by
    refine closeGroup_places.bind fun j' _ => skipTerminators_places.bind fun j₁₀ _ => ?_
    refine (expectSymbol_places .rBrace).bind fun j₁₁ _ => .pure ?_
    rintro ⟨hclose, hlast⟩ hskip hsame hle hname hgenerics hopen hentries hmembers
    obtain rfl := hsame
    have hend : j' ≤ j₁₁ := hskip.trans hlast.lt.le
    have hinside : j₂ ≤ j' := ((hgenerics.le.trans hopen).trans hentries.le).trans hmembers.le
    exact whole_bare rfl (hle.trans_le (hinside.trans hend)) (hlast.ends (by rw [hclose]; nofun))
      (.cons hgenerics hle.le (.cons hentries hopen (row_single hmembers (Nat.le_refl j₇) hend
        hlast.le)))
      (List.forall_mem_singleton.2 (hname.mono (Nat.le_refl i) (hinside.trans hend))) trivial
  refine .ite ?_ ?_
  · refine hg.members.bind fun j₉ members => (after_places members j₉).mono ?_
    rintro j f h hmembers _ hsemi hentries hskip hopen ⟨_, hbrace⟩ hgenerics hname ⟨_, hword⟩
    exact h (hword.lt.trans hname.lt) (hname.within hword.lt.le (Nat.le_refl j₂)) hgenerics.lies
      ((hbrace.lt.le.trans hopen).trans hskip) hentries
      (hmembers.mono hsemi.le (Nat.le_refl j₉) hmembers.inside)
  · refine (after_places .nil j₈).mono ?_
    rintro j f h hno hsemi hentries hskip hopen ⟨_, hbrace⟩ hgenerics hname ⟨_, hword⟩
    obtain rfl := hsemi.no hno
    exact h (hword.lt.trans hname.lt) (hname.within hword.lt.le (Nat.le_refl j₂)) hgenerics.lies
      ((hbrace.lt.le.trans hopen).trans hskip) hentries (lies_nil (Nat.le_refl j₈) hentries.inside)

end Enumerations

section Members

/-- A declaration stands behind its word. A misplaced constructor is an error. -/
theorem itemForm_places (hg : GrammarPlaces K g) (n : Nat) (inClass : Bool) :
    Places K G G i (itemForm n g inClass) fun j f => K.Whole (ignored G) i j f := by
  refine .kind fun k => ?_
  split
  · exact (func_places hg n).mono fun _ _ h _ => h
  · exact (classDecl_places hg n).mono fun _ _ h _ => h
  · exact (classDecl_places hg n).mono fun _ _ h _ => h
  · exact (enumDecl_places hg n).mono fun _ _ h _ => h
  · exact (traitDecl_places hg n).mono fun _ _ h _ => h
  · exact (aliasDecl_places hg n).mono fun _ _ h _ => h
  · exact (objectDecl_places hg n).mono fun _ _ h _ => h
  · refine .ite (.here fun span => recordThen_places (initDecl_places hg n)) ?_
    exact (initDecl_places hg n).mono fun _ _ h _ _ => h
  · exact failExpected_places _

/-- A declaration behind its attributes and modifiers, of which some were read earlier. -/
theorem itemAfter_places (hg : GrammarPlaces K g) (n : Nat) (inClass : Bool) {start : Span}
    (i₀ : Nat) (earlier : List (Node .attr)) (modifiers₀ : List Modifier) :
    Places K G G i (itemAfter n g inClass start earlier modifiers₀) fun j x =>
      (K.tokenAt i₀).span = start → i₀ ≤ i →
        (i ≤ K.tokens.length → K.Row i₀ i (earlier.map fun x => (⟨_, x⟩, ignored G))) →
          K.Whole (ignored G) i₀ j x := by
  refine (attrs_places hg n n).bind fun j₁ attrs => (modifiers_places n).bind fun j₂ modifiers => ?_
  refine (itemForm_places hg n inClass).bind fun j₃ form => freshId_places fun id => ?_
  refine .spanFrom fun span => .pure fun hspan hform hmodifiers hattrs hstart hle hearlier => ?_
  have covers := hspan.token hstart (((hle.trans hattrs.le).trans hmodifiers).trans_lt hform.lt)
    hform.inside
  have hall : K.Lies (ignored G) i₀ j₁ (.ofList (earlier ++ attrs)) := by
    refine Row.sequence ?_
    rw [List.map_append]
    exact (hearlier (hattrs.le.trans hattrs.inside)).append hattrs
  exact Tight.whole (tight_spanned rfl covers hform.ends (.cons hall (Nat.le_refl i₀)
    (row_single hform.lies hmodifiers (Nat.le_refl j₃) hform.inside))
    (List.forall_mem_nil _) trivial)

/-- A declaration begins with its attributes, or else with its modifiers. -/
theorem item_places (hg : GrammarPlaces K g) (n : Nat) :
    Places K G G i (item n g) fun j x => K.Whole (ignored G) i j x := by
  refine .here fun start => (itemAfter_places hg n false i [] []).mono fun j x h hstart => ?_
  exact h hstart (Nat.le_refl i) fun hi => .nil (Nat.le_refl i) hi

/-- A field ends with its type or with its value. -/
theorem field_places (hg : GrammarPlaces K g) :
    Places K G G i (field g) fun j f => K.Whole (ignored G) i j f := by
  refine .kind fun k => ?_
  extract_lets kind? after
  have after_places (j : Nat) : Places K G G j (after ()) fun l f => i ≤ j →
      K.Whole (ignored G) i l f := by
    refine expectIdent_places.bind fun j₁ name => (expectSymbol_places .colon).bind fun j₂ _ => ?_
    refine skipNewlines_places.bind fun j₃ _ => hg.type.bind fun j₄ t => ?_
    refine (acceptSymbol_places .assign).bind fun j₅ found => ?_
    extract_lets made
    have made_places (default : Node (.maybe .expr)) (j₆ : Nat) : Places K G G j₆ (made default)
        fun l f => K.Perhaps (ignored G) j₄ j₆ default → K.Named (ignored G) j j₁ name →
          j₁ ≤ j₃ → K.Whole (ignored G) j₃ j₄ t → i ≤ j → K.Whole (ignored G) i l f := by
      refine .pure fun hdefault hname hcolon ht hle => ?_
      have hbefore : i ≤ j₃ := (hle.trans hname.lt.le).trans hcolon
      have hend : j₁ ≤ j₆ := (hcolon.trans ht.lt.le).trans hdefault.lies.le
      exact whole_bare rfl ((hbefore.trans_lt ht.lt).trans_le hdefault.lies.le)
        (hdefault.ends ht.ends)
        (.cons ht.lies hbefore (row_single hdefault.lies (Nat.le_refl j₄) (Nat.le_refl j₆)
          hdefault.lies.inside)) (List.forall_mem_singleton.2 (hname.within hle hend)) trivial
    refine .ite (skipNewlines_places.bind fun j₆ _ => hg.expr.bind fun j₇ e => ?_) ?_
    · refine (made_places (.present e) j₇).mono ?_
      rintro l f h he hbreaks' _ hassign ht hbreaks ⟨_, hcolon⟩ hname hle
      exact h (perhaps_present he (hassign.le.trans hbreaks'.le)) hname
        (hcolon.lt.le.trans hbreaks.le) ht hle
    · refine (made_places .absent j₅).mono ?_
      rintro l f h hno hassign ht hbreaks ⟨_, hcolon⟩ hname hle
      obtain rfl := hassign.no hno
      exact h (perhaps_absent ht.inside) hname (hcolon.lt.le.trans hbreaks.le) ht hle
  refine .ite (advance_places.bind fun j _ => ?_) ?_
  · exact (after_places j).mono fun l f h ⟨hfirst, _⟩ _ _ => h hfirst
  · exact (after_places i).mono fun l f h _ _ => h (Nat.le_refl i)

/-- So does a member, whether it is a field or a declaration. -/
theorem member_places (hg : GrammarPlaces K g) (n : Nat) (inClass : Bool) :
    Places K G G i (member n g inClass) fun j x => K.Whole (ignored G) i j x := by
  refine .here fun start => (attrs_places hg n n).bind fun j₁ attrs => ?_
  refine (modifiers_places n).bind fun j₂ modifiers => .kind fun k => .ite ?_ ?_
  · refine (field_places hg).bind fun j₃ form => .spanFrom fun span => origin_places fun o => ?_
    refine .pure fun ho hspan hform _ _ hmodifiers hattrs hstart => ?_
    have covers := hspan.token hstart ((hattrs.le.trans hmodifiers).trans_lt hform.lt) hform.inside
    exact Tight.whole (tight_spanned rfl (ho ▸ covers) hform.ends (.cons hattrs.sequence
      (Nat.le_refl i) (row_single hform.lies hmodifiers (Nat.le_refl j₃) hform.inside))
      (List.forall_mem_nil _) trivial)
  · refine (itemAfter_places hg n inClass i attrs modifiers).mono ?_
    intro j x h _ _ hmodifiers hattrs hstart
    refine h hstart (hattrs.le.trans hmodifiers) fun hj => ?_
    have := hattrs.append (.nil hmodifiers hj)
    rwa [List.append_nil] at this

/-- A construct is not abandoned, and its terminators stand behind it. -/
theorem recovering_places {c : Category} {p : Parser (Node c)}
    (hp : Places K G G i p fun j x => K.Whole (ignored G) i j x) :
    Places K G G i (recovering p) fun j x? =>
      ∃ x k, x? = some x ∧ k ≤ j ∧ K.Whole (ignored G) i k x where
  free s x? s' hrun free := by
    obtain ⟨x, s₁, -, hrun₁, -, free₁, -⟩ := recovering_errorFree hrun free
    exact hp.free hrun₁ free₁
  runs s x? s' hs hrun free := by
    obtain ⟨x, s₁, rfl, hrun₁, rfl, free₁, -⟩ := recovering_errorFree hrun free
    obtain ⟨k, there, hx⟩ := hp.runs hs hrun₁ free₁
    obtain ⟨j, hkj, there', -⟩ := there.skipWhile TokenKind.terminates
    exact ⟨j, there', x, k, rfl, hkj, hx⟩

/-- Members stand in a row. -/
theorem memberList_places (hg : GrammarPlaces K g) (bound : Nat) (inClass : Bool) (n : Nat) :
    Places K G G i (memberList bound g inClass n) fun j xs =>
      K.Lies (ignored G) i j (.ofList xs) := by
  induction n generalizing i with
  | zero => exact stalled_places
  | succ n ih =>
    unfold memberList
    refine .atKind fun closes => .atKind fun ends => .ite ?_ ?_
    · exact .stay fun hi _ _ _ => lies_nil (Nat.le_refl i) hi
    · refine (recovering_places (member_places hg bound inClass)).bind fun j₁ member? => ?_
      refine skipTerminators_places.bind fun j₂ _ => ih.bind fun j₃ xs => .pure ?_
      rintro hxs hskip ⟨x, k, rfl, hk, hx⟩ _ _ _
      exact lies_cons hx.lies hxs (hk.trans hskip)

/-- The members of a declaration. -/
theorem members_places (hg : GrammarPlaces K g) (n : Nat) (inClass : Bool) :
    Places K G G i (members n g inClass) fun j xs => K.Lies (ignored G) i j xs := by
  refine skipTerminators_places.bind fun j₁ _ => (memberList_places hg n inClass n).bind
    fun j₂ xs => ?_
  exact .pure fun hxs hskip => hxs.mono hskip (Nat.le_refl j₂) hxs.inside

end Members

section Statements

/-- A variable ends with its name, its type or its value. -/
theorem variableDecl_places (hg : GrammarPlaces K g) (kind : VarKind) :
    Places K G G i (variableDecl g kind) fun j f => K.Whole (ignored G) i j f := by
  refine advance_places.bind fun j₁ _ => expectIdent_places.bind fun j₂ name => ?_
  refine (acceptSymbol_places .colon).bind fun j₃ typed => ?_
  extract_lets after
  have after_places (t : Node (.maybe .type)) (j₄ : Nat) : Places K G G j₄ (after t) fun j f =>
      K.Perhaps (ignored G) j₂ j₄ t → K.Named (ignored G) j₁ j₂ name → i ≤ j₁ →
        K.Whole (ignored G) i j f := by
    refine (acceptSymbol_places .assign).bind fun j₅ found => ?_
    extract_lets made
    have made_places (init : Node (.maybe .expr)) (j₆ : Nat) : Places K G G j₆ (made init)
        fun j f => K.Perhaps (ignored G) j₄ j₆ init → K.Perhaps (ignored G) j₂ j₄ t →
          K.Named (ignored G) j₁ j₂ name → i ≤ j₁ → K.Whole (ignored G) i j f := by
      refine .pure fun hinit ht hname hle => ?_
      have hlt : i < j₂ := hle.trans_lt hname.lt
      have hend : j₂ ≤ j₆ := ht.lies.le.trans hinit.lies.le
      exact whole_bare rfl (hlt.trans_le hend) (hinit.ends (ht.ends hname.ends))
        (.cons ht.lies hlt.le (row_single hinit.lies (Nat.le_refl j₄) (Nat.le_refl j₆)
          hinit.lies.inside)) (List.forall_mem_singleton.2 (hname.within hle hend)) trivial
    refine .ite (skipNewlines_places.bind fun j₆ _ => hg.expr.bind fun j₇ e => ?_) ?_
    · refine (made_places (.present e) j₇).mono fun j f h he hbreaks _ hassign ht hname hle => ?_
      exact h (perhaps_present he (hassign.le.trans hbreaks.le)) ht hname hle
    · refine (made_places .absent j₅).mono fun j f h hno hassign ht hname hle => ?_
      obtain rfl := hassign.no hno
      exact h (perhaps_absent ht.lies.inside) ht hname hle
  refine .ite (skipNewlines_places.bind fun j₄ _ => hg.type.bind fun j₅ t => ?_) ?_
  · refine (after_places (.present t) j₅).mono fun j f h ht hbreaks _ hcolon hname ⟨hfirst, _⟩ => ?_
    exact h (perhaps_present ht (hcolon.le.trans hbreaks.le)) hname hfirst
  · refine (after_places .absent j₃).mono fun j f h hno hcolon hname ⟨hfirst, _⟩ => ?_
    obtain rfl := hcolon.no hno
    exact h (perhaps_absent hname.le) hname hfirst

/-- A loop over elements ends with its block. -/
theorem forLoop_places (hg : GrammarPlaces K g) :
    Places K G G i (forLoop g) fun j f => K.Whole (ignored G) i j f := by
  refine (expectKeyword_places .for_).bind fun j₁ _ => expectIdent_places.bind fun j₂ binding => ?_
  refine (expectKeyword_places .in_).bind fun j₃ _ => (headExpr_places hg).bind fun j₄ source => ?_
  refine (block_places hg).bind fun j₅ body => .pure ?_
  rintro hbody hsource ⟨_, hin⟩ hname ⟨_, hword⟩
  have hle : i ≤ j₃ := (hword.lt.le.trans hname.lt.le).trans hin.lt.le
  have hend : j₃ < j₅ := hsource.lt.trans hbody.lt
  exact whole_bare rfl (hle.trans_lt hend) hbody.ends (.cons hsource.lies hle
    (row_single hbody.lies (Nat.le_refl j₄) (Nat.le_refl j₅) hbody.lies.inside))
    (List.forall_mem_singleton.2 (hname.within hword.lt.le (hin.lt.le.trans hend.le))) trivial

/-- So does a loop with a condition. -/
theorem whileLoop_places (hg : GrammarPlaces K g) :
    Places K G G i (whileLoop g) fun j f => K.Whole (ignored G) i j f := by
  refine (expectKeyword_places .while_).bind fun j₁ _ => (headExpr_places hg).bind fun j₂ head => ?_
  refine (block_places hg).bind fun j₃ body => .pure fun hbody hhead ⟨_, hword⟩ => ?_
  exact whole_bare rfl ((hword.lt.trans hhead.lt).trans hbody.lt) hbody.ends
    (.cons hhead.lies hword.lt.le (row_single hbody.lies (Nat.le_refl j₂) (Nat.le_refl j₃)
      hbody.lies.inside)) (List.forall_mem_nil _) trivial

/-- What a statement is covers its parts. -/
theorem stmtForm_places (hg : GrammarPlaces K g) (n : Nat) :
    Places K G G i (stmtForm n g) fun j f => K.Whole (ignored G) i j f := by
  refine .kind fun k => ?_
  split
  · exact (variableDecl_places hg _).mono fun _ _ h _ => h
  · refine .ite ((forLoop_places hg).mono fun _ _ h _ _ => h) ?_
    refine .ite ((whileLoop_places hg).mono fun _ _ h _ _ _ => h) (.ite ?_ ?_)
    · refine (item_places hg n).bind fun j x => .pure fun hx _ _ _ _ => ?_
      exact whole_bare rfl hx.lt hx.ends (row_single hx.lies (Nat.le_refl i) (Nat.le_refl j)
        hx.inside) (List.forall_mem_nil _) trivial
    · refine (expr_places hg n).bind fun j e => .pure fun he _ _ _ _ => ?_
      exact whole_bare rfl he.lt he.ends (row_single he.lies (Nat.le_refl i) (Nat.le_refl j)
        he.inside) (List.forall_mem_nil _) trivial

/-- A statement covers what it is. -/
theorem stmt_places (hg : GrammarPlaces K g) (n : Nat) :
    Places K G G i (stmt n g) fun j s => K.Whole (ignored G) i j s := by
  refine .here fun start => (stmtForm_places hg n).bind fun j form => freshId_places fun id => ?_
  refine .spanFrom fun span => .pure fun hspan hform hstart => ?_
  exact Tight.whole (tight_spanned rfl (hspan.token hstart hform.lt hform.inside) hform.ends
    (row_single hform.lies (Nat.le_refl i) (Nat.le_refl j) hform.inside) (List.forall_mem_nil _)
    trivial)

/-- A stub takes the place of a statement only next to an error. -/
theorem stmtOrStub_places (hg : GrammarPlaces K g) (n : Nat) :
    Places K G G i (stmtOrStub n g) fun j s => ∃ k ≤ j, K.Whole (ignored G) i k s := by
  refine .here fun start => (recovering_places (stmt_places hg n)).bind fun j x? => ?_
  split
  · refine .pure ?_
    rintro ⟨x, k, ⟨⟩, hk, hx⟩ _
    exact ⟨k, hk, hx⟩
  · refine .spanFrom fun span => origin_places fun o => .pure ?_
    rintro _ _ ⟨x, k, ⟨⟩, _⟩

/-- Statements stand in a row. -/
theorem stmtList_places (hg : GrammarPlaces K g) (bound n : Nat) :
    Places K G G i (stmtList bound g n) fun j xs => K.Lies (ignored G) i j (.ofList xs) := by
  induction n generalizing i with
  | zero => exact stalled_places
  | succ n ih =>
    unfold stmtList
    refine .atKind fun closes => .atKind fun ends => .ite ?_ ?_
    · exact .stay fun hi _ _ _ => lies_nil (Nat.le_refl i) hi
    · refine (stmtOrStub_places hg bound).bind fun j₁ x => skipTerminators_places.bind
        fun j₂ _ => ?_
      refine ih.bind fun j₃ xs => .pure fun hxs hskip whole _ _ _ => ?_
      obtain ⟨k, hk, hx⟩ := whole
      exact lies_cons hx.lies hxs (hk.trans hskip)

/-- The statements of a block. -/
theorem stmts_places (hg : GrammarPlaces K g) (n : Nat) :
    Places K G G i (stmts n g) fun j xs => K.Lies (ignored G) i j xs := by
  refine skipTerminators_places.bind fun j₁ _ => (stmtList_places hg n n).bind fun j₂ xs => ?_
  exact .pure fun hxs hskip => hxs.mono hskip (Nat.le_refl j₂) hxs.inside

/-- One more token: each nonterminal places its results if those for fewer tokens do. -/
theorem rule_places (hg : GrammarPlaces K g) (n : Nat) : GrammarPlaces K (rule (n + 1) g) where
  expr := expr_places hg (n + 1)
  name {s e s' ident} hrun hcurrent hkind := by
    have hcloses : s.advance.kind.canStartValue = false := by
      rcases hkind with hkind | hkind <;> rw [hkind] <;> rfl
    have hnewline : s.advance.kind ≠ .newline := by
      rcases hkind with hkind | hkind <;> rw [hkind] <;> nofun
    have closes := Closes.of_canStartValue hcloses
    obtain ⟨o, hname⟩ := expr_name (n := n) (g := g) hcurrent
      (ParserState.idle_of_kind closes.detached hnewline) closes
    cases hname.symm.trans hrun
    exact ⟨o, rfl⟩
  power := power_places hg (n + 1)
  operand := operand_places hg (n + 1)
  cond := cond_places hg
  type := type_places hg (n + 1)
  stmts := stmts_places hg (n + 1)
  members := members_places hg (n + 1) _

/-- All nonterminals place their results, for every number of tokens. -/
theorem grammar_places (n : Nat) : GrammarPlaces K (grammar n) := by
  induction n with
  | zero =>
    exact ⟨stalled_places, nofun, stalled_places, stalled_places, stalled_places,
      stalled_places, stalled_places, stalled_places⟩
  | succ n ih => exact rule_places ih n

/-- A token that is passed over may be any. -/
theorem bump_places : Places K G G i (modify ParserState.bump) fun _ _ => True := by
  refine .update (R := fun _ => True) (fun s => s.bump_kept.2) fun s hs => ?_
  rcases Nat.lt_or_ge i K.tokens.length with hi | hi
  · exact ⟨i + 1, hs.bump hi, trivial⟩
  · have hend : s.bump = s := by
      unfold ParserState.bump
      rw [hs.rest, List.drop_eq_nil_of_le hi]
    exact ⟨i, hend.symm ▸ hs, trivial⟩

/-- The statements of a file. A stray brace is an error. -/
theorem fileStmts_places (bound n : Nat) :
    Places K G G i (fileStmts bound n) fun j xs => K.Row i j (xs.map fun x =>
    (⟨_, x⟩, ignored G)) := by
  induction n generalizing i with
  | zero => exact stalled_places
  | succ n ih =>
    unfold fileStmts
    refine .atKind fun ends => .ite (.stay fun hi _ _ => .nil (Nat.le_refl i) hi) ?_
    refine .atKind fun stray => .ite (.here fun span => ?_) ?_
    · have passed : Places K G G i (do
          modify ParserState.bump
          skipTerminators
          fileStmts bound n) fun _ _ => True :=
        bump_places.bind fun j₁ _ => skipTerminators_places.bind fun j₂ _ =>
          ih.mono fun _ _ _ _ _ => trivial
      exact recordThen_places passed
    · refine (stmtOrStub_places (grammar_places bound) bound).bind fun j₁ x => ?_
      refine skipTerminators_places.bind fun j₂ _ => ih.bind fun j₃ xs => .pure ?_
      rintro hxs hskip ⟨k, hk, hx⟩ _ _ _ _
      exact .cons (hx.lies.mono (Nat.le_refl i) (hk.trans hskip) (hxs.le.trans hxs.inside))
        (Nat.le_refl i) hxs

/-- The statements of a file stand in a row. -/
theorem file_places (n : Nat) :
    Places K G G i (file n) fun j xs => K.Row i j (xs.map fun x => (⟨_, x⟩, ignored G)) := by
  refine skipTerminators_places.bind fun j₁ _ => (fileStmts_places n n).mono ?_
  exact fun j xs h hskip => (Row.nil hskip (h.le.trans h.inside)).append h

end Statements

end FrontEnd.Parse
