import FrontEnd.Proofs.LineStarts

/-!
# Scanning a text again

What the scanner finds at a place is decided by the characters of the lexeme and by the first
ones behind it. A token stays the same when everything behind it is cut off, and when a separator
is put there instead. So the tokens of a text, written one after the other with blanks between
them, are found again.
-/

namespace FrontEnd

namespace Lexer

/-- A text that begins with a blank or a line feed, which no token runs over. -/
def Separates (z : List Char) : Prop := ∃ c rest, z = c :: rest ∧ (c = ' ' ∨ c = '\n')

/-- A class of characters without blanks and line feeds stops in front of a separator. -/
theorem Separates.stops {p : Char → Bool} (hblank : p ' ' = false) (hline : p '\n' = false)
    {z : List Char} (hz : Separates z) : z.head?.any p = false := by
  obtain ⟨c, rest, rfl, hc⟩ := hz
  rcases hc with rfl | rfl
  · exact hblank
  · exact hline

/-- A class of characters ends where a text goes on with a character outside of it. -/
theorem takeWhile_append_stops {p : Char → Bool} {z : List Char} (hz : z.head?.any p = false)
    (cs : List Char) :
    (cs ++ z).takeWhile p = cs.takeWhile p ∧ (cs ++ z).dropWhile p = cs.dropWhile p ++ z := by
  induction cs with
  | nil =>
    cases z with
    | nil => simp
    | cons c rest =>
      have hstop : p c = false := by simpa using hz
      simp [hstop]
  | cons d cs ih =>
    cases hd : p d with
    | false => simp [hd]
    | true => simpa [List.takeWhile_cons, List.dropWhile_cons, hd] using ih

/-- A class of characters without blanks and line feeds ends at a separator. -/
theorem takeWhile_append_separated {p : Char → Bool} (hblank : p ' ' = false)
    (hline : p '\n' = false) {z : List Char} (hz : Separates z) (cs : List Char) :
    (cs ++ z).takeWhile p = cs.takeWhile p ∧ (cs ++ z).dropWhile p = cs.dropWhile p ++ z :=
  takeWhile_append_stops (hz.stops hblank hline) cs

/-- The characters of a class are all of that class, and none is left behind them. -/
theorem takeWhile_takeWhile_self (p : Char → Bool) (cs : List Char) :
    (cs.takeWhile p).takeWhile p = cs.takeWhile p ∧ (cs.takeWhile p).dropWhile p = [] := by
  induction cs with
  | nil => exact ⟨rfl, rfl⟩
  | cons c cs ih =>
    cases hc : p c with
    | false => simp [hc]
    | true => simpa [List.takeWhile_cons, List.dropWhile_cons, hc] using ih

/-- The first character of a text is not changed by what is put behind it. -/
theorem head?_append_separated {p : Char → Bool} (hblank : p ' ' = false) (hline : p '\n' = false)
    {z : List Char} (hz : Separates z) (cs : List Char) :
    (cs ++ z).head?.any p = cs.head?.any p := by
  obtain ⟨c, rest, rfl, hc⟩ := hz
  cases cs with
  | nil => rcases hc with rfl | rfl <;> simp [hblank, hline]
  | cons d cs => rfl

/-- A character other than the separators begins a text with a separator behind it exactly if it
begins the text. -/
theorem head?_append_eq {c : Char} (hblank : c ≠ ' ') (hline : c ≠ '\n') {z : List Char}
    (hz : Separates z) (cs : List Char) :
    (cs ++ z).head? = some c ↔ cs.head? = some c := by
  obtain ⟨d, rest, rfl, hd⟩ := hz
  cases cs with
  | nil => rcases hd with rfl | rfl <;> simp [hblank.symm, hline.symm]
  | cons e cs => rfl

/-- A word without separators begins a text with a separator behind it exactly if it begins the
text. -/
theorem prefix_append_separated {word z : List Char} (hblank : ' ' ∉ word) (hline : '\n' ∉ word)
    (hz : Separates z) (cs : List Char) : word <+: cs ++ z ↔ word <+: cs := by
  obtain ⟨c, rest, rfl, hc⟩ := hz
  induction word generalizing cs with
  | nil => simp
  | cons w word ih =>
    simp only [List.mem_cons, not_or] at hblank hline
    cases cs with
    | nil =>
      rcases hc with rfl | rfl
      · simp [List.cons_prefix_cons, Ne.symm hblank.1]
      · simp [List.cons_prefix_cons, Ne.symm hline.1]
    | cons d cs =>
      rw [List.cons_append, List.cons_prefix_cons, List.cons_prefix_cons,
        ih hblank.2 hline.2]

/-- A point that belongs to a number stands before a digit. -/
theorem decimal_of_point {cs rest : List Char} {d : Char}
    (h : cs.dropWhile Char.isDigit = '.' :: d :: rest) (hd : d.isDigit = true) :
    decimal cs =
      (.float, cs.takeWhile Char.isDigit ++ '.' :: (d :: rest).takeWhile Char.isDigit) := by
  unfold decimal
  dsimp only
  rw [h]
  exact if_pos hd

/-- Without such a point a number is its digits. -/
theorem decimal_of_digits {cs : List Char}
    (h : ∀ d rest, cs.dropWhile Char.isDigit = '.' :: d :: rest → d.isDigit = false) :
    decimal cs = (.decimal, cs.takeWhile Char.isDigit) := by
  unfold decimal
  dsimp only
  split
  · rename_i d rest hdrop
    rw [if_neg (by simp [h d rest hdrop])]
  · rfl

/-- A decimal number either has a point before a digit or has none that belongs to it. -/
theorem decimal_cases (cs : List Char) :
    (∃ d rest, cs.dropWhile Char.isDigit = '.' :: d :: rest ∧ d.isDigit = true) ∨
      ∀ d rest, cs.dropWhile Char.isDigit = '.' :: d :: rest → d.isDigit = false := by
  by_cases h : ∃ d rest, cs.dropWhile Char.isDigit = '.' :: d :: rest ∧ d.isDigit = true
  · exact Or.inl h
  · refine Or.inr fun d rest hdrop => ?_
    cases hd : d.isDigit with
    | false => rfl
    | true => exact absurd ⟨d, rest, hdrop, hd⟩ h

/-- A number that names no base is a decimal one. -/
theorem number_of_decimal {cs : List Char}
    (h : ∀ mark rest, cs = '0' :: mark :: rest → base? mark = none) : number cs = decimal cs := by
  unfold number
  split
  · rw [h _ _ rfl]
  · rfl

/-- A number with a base consists of its mark and the digits of the base. -/
theorem number_of_base {mark : Char} {rest : List Char} {form : LiteralForm}
    {isDigit : Char → Bool} (h : base? mark = some (form, isDigit)) :
    number ('0' :: mark :: rest) = (form, '0' :: mark :: rest.takeWhile isDigit) := by
  simp only [number, h]

/-- A number either names a base or none. -/
theorem number_cases (cs : List Char) :
    (∃ mark rest form isDigit, cs = '0' :: mark :: rest ∧ base? mark = some (form, isDigit)) ∨
      ∀ mark rest, cs = '0' :: mark :: rest → base? mark = none := by
  by_cases h : ∃ mark rest form isDigit, cs = '0' :: mark :: rest ∧
      base? mark = some (form, isDigit)
  · exact Or.inl h
  · refine Or.inr fun mark rest hcs => ?_
    cases hbase : base? mark with
    | none => rfl
    | some b => exact absurd ⟨mark, rest, b.1, b.2, hcs, hbase⟩ h

/-- The digits of a base may continue a name. -/
theorem base?_digits {mark : Char} {form : LiteralForm} {isDigit : Char → Bool}
    (h : base? mark = some (form, isDigit)) {c : Char} (hc : isDigit c = true) :
    isNamePart c = true := by
  unfold base? at h
  split at h
  all_goals cases h
  all_goals
    delta isNamePart Char.isAlphanum Char.isAlpha Char.isUpper Char.isLower
    simp only [isBinDigit, isOctDigit, isHexDigit, Char.isDigit, Bool.or_eq_true, Bool.and_eq_true,
      beq_iff_eq, decide_eq_true_eq, Char.le_def, UInt32.le_iff_toNat_le, ge_iff_le, Char.ext_iff,
      ← UInt32.toNat_inj] at hc ⊢
    simp at hc ⊢
    omega

/-- The letter of a base may continue a name. -/
theorem base?_mark {mark : Char} (h : isNamePart mark = false) : base? mark = none := by
  unfold base?
  split
  all_goals first
    | rfl
    | cases h

/-- Names do not go on in front of some text, so neither do digits of any base. -/
theorem stops_of_isNamePart {p : Char → Bool} {z : List Char} (hz : z.head?.any isNamePart = false)
    (hp : ∀ {c : Char}, p c = true → isNamePart c = true) : z.head?.any p = false := by
  cases z with
  | nil => rfl
  | cons c z =>
    have hc : isNamePart c = false := by simpa using hz
    exact Bool.eq_false_iff.2 fun h => Bool.eq_false_iff.1 hc (hp h)

/-- A decimal number is not changed by a text behind it that begins with no digit and no point. -/
theorem decimal_append_stops {z : List Char} (hdigit : z.head?.any Char.isDigit = false)
    (hpoint : z.head? ≠ some '.') (cs : List Char) : decimal (cs ++ z) = decimal cs := by
  obtain ⟨htake, hdrop⟩ := takeWhile_append_stops hdigit cs
  rcases decimal_cases cs with ⟨d, rest, hfound, hd⟩ | hnone
  · have hfrac := (takeWhile_append_stops hdigit (d :: rest)).1
    rw [List.cons_append] at hfrac
    rw [hfound, List.cons_append, List.cons_append] at hdrop
    rw [decimal_of_point hfound hd, decimal_of_point hdrop hd, htake, hfrac]
  · rw [decimal_of_digits hnone, decimal_of_digits, htake]
    intro d rest hfound
    rw [hdrop] at hfound
    -- The point may stand at the very end, and then no digit follows it.
    rcases hafter : cs.dropWhile Char.isDigit with _ | ⟨e, _ | ⟨e', after⟩⟩
    · rw [hafter, List.nil_append] at hfound
      rw [hfound] at hpoint
      exact absurd rfl hpoint
    · rw [hafter, List.cons_append, List.nil_append] at hfound
      obtain ⟨-, rfl⟩ := List.cons.inj hfound
      simpa using hdigit
    · rw [hafter, List.cons_append, List.cons_append] at hfound
      obtain ⟨hmark, htail⟩ := List.cons.inj hfound
      obtain ⟨rfl, -⟩ := List.cons.inj htail
      rw [hmark] at hafter
      exact hnone _ _ hafter

/-- A number is not changed by a text behind it that begins with no part of a name and no point. -/
theorem number_append_stops {z : List Char} (hpart : z.head?.any isNamePart = false)
    (hpoint : z.head? ≠ some '.') {cs : List Char} (hcs : cs ≠ []) :
    number (cs ++ z) = number cs := by
  have hdigit : z.head?.any Char.isDigit = false :=
    stops_of_isNamePart hpart fun h => by simp [isNamePart, Char.isAlphanum, h]
  rcases number_cases cs with ⟨mark, rest, form, isDigit, rfl, hbase⟩ | hnone
  · have hstop : z.head?.any isDigit = false := stops_of_isNamePart hpart (base?_digits hbase)
    rw [List.cons_append, List.cons_append, number_of_base hbase, number_of_base hbase,
      (takeWhile_append_stops hstop rest).1]
  · rw [number_of_decimal hnone, number_of_decimal, decimal_append_stops hdigit hpoint]
    intro mark rest heq
    cases cs with
    | nil => exact absurd rfl hcs
    | cons c cs =>
      cases cs with
      | nil =>
        obtain ⟨-, rfl⟩ := List.cons.inj heq
        exact base?_mark (by simpa using hpart)
      | cons d cs =>
        rw [List.cons_append, List.cons_append] at heq
        cases heq
        exact hnone _ _ rfl

/-- Nor is it by a separator. -/
theorem number_append_separated {z : List Char} (hz : Separates z) {cs : List Char}
    (hcs : cs ≠ []) : number (cs ++ z) = number cs := by
  refine number_append_stops (hz.stops rfl rfl) ?_ hcs
  obtain ⟨c, rest, rfl, rfl | rfl⟩ := hz <;> simp

/-- A decimal number stands for itself. -/
theorem decimal_decimal (cs : List Char) : decimal (decimal cs).2 = decimal cs := by
  obtain ⟨htake, hdrop⟩ := takeWhile_takeWhile_self Char.isDigit cs
  rcases decimal_cases cs with ⟨d, rest, hpoint, hd⟩ | hnone
  · rw [decimal_of_point hpoint hd]
    dsimp only
    have hall : ∀ c ∈ cs.takeWhile Char.isDigit, c.isDigit = true :=
      List.all_eq_true.1 List.all_takeWhile
    have htake' : (cs.takeWhile Char.isDigit ++ '.' :: (d :: rest).takeWhile Char.isDigit).takeWhile
        Char.isDigit = cs.takeWhile Char.isDigit := by
      rw [List.takeWhile_append_of_pos hall]
      simp
    have hdrop' : (cs.takeWhile Char.isDigit ++ '.' :: (d :: rest).takeWhile Char.isDigit).dropWhile
        Char.isDigit = '.' :: d :: rest.takeWhile Char.isDigit := by
      rw [List.dropWhile_append_of_pos hall, List.dropWhile_cons_of_neg (by decide),
        List.takeWhile_cons_of_pos hd]
    rw [decimal_of_point hdrop' hd, htake', List.takeWhile_cons_of_pos hd,
      List.takeWhile_cons_of_pos hd, (takeWhile_takeWhile_self Char.isDigit rest).1]
  · rw [decimal_of_digits hnone]
    dsimp only
    rw [decimal_of_digits, htake]
    intro d rest hpoint
    rw [hdrop] at hpoint
    cases hpoint

/-- So does every other number. -/
theorem number_number {c : Char} {cs : List Char} (h : StartsNumber c cs) :
    number (number (c :: cs)).2 = number (c :: cs) := by
  rcases number_cases (c :: cs) with ⟨mark, rest, form, isDigit, hcs, hbase⟩ | hnone
  · rw [hcs, number_of_base hbase]
    dsimp only
    rw [number_of_base hbase, (takeWhile_takeWhile_self isDigit rest).1]
  · rw [number_of_decimal hnone, number_of_decimal, decimal_decimal]
    intro mark rest hmark
    obtain ⟨⟨after, hafter⟩, -, -⟩ := decimal_append h
    rw [hmark, List.cons_append, List.cons_append] at hafter
    exact hnone mark (rest ++ after) hafter

/-- A word is not changed by a text behind it that begins with no part of a name and no question
mark. -/
theorem word_append_stops {z : List Char} (hpart : z.head?.any isNamePart = false)
    (hquest : z.head? ≠ some '?') (cs : List Char) : word (cs ++ z) = word cs := by
  obtain ⟨htake, hdrop⟩ := takeWhile_append_stops hpart cs
  have hhead : (cs.dropWhile isNamePart ++ z).head? = some '?' ↔
      (cs.dropWhile isNamePart).head? = some '?' := by
    cases cs.dropWhile isNamePart with
    | nil => simpa using hquest
    | cons d rest => rfl
  unfold word
  dsimp only
  rw [htake, hdrop]
  simp only [hhead]

/-- Nor is it by a separator. -/
theorem word_append_separated {z : List Char} (hz : Separates z) (cs : List Char) :
    word (cs ++ z) = word cs := by
  refine word_append_stops (hz.stops rfl rfl) ?_ cs
  obtain ⟨c, rest, rfl, rfl | rfl⟩ := hz <;> simp

/-- A word stands for itself. -/
theorem word_word (cs : List Char) : word (word cs).chars = word cs := by
  obtain ⟨htake, hdrop⟩ := takeWhile_takeWhile_self isNamePart cs
  by_cases hsafe : String.ofList (cs.takeWhile isNamePart) = "as" ∧
      (cs.dropWhile isNamePart).head? = some '?'
  · have hchars : cs.takeWhile isNamePart = ['a', 's'] := by
      have := congrArg String.toList hsafe.1
      rwa [String.toList_ofList] at this
    have hword : word cs = ⟨some (.keyword .asSafe), ['a', 's', '?']⟩ := by
      unfold word
      dsimp only
      rw [if_pos hsafe, hchars]
      rfl
    rw [hword]
    rfl
  · have hchars : (word cs).chars = cs.takeWhile isNamePart := by
      unfold word
      dsimp only
      rw [if_neg hsafe]
      split <;> rfl
    rw [hchars]
    unfold word
    dsimp only
    rw [htake, hdrop, if_neg hsafe, if_neg (by simp)]

/-- The text of a string, given its closing quote, does not depend on what comes after it. -/
theorem stringBody?_of_append {quote : Char} (hquote : quote ≠ '\\') {cs body : List Char}
    (h : stringBody? quote cs = some body) (rest : List Char) :
    stringBody? quote (body ++ quote :: rest) = some body := by
  fun_induction stringBody? quote cs generalizing body with
  | case1 => cases h
  | case2 c cs ih =>
    obtain ⟨inner, hinner, rfl⟩ := Option.map_eq_some_iff.1 h
    simp only [List.cons_append, stringBody?, ih hinner, Option.map_some]
  | case3 cs =>
    cases h
    rw [List.nil_append]
    unfold stringBody?
    split
    · rename_i heq
      cases heq
    · rename_i heq
      exact absurd (List.cons.inj heq).1 hquote
    · rename_i heq
      cases heq
      rw [if_pos rfl]
  | case4 c cs hescape hc ih =>
    obtain ⟨inner, hinner, rfl⟩ := Option.map_eq_some_iff.1 h
    have hother : c ≠ '\\' := by
      rintro rfl
      cases cs with
      | nil => cases hinner
      | cons d cs => exact hescape d cs rfl rfl
    rw [List.cons_append]
    unfold stringBody?
    split
    · rename_i heq
      cases heq
    · rename_i heq
      exact absurd (List.cons.inj heq).1 hother
    · rename_i heq
      cases heq
      rw [if_neg hc, ih hinner]
      rfl

/-- A block comment does not depend on what comes after it. -/
theorem commentBody?_append_of_some {cs chars : List Char} (h : commentBody? cs = some chars)
    (z : List Char) : commentBody? (cs ++ z) = some chars := by
  fun_induction commentBody? cs generalizing chars with
  | case1 => cases h
  | case2 rest =>
    cases h
    rfl
  | case3 c cs hmark ih =>
    obtain ⟨inner, hinner, rfl⟩ := Option.map_eq_some_iff.1 h
    rw [List.cons_append]
    unfold commentBody?
    split
    · rename_i heq
      cases heq
    · rename_i after heq
      obtain ⟨rfl, hnext⟩ := List.cons.inj heq
      cases cs with
      | nil => cases hinner
      | cons d cs =>
        rw [List.cons_append] at hnext
        obtain ⟨rfl, -⟩ := List.cons.inj hnext
        exact absurd rfl (hmark cs rfl)
    · rename_i heq
      cases heq
      rw [ih hinner]
      rfl

/-- Two states of the scanner in which the same lexemes are found: what lies behind them is not
looked at but for a list that may hold a lifetime. -/
structure Context.Alike (ctx ctx' : Context) : Prop where
  /-- As many angle brackets are open. -/
  openAngles : ctx.openAngles = ctx'.openAngles
  /-- Either both stand right behind `<` or `,`, or none does. -/
  listStart : (ctx.last? = some (.symbol .lAngle) ∨ ctx.last? = some (.symbol .comma)) ↔
    (ctx'.last? = some (.symbol .lAngle) ∨ ctx'.last? = some (.symbol .comma))

theorem Context.Alike.refl (ctx : Context) : ctx.Alike ctx :=
  ⟨rfl, Iff.rfl⟩

/-- States stay alike behind a lexeme. -/
theorem Context.Alike.after {ctx ctx' : Context} (h : ctx.Alike ctx') (l : Lexeme) :
    (ctx.after l).Alike (ctx'.after l) := by
  obtain ⟨kind?, chars⟩ := l
  cases kind? with
  | none => exact ⟨h.openAngles, h.listStart⟩
  | some kind => exact ⟨congrArg (anglesAfter · kind) h.openAngles, Iff.rfl⟩

/-- In states that are alike the same lifetimes are found. -/
theorem lifetime?_alike {ctx ctx' : Context} (h : ctx.Alike ctx') (cs : List Char) :
    lifetime? ctx cs = lifetime? ctx' cs := by
  unfold lifetime?
  dsimp only
  rw [h.openAngles]
  simp only [h.listStart]

/-- A lifetime is not changed by a separator behind the text. -/
theorem lifetime?_append_separated {z : List Char} (hz : Separates z) (ctx : Context)
    (cs : List Char) : lifetime? ctx (cs ++ z) = lifetime? ctx cs := by
  obtain ⟨htake, hdrop⟩ := takeWhile_append_separated (p := isNamePart) rfl rfl hz cs
  unfold lifetime?
  dsimp only
  rw [htake, hdrop, head?_append_separated (p := isNameStart) rfl rfl hz]
  simp only [ne_eq, head?_append_eq (c := '\x27') (by decide) (by decide) hz]

/-- Names begin with characters that may continue them. -/
theorem isNamePart_of_isNameStart {c : Char} (h : isNameStart c = true) : isNamePart c = true := by
  simp only [isNameStart, isNamePart, Char.isAlphanum, Bool.or_eq_true] at h ⊢
  rcases h with h | h
  · exact Or.inl (Or.inl h)
  · exact Or.inr h

/-- The name of a lifetime is a name, and stands for itself. -/
theorem lifetime?_lifetime {ctx : Context} {cs name : List Char}
    (h : lifetime? ctx cs = some name) : lifetime? ctx name = some name := by
  unfold lifetime? at h
  dsimp only at h
  split at h
  · rename_i hlist
    cases h
    obtain ⟨htake, hdrop⟩ := takeWhile_takeWhile_self isNamePart cs
    have hstart : (cs.takeWhile isNamePart).head?.any isNameStart = true := by
      cases cs with
      | nil => exact absurd hlist.2.2.1 (by simp)
      | cons c cs =>
        have hc : isNameStart c = true := by simpa using hlist.2.2.1
        rw [List.takeWhile_cons_of_pos (isNamePart_of_isNameStart hc)]
        exact hc
    unfold lifetime?
    dsimp only
    rw [htake, hdrop, if_pos ⟨hlist.1, hlist.2.1, hstart, by simp⟩]
  · cases h

/-- Whether a quote begins a lifetime is decided before the next quote. -/
theorem lifetime?_before_quote (ctx : Context) (body rest rest' : List Char) :
    (lifetime? ctx (body ++ '\x27' :: rest)).isSome =
      (lifetime? ctx (body ++ '\x27' :: rest')).isSome := by
  have hhead (after : List Char) : (body ++ '\x27' :: after).head?.any isNameStart =
      (body ++ ['\x27']).head?.any isNameStart := by
    cases body <;> rfl
  have hdrop (after : List Char) : ((body ++ '\x27' :: after).dropWhile isNamePart).head? =
      ((body ++ ['\x27']).dropWhile isNamePart).head? := by
    induction body with
    | nil => rfl
    | cons c body ih =>
      cases hc : isNamePart c with
      | false => simp [hc]
      | true =>
        rw [List.cons_append, List.cons_append, List.dropWhile_cons_of_pos hc,
          List.dropWhile_cons_of_pos hc]
        exact ih fun after => by cases body <;> rfl
  unfold lifetime?
  dsimp only
  rw [hhead rest, hhead rest', hdrop rest, hdrop rest']
  split <;> rfl

/-- No symbol is written with a blank or a line feed. -/
theorem spelling_unseparated (s : Symbol) :
    ' ' ∉ s.spelling.toList ∧ '\n' ∉ s.spelling.toList := by
  cases s <;> decide

/-- Symbols with the same spelling are the same. -/
theorem table_distinct : Symbol.table.Pairwise fun a b => a.spelling ≠ b.spelling := by
  decide

/-- Whether a symbol begins a text is not changed by a separator behind it. -/
theorem fits_append_separated {z : List Char} (hz : Separates z) (cs : List Char) (s : Symbol) :
    fits (cs ++ z) s = fits cs s := by
  obtain ⟨hblank, hline⟩ := spelling_unseparated s
  have hprefix := prefix_append_separated hblank hline hz cs
  by_cases h : s.spelling.toList <+: cs
  · obtain ⟨after, rfl⟩ := h
    have hfront : s.spelling.toList <+: s.spelling.toList ++ after ++ z := by
      rw [List.append_assoc]
      exact List.prefix_append _ _
    unfold fits
    dsimp only
    rw [List.isPrefixOf_iff_prefix.2 hfront,
      List.isPrefixOf_iff_prefix.2 (List.prefix_append _ _), List.append_assoc, List.drop_left,
      List.drop_left, head?_append_separated (p := isNamePart) rfl rfl hz]
  · have hneg : s.spelling.toList.isPrefixOf cs = false := by
      rw [← Bool.not_eq_true, List.isPrefixOf_iff_prefix]
      exact h
    have hneg' : s.spelling.toList.isPrefixOf (cs ++ z) = false := by
      rw [← Bool.not_eq_true, List.isPrefixOf_iff_prefix, hprefix]
      exact h
    unfold fits
    dsimp only
    rw [hneg, hneg', Bool.false_and, Bool.false_and]

/-- So the symbol at the start of a text is not changed either. -/
theorem symbol?_append_separated {z : List Char} (hz : Separates z) (cs : List Char) :
    symbol? (cs ++ z) = symbol? cs := by
  unfold symbol?
  congr 1
  funext s
  exact fits_append_separated hz cs s

/-- The spelling of a symbol that begins a text stands for that symbol: a symbol that comes before
it in the table is at least as long, so it would have begun the text as well. -/
theorem symbol?_spelling {cs : List Char} {s : Symbol} (h : symbol? cs = some s) :
    symbol? s.spelling.toList = some s := by
  unfold symbol? at h ⊢
  rw [List.find?_eq_some_iff_append] at h ⊢
  obtain ⟨-, before, after, htable, -⟩ := h
  have hself : fits s.spelling.toList s = true := by
    unfold fits
    dsimp only
    rw [List.isPrefixOf_iff_prefix.2 List.prefix_rfl, List.drop_length]
    simp
  refine ⟨hself, before, after, htable, fun a ha => ?_⟩
  have hlonger := Symbol.table_longest_first
  have hdistinct := table_distinct
  rw [htable, List.pairwise_append] at hlonger hdistinct
  have hlength := hlonger.2.2 a ha s List.mem_cons_self
  have hspelling := hdistinct.2.2 a ha s List.mem_cons_self
  rw [Bool.not_eq_true']
  refine Bool.eq_false_iff.2 fun hfits => hspelling ?_
  simp only [fits, Bool.and_eq_true, List.isPrefixOf_iff_prefix] at hfits
  rw [← String.length_toList, ← String.length_toList] at hlength
  exact String.toList_inj.1 (hfits.1.eq_of_length_le hlength)

/-- A text that begins with no line break, string or comment. -/
structure Ordinary (c : Char) (cs : List Char) : Prop where
  line : c ≠ '\n'
  single : c ≠ '\x27'
  double : c ≠ '"'
  comment : c = '/' → cs.head? ≠ some '/' ∧ cs.head? ≠ some '*'

/-- What begins there is a blank, a number, a word or a symbol. -/
theorem lexeme_ordinary {c : Char} {cs : List Char} (h : Ordinary c cs) (ctx : Context) :
    lexeme ctx c cs =
      if isBlank c then .ok ⟨none, [c]⟩
      else if c.isDigit || (c == '.' && cs.head?.any Char.isDigit) then
        .ok ⟨some (.literal (number (c :: cs)).1 (String.ofList (number (c :: cs)).2)),
          (number (c :: cs)).2⟩
      else if isNameStart c then .ok (word (c :: cs))
      else
        match symbol? (c :: cs) with
        | some s => .ok ⟨some (.symbol s), s.spelling.toList⟩
        | none => .error ⟨.unexpectedChar c, ctx.span c.utf8Size⟩ := by
  unfold lexeme
  split
  · exact absurd rfl h.line
  · exact absurd rfl h.single
  · exact absurd rfl h.double
  · exact absurd rfl (h.comment rfl).1
  · exact absurd rfl (h.comment rfl).2
  · rfl

/-- A text begins with a line break, a string, a comment, or none of them. -/
theorem ordinary_cases (c : Char) (cs : List Char) :
    c = '\n' ∨ c = '\x27' ∨ c = '"' ∨ (∃ rest, c = '/' ∧ cs = '/' :: rest) ∨
      (∃ rest, c = '/' ∧ cs = '*' :: rest) ∨ Ordinary c cs := by
  by_cases hline : c = '\n'
  · exact Or.inl hline
  by_cases hsingle : c = '\x27'
  · exact Or.inr (Or.inl hsingle)
  by_cases hdouble : c = '"'
  · exact Or.inr (Or.inr (Or.inl hdouble))
  by_cases hslashes : c = '/' ∧ cs.head? = some '/'
  · obtain ⟨rest, rfl⟩ := List.head?_eq_some_iff.1 hslashes.2
    exact Or.inr (Or.inr (Or.inr (Or.inl ⟨rest, hslashes.1, rfl⟩)))
  by_cases hstar : c = '/' ∧ cs.head? = some '*'
  · obtain ⟨rest, rfl⟩ := List.head?_eq_some_iff.1 hstar.2
    exact Or.inr (Or.inr (Or.inr (Or.inr (Or.inl ⟨rest, hstar.1, rfl⟩))))
  · refine Or.inr (Or.inr (Or.inr (Or.inr (Or.inr ⟨hline, hsingle, hdouble, fun hc => ?_⟩))))
    exact ⟨fun h => hslashes ⟨hc, h⟩, fun h => hstar ⟨hc, h⟩⟩

/-- A text that begins like an ordinary one is ordinary. -/
theorem Ordinary.of_head? {c : Char} {cs cs' : List Char} (h : Ordinary c cs)
    (hhead : ∀ d, d = '/' ∨ d = '*' → cs'.head? = some d → cs.head? = some d) : Ordinary c cs' where
  line := h.line
  single := h.single
  double := h.double
  comment := fun hc => ⟨fun h' => (h.comment hc).1 (hhead _ (Or.inl rfl) h'),
    fun h' => (h.comment hc).2 (hhead _ (Or.inr rfl) h')⟩

/-- A string with its closing quote is not changed by what comes after it. -/
theorem stringLexeme_of_append {ctx : Context} (ctx' : Context) {quote : Char}
    (hquote : quote ≠ '\\') {form : LiteralForm} {cs : List Char} {l : Lexeme}
    (h : stringLexeme ctx quote form cs = .ok l) :
    ∃ body rest, cs = body ++ quote :: rest ∧ l.chars = quote :: (body ++ [quote]) ∧
      ∀ rest', stringLexeme ctx' quote form (body ++ quote :: rest') = .ok l := by
  unfold stringLexeme at h
  split at h
  · rename_i body hbody
    cases h
    obtain ⟨rest, rfl⟩ := stringBody?_append hbody
    refine ⟨body, rest, rfl, rfl, fun rest' => ?_⟩
    unfold stringLexeme
    rw [stringBody?_of_append hquote hbody]
  · cases h

/-- The lexeme of a single quote. -/
theorem lexeme_single (ctx : Context) (cs : List Char) : lexeme ctx '\x27' cs =
    match lifetime? ctx cs with
    | some name => .ok ⟨some (.lifetime (String.ofList name)), '\x27' :: name⟩
    | none => stringLexeme ctx '\x27' .single cs := rfl

/-- The lexeme of an opening comment mark. -/
theorem lexeme_comment (ctx : Context) (cs : List Char) : lexeme ctx '/' ('*' :: cs) =
    match commentBody? cs with
    | some body => .ok ⟨none, '/' :: '*' :: body⟩
    | none => .error ⟨.unterminatedComment, ctx.span 2⟩ := rfl

/-- In states that are alike the same lexemes are found. -/
theorem lexeme_alike {ctx ctx' : Context} (halike : ctx.Alike ctx') {c : Char} {cs : List Char}
    {l : Lexeme} (h : lexeme ctx c cs = .ok l) : lexeme ctx' c cs = .ok l := by
  rcases ordinary_cases c cs with rfl | rfl | rfl | ⟨rest, rfl, rfl⟩ | ⟨rest, rfl, rfl⟩ | hother
  · exact h
  · rw [lexeme_single, ← lifetime?_alike halike]
    rw [lexeme_single] at h
    cases hname : lifetime? ctx cs with
    | some name => rwa [hname] at h
    | none =>
      rw [hname] at h
      obtain ⟨body, rest, rfl, -, hstring⟩ := stringLexeme_of_append ctx' (by decide) h
      exact hstring rest
  · obtain ⟨body, rest, rfl, -, hstring⟩ := stringLexeme_of_append ctx' (by decide) h
    exact hstring rest
  · exact h
  · rw [lexeme_comment] at h ⊢
    cases hbody : commentBody? rest with
    | some body => rwa [hbody] at h
    | none =>
      rw [hbody] at h
      cases h
  · rw [lexeme_ordinary hother] at h ⊢
    by_cases hsymbol : symbol? (c :: cs) = none
    · simp only [hsymbol] at h ⊢
      split at h
      · rwa [if_pos ‹_›]
      · rw [if_neg ‹_›]
        split at h
        · rwa [if_pos ‹_›]
        · rw [if_neg ‹_›]
          split at h
          · rwa [if_pos ‹_›]
          · cases h
    · obtain ⟨s, hs⟩ := Option.ne_none_iff_exists'.1 hsymbol
      simp only [hs] at h ⊢
      exact h

/-- A comment up to the end of the line ends at a line feed put behind it. -/
theorem takeWhile_append_line (cs after : List Char) :
    (cs ++ '\n' :: after).takeWhile (· ≠ '\n') = cs.takeWhile (· ≠ '\n') := by
  induction cs with
  | nil => rfl
  | cons c cs ih => rw [List.cons_append, List.takeWhile_cons, List.takeWhile_cons, ih]

/-- A separator behind the text changes no lexeme; a comment up to the end of the line needs a
line feed. -/
theorem lexeme_append_separated {ctx : Context} {c : Char} {cs z : List Char} {l : Lexeme}
    (hz : Separates z) (hline : l.kind? = none → z.head? = some '\n')
    (h : lexeme ctx c cs = .ok l) : lexeme ctx c (cs ++ z) = .ok l := by
  rcases ordinary_cases c cs with rfl | rfl | rfl | ⟨rest, rfl, rfl⟩ | ⟨rest, rfl, rfl⟩ | hother
  · exact h
  · rw [lexeme_single, lifetime?_append_separated hz]
    rw [lexeme_single] at h
    cases hname : lifetime? ctx cs with
    | some name => rwa [hname] at h
    | none =>
      rw [hname] at h
      obtain ⟨body, rest, rfl, -, hstring⟩ := stringLexeme_of_append ctx (by decide) h
      simpa using hstring (rest ++ z)
  · obtain ⟨body, rest, rfl, -, hstring⟩ := stringLexeme_of_append ctx (by decide) h
    change stringLexeme ctx '"' .double (body ++ '"' :: rest ++ z) = _
    simpa using hstring (rest ++ z)
  · cases h
    obtain ⟨d, after, rfl, -⟩ := hz
    obtain rfl : d = '\n' := by simpa using hline rfl
    change (Except.ok ⟨none, '/' :: '/' :: (rest ++ '\n' :: after).takeWhile (· ≠ '\n')⟩ :
      Except LexError Lexeme) = _
    rw [takeWhile_append_line]
  · rw [lexeme_comment] at h
    rw [List.cons_append, lexeme_comment]
    cases hbody : commentBody? rest with
    | some body =>
      rw [commentBody?_append_of_some hbody]
      rwa [hbody] at h
    | none =>
      rw [hbody] at h
      cases h
  · have hother' : Ordinary c (cs ++ z) := by
      refine hother.of_head? fun d hd hhead => (head?_append_eq ?_ ?_ hz cs).1 hhead
      · rcases hd with rfl | rfl <;> decide
      · rcases hd with rfl | rfl <;> decide
    rw [lexeme_ordinary hother'] at *
    rw [lexeme_ordinary hother] at h
    have hnumber : number (c :: cs ++ z) = _ := number_append_separated hz (by simp)
    have hword := word_append_separated hz (c :: cs)
    have hsymbol := symbol?_append_separated hz (c :: cs)
    rw [List.cons_append] at hnumber hword hsymbol
    rw [head?_append_separated (p := Char.isDigit) rfl rfl hz, hnumber, hword, hsymbol]
    exact h

/-- A number that is cut out of a text still begins like one. -/
theorem StartsNumber.alone {c : Char} {tail rest : List Char} (h : StartsNumber c (tail ++ rest))
    (hchars : (number (c :: (tail ++ rest))).2 = c :: tail) : StartsNumber c tail := by
  rcases h with hdigit | ⟨rfl, hnext⟩
  · exact Or.inl hdigit
  · obtain ⟨d, after, hafter⟩ : ∃ d after, tail ++ rest = d :: after := by
      cases htext : tail ++ rest with
      | nil => simp [htext] at hnext
      | cons d after => exact ⟨d, after, rfl⟩
    have hd : d.isDigit = true := by simpa [hafter] using hnext
    rw [hafter, number_of_decimal (fun _ _ h => by cases h), decimal_of_point rfl hd] at hchars
    obtain rfl : d :: after.takeWhile Char.isDigit = tail := by
      simpa [List.takeWhile_cons_of_pos hd] using hchars
    exact Or.inr ⟨rfl, hd⟩

/-- A token that begins neither like a string nor like a comment stands for itself. -/
theorem lexeme_alone_ordinary {ctx : Context} {c : Char} {cs : List Char} {l : Lexeme}
    {kind : TokenKind} (hother : Ordinary c cs) (h : lexeme ctx c cs = .ok l)
    (hkind : l.kind? = some kind) : ∃ tail, l.chars = c :: tail ∧ lexeme ctx c tail = .ok l := by
  obtain ⟨rest, hrest, hopens⟩ := lexeme_opens h
  obtain ⟨d, tail, hchars⟩ := List.exists_cons_of_ne_nil hopens.some_chars
  rw [hchars, List.cons_append] at hrest
  obtain ⟨rfl, rfl⟩ := List.cons.inj hrest
  have hhead {d : Char} (hd : tail.head? = some d) : (tail ++ rest).head? = some d := by
    rw [List.head?_append, hd, Option.some_or]
  refine ⟨tail, hchars, ?_⟩
  rw [lexeme_ordinary hother] at h
  rw [lexeme_ordinary (hother.of_head? fun d _ => hhead)]
  split at h
  · cases h
    cases hkind
  · rw [if_neg ‹_›]
    split at h
    · rename_i hnumber
      rw [startsNumber_iff] at hnumber
      cases h
      dsimp only at hchars
      have hself := number_number hnumber
      rw [hchars] at hself
      rw [if_pos (startsNumber_iff.2 (hnumber.alone hchars)), hself]
    · rename_i hnumber
      rw [startsNumber_iff] at hnumber
      have hnumber' : ¬StartsNumber c tail := mt (StartsNumber.append · rest) hnumber
      rw [if_neg (mt startsNumber_iff.1 hnumber')]
      split at h
      · cases h
        have hself := word_word (c :: (tail ++ rest))
        rw [hchars] at hself
        rw [if_pos ‹_›, hself]
      · rw [if_neg ‹_›]
        split at h
        · rename_i s hs
          cases h
          dsimp only at hchars
          have hself := symbol?_spelling hs
          rw [hchars] at hself
          simp only [hself]
        · cases h

/-- A token stands for itself: cut out of the text it is found again. -/
theorem lexeme_alone {ctx : Context} {c : Char} {cs : List Char} {l : Lexeme} {kind : TokenKind}
    (h : lexeme ctx c cs = .ok l) (hkind : l.kind? = some kind) :
    ∃ tail, l.chars = c :: tail ∧ lexeme ctx c tail = .ok l := by
  rcases ordinary_cases c cs with rfl | rfl | rfl | ⟨rest, rfl, rfl⟩ | ⟨rest, rfl, rfl⟩ | hother
  · cases h
    exact ⟨[], rfl, rfl⟩
  · rw [lexeme_single] at h
    cases hname : lifetime? ctx cs with
    | some name =>
      rw [hname] at h
      cases h
      refine ⟨name, rfl, ?_⟩
      rw [lexeme_single, lifetime?_lifetime hname]
    | none =>
      rw [hname] at h
      obtain ⟨body, rest, rfl, hchars, hstring⟩ :=
        stringLexeme_of_append ctx (by decide) h
      refine ⟨body ++ ['\x27'], hchars, ?_⟩
      have hnone := lifetime?_before_quote ctx body rest []
      rw [hname, Option.isSome_none] at hnone
      rw [lexeme_single, Option.isSome_eq_false_iff.1 hnone.symm |> Option.isNone_iff_eq_none.1]
      exact hstring []
  · obtain ⟨body, rest, rfl, hchars, hstring⟩ :=
      stringLexeme_of_append ctx (by decide) h
    exact ⟨body ++ ['"'], hchars, hstring []⟩
  · cases h
    cases hkind
  · rw [lexeme_comment] at h
    split at h
    · cases h
      cases hkind
    · cases h
  · exact lexeme_alone_ordinary hother h hkind

/-- A blank is passed over. -/
theorem Scans.blank {ctx : Context} {cs : List Char} {tokens : List Token} {starts : List Nat}
    (h : Scans (ctx.after ⟨none, [' ']⟩) cs tokens starts) : Scans ctx (' ' :: cs) tokens starts :=
  .step (l := ⟨none, [' ']⟩) rfl rfl h

/-- The tokens of a text with single blanks between them are found again, in every state that is
alike. -/
theorem Scans.again {ctx ctx' : Context} {cs : List Char} {tokens : List Token}
    {starts : List Nat} (h : Scans ctx cs tokens starts) (halike : ctx.Alike ctx') :
    ∃ tokens' starts', Scans ctx' ([' '].intercalate (tokens.map (·.kind.source))) tokens' starts' ∧
      tokens'.map (·.kind) = tokens.map (·.kind) := by
  induction h generalizing ctx' with
  | done => exact ⟨_, _, .done ctx', rfl⟩
  | @step ctx c cs rest l tokens starts hl hrest hscan ih =>
    obtain ⟨kind?, chars⟩ := l
    cases kind? with
    | none =>
      -- A blank or comment leaves no token, and the state behind it differs only in its place.
      exact ih ⟨halike.openAngles, halike.listStart⟩
    | some kind =>
      obtain ⟨_, -, hopens⟩ := lexeme_opens hl
      obtain ⟨-, rfl⟩ : kind ≠ .eof ∧ chars = kind.source := hopens.written kind rfl
      obtain ⟨tail, htail, halone⟩ := lexeme_alone hl rfl
      dsimp only at htail
      have hafter : (ctx.after ⟨some kind, kind.source⟩).Alike
          ((ctx'.after ⟨some kind, kind.source⟩).after ⟨none, [' ']⟩) :=
        ⟨(halike.after _).openAngles, (halike.after _).listStart⟩
      obtain ⟨tokens', starts', hagain, hkinds⟩ := ih hafter
      obtain ⟨t, later, rfl⟩ := List.exists_cons_of_ne_nil hscan.tokens_ne_nil
      have hjoined : [' '].intercalate
          ((Lexeme.tokens ctx ⟨some kind, kind.source⟩ ++ t :: later).map (·.kind.source)) =
            c :: (tail ++ ' ' :: [' '].intercalate ((t :: later).map (·.kind.source))) := by
        change [' '].intercalate (kind.source :: t.kind.source :: later.map (·.kind.source)) = _
        rw [List.intercalate_cons_cons, htail]
        simp
      have hfound : lexeme ctx' c (tail ++ ' ' :: _) = .ok ⟨some kind, kind.source⟩ :=
        lexeme_append_separated ⟨' ', [' '].intercalate ((t :: later).map (·.kind.source)), rfl,
          Or.inl rfl⟩ (by simp) (lexeme_alike halike halone)
      rw [hjoined]
      refine ⟨_, _, .step hfound ?_ hagain.blank, ?_⟩
      · rw [htail, List.cons_append]
      · rw [List.map_append, List.map_append, hkinds]
        rfl

end Lexer

/-- The texts under the spans of some tokens; `none` if a span cannot be cut out. -/
def cutOut? (text : String) (tokens : List Token) : Option (List String) :=
  tokens.mapM fun t => (Text.slice? text.toList t.span.pos t.span.stop).map String.ofList

/-- All tokens of a text that can be scanned can be cut out of it. -/
theorem cutOut?_lex {file : FileId} {text : String} {lexed : Lexed}
    (h : lex file text = .ok lexed) : cutOut? text lexed.tokens =
      some (lexed.tokens.map fun t => String.ofList t.kind.source) := by
  have hparts (tokens : List Token) (hwritten : ∀ t ∈ tokens,
      Text.slice? text.toList t.span.pos t.span.stop = some t.kind.source) :
      cutOut? text tokens = some (tokens.map fun t => String.ofList t.kind.source) := by
    unfold cutOut?
    induction tokens with
    | nil => rfl
    | cons t tokens ih =>
      rw [List.mapM_cons, hwritten t List.mem_cons_self,
        ih fun t ht => hwritten t (List.mem_cons_of_mem _ ht)]
      rfl
  exact hparts _ ((lex_cut h).written [] rfl)

/-- The texts of the kinds of the tokens of a text, with single blanks between them, are scanned
into tokens of the same kinds. -/
theorem lex_spelled {file : FileId} {text : String} {lexed : Lexed}
    (h : lex file text = .ok lexed) :
    ∃ again, lex file (" ".intercalate (lexed.tokens.map fun t => String.ofList t.kind.source)) =
        .ok again ∧
      again.tokens.map (·.kind) = lexed.tokens.map (·.kind) := by
  obtain ⟨tokens', starts', hscans, hkinds⟩ := (lex_scans h).again (Lexer.Context.Alike.refl _)
  refine ⟨⟨tokens', ⟨starts'⟩⟩, lex_of_scans ?_, hkinds⟩
  rw [String.toList_intercalate, List.map_map]
  simpa [Function.comp_def] using hscans

/-- The texts of the tokens of a text, with single blanks between them, are scanned without errors
into tokens of the same kinds with the same texts. -/
theorem lex_rejoined {file : FileId} {text : String} {lexed : Lexed}
    (h : lex file text = .ok lexed) :
    ∃ parts again, cutOut? text lexed.tokens = some parts ∧
      lex file (" ".intercalate parts) = .ok again ∧
      again.tokens.map (·.kind) = lexed.tokens.map (·.kind) ∧
      cutOut? (" ".intercalate parts) again.tokens = some parts := by
  obtain ⟨again, hlex, hkinds⟩ := lex_spelled h
  have hparts : again.tokens.map (fun t => String.ofList t.kind.source) =
      lexed.tokens.map fun t => String.ofList t.kind.source := by
    have hmapped := congrArg (List.map fun kind => String.ofList (TokenKind.source kind)) hkinds
    rwa [List.map_map, List.map_map] at hmapped
  refine ⟨_, again, cutOut?_lex h, hlex, hkinds, ?_⟩
  rw [cutOut?_lex hlex, hparts]

/-- A lifetime in a list, a string that looks like one, a safe cast and a test whose operator has
a comment behind it. -/
theorem lex_rejoined_lifetime : ∃ lexed again,
    lex ⟨0⟩ "f<'a,'b'>x as? T !is/**/y" = .ok lexed ∧
      lex ⟨0⟩ "f < 'a , 'b' > x as? T !is y " = .ok again ∧
      again.tokens.map (·.kind) = lexed.tokens.map (·.kind) ∧
      cutOut? "f < 'a , 'b' > x as? T !is y " again.tokens =
        some ["f", "<", "'a", ",", "'b'", ">", "x", "as?", "T", "!is", "y", ""] := by
  obtain ⟨lexed, hlex⟩ : ∃ lexed, lex ⟨0⟩ "f<'a,'b'>x as? T !is/**/y" = .ok lexed := ⟨_, rfl⟩
  obtain ⟨parts, again, hparts, hagain, hkinds, hsame⟩ := lex_rejoined hlex
  have hlexed := hlex
  cases hlexed
  obtain rfl : ["f", "<", "'a", ",", "'b'", ">", "x", "as?", "T", "!is", "y", ""] = parts :=
    Option.some.inj (Eq.trans (by decide +kernel) hparts)
  exact ⟨_, again, hlex, hagain, hkinds, hsame⟩

end FrontEnd
