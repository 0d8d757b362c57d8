import FrontEnd.Command.Options
import Mathlib.Data.List.Perm.Basic

/-!
# Writing a command line

A configuration is written as one argument for each of its settings. A setting in front of the
arguments is read without looking at the rest, and what it does to the configuration does not
depend on the other settings. So a configuration is read back from its arguments in any order.
-/

namespace FrontEnd

/-- An inner state that can be printed. -/
inductive InnerState where
  | tokens
  | ast
  | sugg
  | source
  | names
deriving DecidableEq

/-- A word in the list of what is to be printed. -/
inductive PrintWord where
  /-- The word for one state. -/
  | one (state : InnerState)
  /-- The word for all of them. -/
  | all
deriving DecidableEq

/-- Something that an argument can ask for. -/
inductive Setting where
  /-- The path of the file. -/
  | file (path : String)
  /-- The states to print. -/
  | print (words : List PrintWord)
  /-- Where to stop. -/
  | depth (stage : Depth)
  /-- The largest width of diagnostics. -/
  | wrapLen (len : Nat)
  /-- How to write diagnostics. -/
  | format (style : OutputFormat)
  /-- To log what the compiler does. -/
  | dev
deriving DecidableEq

/-- The word for a state. -/
def InnerState.word : InnerState → String
  | tokens => "tokens"
  | ast => "ast"
  | sugg => "sugg"
  | source => "source"
  | names => "names"

namespace PrintWord

/-- How the word is written. -/
def text : PrintWord → String
  | one state => state.word
  | all => "all"

/-- Whether the word asks for a state. -/
def asksFor : PrintWord → InnerState → Bool
  | one state, other => state = other
  | all, _ => true

end PrintWord

namespace PrintSet

/-- Whether a state is printed. -/
def has (set : PrintSet) : InnerState → Bool
  | .tokens => set.tokens
  | .ast => set.ast
  | .sugg => set.sugg
  | .source => set.source
  | .names => set.names

/-- The words ask for these states and for no others. -/
def NamedBy (set : PrintSet) (words : List PrintWord) : Prop :=
  ∀ state, set.has state = words.any (·.asksFor state)

/-- Ask for the states of one more word. -/
def ask (set : PrintSet) : PrintWord → PrintSet
  | .one .tokens => { set with tokens := true }
  | .one .ast => { set with ast := true }
  | .one .sugg => { set with sugg := true }
  | .one .source => { set with source := true }
  | .one .names => { set with names := true }
  | .all => all

/-- Two sets that print the same states are the same. -/
theorem ext_has {set set' : PrintSet} (h : ∀ state, set.has state = set'.has state) :
    set = set' := by
  have htokens := h .tokens
  have hast := h .ast
  have hsugg := h .sugg
  have hsource := h .source
  have hnames := h .names
  cases set
  cases set'
  simp_all only [has]

/-- A word adds what it asks for. -/
theorem has_ask (set : PrintSet) (word : PrintWord) (state : InnerState) :
    (set.ask word).has state = (set.has state || word.asksFor state) := by
  rcases word with word | _ <;> cases state
  all_goals try cases word
  all_goals simp [ask, has, all, PrintWord.asksFor]

/-- Words add what one of them asks for. -/
theorem has_foldl_ask (words : List PrintWord) (set : PrintSet) (state : InnerState) :
    (words.foldl ask set).has state = (set.has state || words.any (·.asksFor state)) := by
  induction words generalizing set with
  | nil => simp
  | cons word words ih => simp [ih, has_ask, Bool.or_assoc]

/-- Words that ask for the states of a set build it up. -/
theorem NamedBy.foldl_ask {set : PrintSet} {words : List PrintWord} (h : set.NamedBy words) :
    words.foldl ask {} = set := by
  refine ext_has fun state => ?_
  have hnone : ({} : PrintSet).has state = false := by cases state <;> rfl
  rw [has_foldl_ask, hnone, Bool.false_or, h state]

/-- A word is understood. -/
theorem add?_text (set : PrintSet) (word : PrintWord) :
    set.add? word.text = some (set.ask word) := by
  rcases word with word | _
  · cases word <;> rfl
  · rfl

end PrintSet

namespace OptionName

/-- How an option with a value is written. -/
def written (option : OptionName) (value : String) : String :=
  "-" ++ option.spelling ++ "=" ++ value

/-- An option is found by its spelling. -/
theorem ofWord?_spelling (option : OptionName) : ofWord? option.spelling = some option := by
  cases option <;> decide

/-- The equals sign separates the spelling from the value. -/
theorem equals_notMem (option : OptionName) : '=' ∉ option.spelling.toList := by
  cases option <;> decide

theorem toList_written (option : OptionName) (value : String) :
    (option.written value).toList = '-' :: (option.spelling.toList ++ '=' :: value.toList) := by
  simp [written]

end OptionName

/-- How a depth is written. -/
def Depth.text : Depth → String
  | parser => "parser"
  | nameResolution => "name-resolution"

/-- How a format is written. -/
def OutputFormat.text : OutputFormat → String
  | human => "human"
  | json => "json"

namespace Setting

/-- The argument for a setting. -/
def text : Setting → String
  | file path => path
  | print words => OptionName.print.written (",".intercalate (words.map (·.text)))
  | depth stage => OptionName.depth.written stage.text
  | wrapLen len => OptionName.wrapLen.written (toString len)
  | format style => OptionName.format.written style.text
  | dev => "--dev"

/-- The configuration with a setting. -/
def apply (config : Config) : Setting → Config
  | file path => { config with file := path }
  | print words => { config with print := words.foldl PrintSet.ask config.print }
  | depth stage => { config with depth := stage }
  | wrapLen len => { config with wrapLen := len }
  | format style => { config with format := style }
  | dev => { config with dev := true }

/-- Whether a setting names the file. -/
def isFile : Setting → Bool
  | file _ => true
  | _ => false

/-- The settings that can be written: paths are no options, the list of what is to be printed is
not empty, and the width is within its bounds. -/
def Writable : Setting → Prop
  | file path => path.toList.head? ≠ some '-'
  | print words => words ≠ []
  | wrapLen len => minWrapLen ≤ len ∧ len < UInt64.size
  | _ => True

end Setting

namespace Config

/-- The settings of a configuration, given the words for what is printed. -/
def settings (config : Config) (words : List PrintWord) : List Setting :=
  [.file config.file, .wrapLen config.wrapLen, .format config.format, .depth config.depth] ++
    (if words = [] then [] else [.print words]) ++ if config.dev then [.dev] else []

/-- One argument for each of the settings. -/
def arguments (config : Config) (words : List PrintWord) : List String :=
  (config.settings words).map (·.text)

end Config

namespace Options

/-- Decimal digits are read for their value. -/
theorem digits?_eq (cs : List Char) (front : Nat) (h : ∀ c ∈ cs, c.isDigit) :
    digits? front cs = some (Nat.ofDigitChars 10 cs front) := by
  induction cs generalizing front with
  | nil => rfl
  | cons c cs ih =>
    rw [digits?, if_pos (h c (by simp)), ih _ fun d hd => h d (by simp [hd]),
      Nat.ofDigitChars_cons]

/-- A number is read back from its digits. -/
theorem number?_toString {n : Nat} (h : n < UInt64.size) :
    number? (toString n).toList = some n := by
  have hdigits : ∀ c ∈ Nat.toDigits 10 n, c.isDigit := fun c hc =>
    Nat.isDigit_of_mem_toDigits (by decide) (by decide) hc
  have hvalue : digits? 0 (Nat.toDigits 10 n) = some n := by
    rw [digits?_eq _ _ hdigits, Nat.ofDigitChars_ten_toDigits]
  rw [Nat.toString_eq_repr, Nat.toList_repr]
  rcases hcs : Nat.toDigits 10 n with _ | ⟨c, cs⟩
  · exact absurd hcs Nat.toDigits_ne_nil
  · rw [hcs] at hdigits hvalue
    -- a digit is no sign
    have hsign : c ≠ '+' := by
      rintro rfl
      exact absurd (hdigits '+' (by simp)) (by decide)
    unfold number?
    split
    · rename_i heq
      exact absurd (List.cons.inj heq).1 hsign
    · simp [hvalue, h]

/-- Pieces are what the library splits at commas. -/
theorem pieces_eq (cs : List Char) : pieces cs = cs.splitOn ',' := by
  induction cs with
  | nil => rfl
  | cons c cs ih =>
    rw [List.splitOn_cons_eq_if_modifyHead, ← ih]
    rcases hpieces : pieces cs with _ | ⟨piece, rest⟩
    · exact absurd (ih.symm.trans hpieces) (List.splitOn_ne_nil ',' cs)
    · by_cases hc : c = ','
      · subst hc
        simp [pieces, hpieces]
      · simp [pieces, hpieces, hc]

/-- Words between commas are the pieces. -/
theorem pieces_intercalate {words : List String} (hne : words ≠ [])
    (h : ∀ word ∈ words, ',' ∉ word.toList) :
    (pieces (",".intercalate words).toList).map String.ofList = words := by
  have hsplit : ([','].intercalate (words.map String.toList)).splitOn ',' =
      words.map String.toList :=
    List.splitOn_intercalate ',' (by simpa using h) (by simpa using hne)
  rw [pieces_eq, String.toList_intercalate, show (",".toList : List Char) = [','] from rfl, hsplit]
  simp

/-- A list of words is understood as a whole. -/
theorem printList_text (words : List PrintWord) (set : PrintSet) :
    printList set (words.map (·.text)) = .ok (words.foldl PrintSet.ask set) := by
  induction words generalizing set with
  | nil => rfl
  | cons word words ih =>
    simp only [List.map_cons, printList, PrintSet.add?_text, ih, List.foldl_cons]

/-- Name and value are separated at the first equals sign. -/
theorem split?_append {name : List Char} (value : List Char) (h : '=' ∉ name) :
    split? (name ++ '=' :: value) = some (name, value) := by
  induction name with
  | nil => rfl
  | cons c cs ih =>
    obtain ⟨hc, hcs⟩ := not_or.1 (mt List.mem_cons.2 h)
    rw [List.cons_append, split?.eq_3 _ _ fun heq => absurd heq.symm hc, ih hcs]
    rfl

/-- The option that is written is set. -/
theorem setFrom_written (config : Config) (option : OptionName) (value : String) :
    setFrom config (option.written value) = set config option value := by
  have hsplit : split? ((option.written value).toList.drop 1) =
      some (option.spelling.toList, value.toList) := by
    rw [option.toList_written, List.drop_succ_cons, List.drop_zero,
      split?_append _ option.equals_notMem]
  unfold setFrom
  rw [hsplit]
  dsimp only
  rw [String.ofList_toList, String.ofList_toList, option.ofWord?_spelling]

/-- Arguments with an equals sign are not taken for switches. -/
theorem parse_written (config : Config) (hasFile : Bool) (option : OptionName) (value : String)
    (args : List String) :
    parse config hasFile (option.written value :: args) =
      set config option value >>= fun config => parse config hasFile args := by
  have hlist := option.toList_written value
  have hne : ∀ switch : String, '=' ∉ switch.toList → option.written value ≠ switch := by
    rintro switch hswitch rfl
    exact hswitch (by simp [hlist])
  rw [parse, if_neg (by rintro (h | h) <;> exact hne _ (by decide) h),
    if_neg (by rintro (h | h) <;> exact hne _ (by decide) h), if_neg (hne _ (by decide)),
    if_pos (by rw [hlist]; rfl), setFrom_written]

/-- A path that is no option names the file. -/
theorem parse_file (config : Config) {path : String} (h : path.toList.head? ≠ some '-')
    (args : List String) :
    parse config false (path :: args) = parse { config with file := path } true args := by
  have hne : ∀ switch : String, switch.toList.head? = some '-' → path ≠ switch := by
    rintro switch hswitch rfl
    exact h hswitch
  rw [parse, if_neg (by rintro (h | h) <;> exact hne _ (by decide) h),
    if_neg (by rintro (h | h) <;> exact hne _ (by decide) h), if_neg (hne _ (by decide)),
    if_neg h, if_neg (by decide)]

/-- **A step.** A setting in front of other arguments is applied, whatever these are. -/
theorem parse_text (config : Config) {hasFile : Bool} {setting : Setting}
    (hwritable : setting.Writable) (hfile : setting.isFile → hasFile = false)
    (args : List String) :
    parse config hasFile (setting.text :: args) =
      parse (setting.apply config) (hasFile || setting.isFile) args := by
  cases setting with
  | file path =>
    obtain rfl := hfile rfl
    exact parse_file config hwritable args
  | print words =>
    have hcomma : ∀ word ∈ words.map (·.text), ',' ∉ word.toList := by
      intro word hword
      obtain ⟨word, -, rfl⟩ := List.mem_map.1 hword
      rcases word with word | _
      · cases word <;> decide
      · decide
    rw [Setting.text, parse_written, set,
      pieces_intercalate (mt List.map_eq_nil_iff.1 hwritable) hcomma, printList_text]
    simp [Setting.apply, Setting.isFile, bind, Except.bind, pure, Except.pure]
  | depth stage =>
    rw [Setting.text, parse_written]
    cases stage <;> simp [set, Depth.text, Setting.apply, Setting.isFile, bind, Except.bind]
  | wrapLen len =>
    rw [Setting.text, parse_written, set, number?_toString hwritable.2]
    simp [Nat.not_lt.2 hwritable.1, Setting.apply, Setting.isFile, bind, Except.bind]
  | format style =>
    rw [Setting.text, parse_written]
    cases style <;> simp [set, OutputFormat.text, Setting.apply, Setting.isFile, bind, Except.bind]
  | dev => simp [parse, Setting.text, Setting.apply, Setting.isFile]

/-- **A run.** Settings of which at most one names the file are applied from left to right. -/
theorem parse_texts (settings : List Setting) (config : Config) (hasFile : Bool)
    (hwritable : ∀ setting ∈ settings, setting.Writable)
    (hfile : settings.countP (·.isFile) + hasFile.toNat ≤ 1) :
    parse config hasFile (settings.map (·.text)) =
      parse (settings.foldl Setting.apply config) (hasFile || settings.any (·.isFile)) [] := by
  induction settings generalizing config hasFile with
  | nil => simp
  | cons setting settings ih =>
    rw [List.countP_cons] at hfile
    have hfirst : setting.isFile → hasFile = false := by
      intro hs
      rw [if_pos hs] at hfile
      exact Bool.toNat_eq_zero.1 (by omega)
    have hrest : settings.countP (·.isFile) + (hasFile || setting.isFile).toNat ≤ 1 := by
      cases hs : setting.isFile with
      | true => simpa [hs, hfirst hs] using hfile
      | false => simpa [hs] using hfile
    rw [List.map_cons, parse_text config (hwritable _ (by simp)) hfirst,
      ih _ _ (fun s hs => hwritable s (by simp [hs])) hrest, List.foldl_cons, List.any_cons,
      Bool.or_assoc]

end Options

namespace Config

variable {config : Config} {words : List PrintWord}

/-- The settings of a configuration have its values. -/
theorem mem_settings {setting : Setting} : setting ∈ config.settings words ↔
    setting = .file config.file ∨ setting = .wrapLen config.wrapLen ∨
    setting = .format config.format ∨ setting = .depth config.depth ∨
    words ≠ [] ∧ setting = .print words ∨ config.dev ∧ setting = .dev := by
  by_cases hwords : words = [] <;> cases hdev : config.dev <;> simp [settings, hwords, hdev]

/-- The settings of one configuration may be applied in either order. -/
theorem apply_comm (other : Config) {first second : Setting}
    (hfirst : first ∈ config.settings words) (hsecond : second ∈ config.settings words) :
    second.apply (first.apply other) = first.apply (second.apply other) := by
  -- two settings of one kind are the same, and different kinds concern different fields
  obtain rfl | rfl | rfl | rfl | ⟨-, rfl⟩ | ⟨-, rfl⟩ := mem_settings.1 hfirst <;>
    obtain rfl | rfl | rfl | rfl | ⟨-, rfl⟩ | ⟨-, rfl⟩ := mem_settings.1 hsecond <;> rfl

/-- The settings of a configuration make it up. -/
theorem foldl_settings (h : config.print.NamedBy words) :
    (config.settings words).foldl Setting.apply { file := "" } = config := by
  have hprint := h.foldl_ask
  have hempty : words = [] → config.print = {} := by
    rintro rfl
    exact hprint.symm
  obtain ⟨file, print, depth, wrapLen, format, dev⟩ := config
  by_cases hwords : words = [] <;> cases dev <;>
    simp_all [settings, Setting.apply]

/-- One setting names the file. -/
theorem countP_settings (config : Config) (words : List PrintWord) :
    (config.settings words).countP (·.isFile) = 1 := by
  by_cases hwords : words = [] <;> cases hdev : config.dev <;>
    simp [settings, hwords, hdev, Setting.isFile]

/-- The settings can be written if the path and the width can. -/
theorem writable_of_mem_settings {setting : Setting} (h : setting ∈ config.settings words)
    (hfile : config.file.toList.head? ≠ some '-') (hmin : minWrapLen ≤ config.wrapLen)
    (hmax : config.wrapLen < UInt64.size) : setting.Writable := by
  obtain rfl | rfl | rfl | rfl | ⟨hwords, rfl⟩ | ⟨-, rfl⟩ := mem_settings.1 h
  exacts [hfile, ⟨hmin, hmax⟩, trivial, trivial, hwords, trivial]

end Config

/-- **A configuration is read back from its arguments in any order.** The arguments are the path,
one for the width, the format and the depth each, one with words for exactly the states to print
unless there are none, and the switch that turns on logging if it is on. -/
theorem parseArgs_arguments {config : Config} {words : List PrintWord} {args : List String}
    (hfile : config.file.toList.head? ≠ some '-') (hmin : minWrapLen ≤ config.wrapLen)
    (hmax : config.wrapLen < UInt64.size) (hprint : config.print.NamedBy words)
    (hargs : args.Perm (config.arguments words)) :
    parseArgs args = .ok (.compile config) := by
  -- the arguments are those of the settings in some order
  obtain ⟨settings, rfl, hperm⟩ : ∃ settings : List Setting, args = settings.map (·.text) ∧
      settings.Perm (config.settings words) := by
    have hcomp := List.eq_map_comp_perm Setting.text
    exact (iff_of_eq (congrFun (congrFun hcomp args) _)).2 hargs
  have hwritable : ∀ setting ∈ settings, setting.Writable := fun setting hmem =>
    Config.writable_of_mem_settings (hperm.mem_iff.1 hmem) hfile hmin hmax
  have hone : settings.countP (·.isFile) = 1 :=
    (hperm.countP_eq _).trans (config.countP_settings words)
  have hany : settings.any (·.isFile) = true := by
    obtain ⟨setting, hmem, hsetting⟩ := List.countP_pos_iff.1 (hone ▸ Nat.one_pos)
    exact List.any_eq_true.2 ⟨setting, hmem, hsetting⟩
  have hmakes : settings.foldl Setting.apply { file := "" } = config := by
    rw [hperm.foldl_eq' fun _ hx _ hy other =>
      Config.apply_comm other (hperm.mem_iff.1 hx) (hperm.mem_iff.1 hy)]
    exact Config.foldl_settings hprint
  have hrun := Options.parse_texts settings { file := "" } false hwritable (by simp [hone])
  rw [hmakes, hany, Options.parse] at hrun
  exact hrun

/-- Two words for states, the largest width of all and the path in the middle. -/
theorem parseArgs_arguments_shuffled :
    parseArgs ["--dev", "-print=names,tokens", "-wrap-len=18446744073709551615", "main.jc",
      "-format=json", "-compile-depth=parser"] =
    .ok (.compile ⟨"main.jc", { tokens := true, names := true }, .parser, 18446744073709551615,
      .json, true⟩) :=
  @parseArgs_arguments _ [.one .names, .one .tokens] _ (by decide) (by decide) (by decide)
    (by intro state; cases state <;> rfl) (by decide +kernel)

end FrontEnd
