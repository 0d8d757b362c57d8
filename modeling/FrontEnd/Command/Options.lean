/-!
# Command line options

Options are written `-name=value`; `--dev`, `--help` and `--version` stand alone. The first
problem from the left decides, and of several values of an option the last one counts.
-/

namespace FrontEnd

/-- The inner states that are to be printed. -/
structure PrintSet where
  /-- The tokens. -/
  tokens : Bool := false
  /-- The syntax tree. -/
  ast : Bool := false
  /-- The diagnostics of each stage. -/
  sugg : Bool := false
  /-- The source text. -/
  source : Bool := false
  /-- The names declared at the top level. -/
  names : Bool := false
deriving DecidableEq, Inhabited

/-- The last stage to run. -/
inductive Depth where
  | parser
  | nameResolution
deriving DecidableEq, Inhabited

/-- How diagnostics are written. -/
inductive OutputFormat where
  | human
  | json
deriving DecidableEq, Inhabited

/-- The smallest width that can be asked for. -/
def minWrapLen : Nat := 40

/-- The width when none is asked for. -/
def defaultWrapLen : Nat := 120

/-- What a compilation is asked to do. -/
structure Config where
  /-- Path of the file. -/
  file : String
  /-- What to print on the way. -/
  print : PrintSet := {}
  /-- Where to stop. -/
  depth : Depth := .nameResolution
  /-- The largest width of diagnostics. -/
  wrapLen : Nat := defaultWrapLen
  /-- How to write diagnostics. -/
  format : OutputFormat := .human
  /-- Whether to log what the compiler does. -/
  dev : Bool := false
deriving DecidableEq, Inhabited

/-- What a command line asks for. -/
inductive Command where
  | compile (config : Config)
  | help
  | version
deriving DecidableEq, Inhabited

/-- The options that take a value. -/
inductive OptionName where
  | print
  | depth
  | wrapLen
  | format
deriving DecidableEq, Inhabited

namespace OptionName

/-- How the option is written. -/
def spelling : OptionName → String
  | print => "print"
  | depth => "compile-depth"
  | wrapLen => "wrap-len"
  | format => "format"

/-- The values the option takes. -/
def expected : OptionName → String
  | print => "tokens, ast, sugg, source, names or all"
  | depth => "parser or name-resolution"
  | wrapLen => "a number"
  | format => "human or json"

/-- The option a word names. -/
def ofWord? (word : String) : Option OptionName :=
  [print, depth, wrapLen, format].find? (·.spelling = word)

end OptionName

/-- What can be wrong with a command line. -/
inductive OptionError where
  | unknownOption (arg : String)
  | invalidValue (option : OptionName) (value : String)
  | wrapTooSmall (len : Nat)
  | missingFile
  | extraArgument (arg : String)
deriving DecidableEq, Inhabited

/-- The error message. -/
def OptionError.message : OptionError → String
  | unknownOption arg => "unknown option `" ++ arg ++ "`"
  | invalidValue option value =>
    "invalid value `" ++ value ++ "` for `-" ++ option.spelling ++ "`, expected " ++ option.expected
  | wrapTooSmall len =>
    "`-wrap-len` must be at least " ++ toString minWrapLen ++ ", got " ++ toString len
  | missingFile => "no input file"
  | extraArgument arg => "unexpected argument `" ++ arg ++ "`, only one input file is supported"

namespace PrintSet

/-- Everything. -/
def all : PrintSet := ⟨true, true, true, true, true⟩

/-- Ask for one more state by its name. -/
def add? (set : PrintSet) (name : String) : Option PrintSet :=
  match name with
  | "tokens" => some { set with tokens := true }
  | "ast" => some { set with ast := true }
  | "sugg" => some { set with sugg := true }
  | "source" => some { set with source := true }
  | "names" => some { set with names := true }
  | "all" => some all
  | _ => none

end PrintSet

namespace Options

/-- The pieces of a text between commas, at least one. -/
def pieces : List Char → List (List Char)
  | [] => [[]]
  | c :: cs =>
    match c, pieces cs with
    | ',', rest => [] :: rest
    | c, piece :: rest => (c :: piece) :: rest
    | c, [] => [[c]]

/-- Ask for all states named in a list. -/
def printList (set : PrintSet) : List String → Except OptionError PrintSet
  | [] => .ok set
  | name :: names =>
    match set.add? name with
    | some set => printList set names
    | none => .error (.invalidValue .print name)

/-- The value of some decimal digits, most significant first, after a front part of some value. -/
def digits? (front : Nat) : List Char → Option Nat
  | [] => some front
  | c :: cs => if c.isDigit then digits? (10 * front + (c.toNat - '0'.toNat)) cs else none

/-- A number below 2^64 in decimal digits, at least one, perhaps with a plus sign. -/
def number? (text : List Char) : Option Nat :=
  let digits := match text with
    | '+' :: rest => rest
    | _ => text
  match digits with
  | [] => none
  | _ => (digits? 0 digits).filter (· < UInt64.size)

/-- The name and value of an option, given the text after its dash. -/
def split? : List Char → Option (List Char × List Char)
  | [] => none
  | '=' :: value => some ([], value)
  | c :: cs => (split? cs).map fun (name, value) => (c :: name, value)

/-- Set an option. -/
def set (config : Config) (option : OptionName) (value : String) : Except OptionError Config :=
  match option with
  | .print => do
    let print ← printList config.print ((pieces value.toList).map String.ofList)
    return { config with print := print }
  | .depth =>
    match value with
    | "parser" => .ok { config with depth := .parser }
    | "name-resolution" => .ok { config with depth := .nameResolution }
    | _ => .error (.invalidValue .depth value)
  | .wrapLen =>
    match number? value.toList with
    | some len =>
      if len < minWrapLen then .error (.wrapTooSmall len) else .ok { config with wrapLen := len }
    | none => .error (.invalidValue .wrapLen value)
  | .format =>
    match value with
    | "human" => .ok { config with format := .human }
    | "json" => .ok { config with format := .json }
    | _ => .error (.invalidValue .format value)

/-- Set the option that an argument with a dash names. -/
def setFrom (config : Config) (arg : String) : Except OptionError Config :=
  match split? (arg.toList.drop 1) with
  | none => .error (.unknownOption arg)
  | some (name, value) =>
    match OptionName.ofWord? (String.ofList name) with
    | some option => set config option (String.ofList value)
    | none => .error (.unknownOption arg)

/-- Read arguments from the left, given whether the file has been named. -/
def parse (config : Config) (hasFile : Bool) : List String → Except OptionError Command
  | [] => if hasFile then .ok (.compile config) else .error .missingFile
  | arg :: args =>
    if arg = "--help" ∨ arg = "-h" then .ok .help
    else if arg = "--version" ∨ arg = "-V" then .ok .version
    else if arg = "--dev" then parse { config with dev := true } hasFile args
    else if arg.toList.head? = some '-' then do
      let config ← setFrom config arg
      parse config hasFile args
    else if hasFile then .error (.extraArgument arg)
    else parse { config with file := arg } true args

end Options

/-- Read the arguments of a command line. -/
def parseArgs (args : List String) : Except OptionError Command :=
  Options.parse { file := "" } false args

end FrontEnd
