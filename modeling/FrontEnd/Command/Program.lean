import FrontEnd.Command.Compilation

/-!
# The program as a whole

What the program writes and how it exits, given its arguments and the content of the file they
name.
-/

namespace FrontEnd

/-- What a run of the program leaves behind. -/
structure Exit where
  /-- The exit code. -/
  code : Nat
  /-- The standard output. -/
  out : String
  /-- The error output. -/
  err : String
deriving DecidableEq, Inhabited

namespace Program

/-- The version of the program. -/
def version : String := "0.1.0"

/-- The help text. -/
def usage (color : Bool) : String :=
  let heading := Style.boldYellow.paint color
  let arg := Style.cyan.paint color
  let option (name text : String) : String := "  " ++ arg name ++ "  " ++ text ++ "\n"
  Style.bold.paint color "jacy" ++ " " ++ Style.dimmed.paint color version
    ++ " - Jacy language front end\n\n"
    ++ heading "Usage" ++ ": " ++ Style.green.paint color "jacy" ++ " " ++ arg "[options]" ++ " "
    ++ arg "<file>" ++ "\n\n"
    ++ heading "Options:" ++ "\n"
    ++ option "-print=<list>" "Dump intermediate state: tokens, ast, sugg, source, names, all"
    ++ option "-compile-depth=<stage>" "Stop after `parser` or `name-resolution` (default)"
    ++ option "-wrap-len=<n>" "Wrap diagnostics at N columns (default 120)"
    ++ option "-format=<fmt>" "Diagnostics as `human` (default) or `json`"
    ++ option "--dev" "Verbose compiler logging"
    ++ option "--help" "Show this help"
    ++ option "--version" "Show version"
    ++ "\n"
    ++ heading "Environment:" ++ "\n"
    ++ option "JACY_LOG" "Log filter, e.g. `jacy_parser=debug`"
    ++ option "NO_COLOR, FORCE_COLOR" "Disable / force colored output"

/-- An error message with its label. -/
def errorLine (color : Bool) (message : String) : String :=
  Style.boldRed.paint color "error" ++ ": " ++ message ++ "\n"

/-- What remains of a compilation. A halt needs no message of its own besides the banner. -/
def exitOf (config : Config) (color : Bool) : EStateM.Result Failure Output Unit → Exit
  | .ok _ o => ⟨0, o.out, o.err⟩
  | .error (.halt stage errors) o =>
    let banner := match config.format with
      | .human => Compilation.bannerFail color stage errors ++ "\n"
      | .json => ""
    ⟨1, o.out, o.err ++ banner⟩
  | .error failure o => ⟨1, o.out, o.err ++ errorLine color failure.message⟩

/-- Run the program. The content is what reading the file gave, if the command line names one. -/
def run (color : Bool) (command : Except OptionError Command) (content : Except ReadError String) :
    Exit :=
  match command with
  | .error e => ⟨2, "", errorLine color e.message ++ "Run `jacy --help` for usage.\n"⟩
  | .ok .help => ⟨0, usage color, ""⟩
  | .ok .version => ⟨0, "jacy " ++ version ++ "\n", ""⟩
  | .ok (.compile config) => exitOf config color (compile config color content {})

/-- Whether to use colours: forbidding them wins over forcing them. -/
def wantsColor (forbidden forced terminal : Bool) : Bool := !forbidden && (forced || terminal)

end Program

end FrontEnd
