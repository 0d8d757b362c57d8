import FrontEnd.Command.Options
import FrontEnd.Diagnostic.Layout
import FrontEnd.Diagnostic.Report
import FrontEnd.Dump.Tree
import FrontEnd.Grammar.Module
import FrontEnd.Scope.Resolver
import FrontEnd.Token.Lexer

/-!
# Compiling one file

The stages run one after the other, and the diagnostics of each are written before the next one
starts. An error among them stops the compilation. Dumps, reports and the closing banner go to
the standard output, laid-out diagnostics to the error output.
-/

namespace FrontEnd

/-- The stages of a compilation. -/
inductive Stage where
  | lex
  | parse
  | resolve
deriving DecidableEq, Inhabited

/-- The name of a stage in messages. -/
def Stage.name : Stage → String
  | lex => "Lex"
  | parse => "Parse"
  | resolve => "Resolve"

/-- The name of a stage in reports. -/
def Stage.reportName : Stage → String
  | lex => "lex"
  | parse => "parse"
  | resolve => "resolve"

/-- Why a file cannot be read. -/
inductive ReadError where
  | notFound
  | notDirectory
  | isDirectory
  | invalidUtf8
  /-- Anything else, in the words of the system. -/
  | other (text : String)
deriving DecidableEq, Inhabited

/-- The words of the system for a failed read. -/
def ReadError.text : ReadError → String
  | notFound => "No such file or directory (os error 2)"
  | notDirectory => "Not a directory (os error 20)"
  | isDirectory => "Is a directory (os error 21)"
  | invalidUtf8 => "stream did not contain valid UTF-8"
  | other text => text

/-- Why a compilation failed. -/
inductive Failure where
  | unreadable (path : String) (cause : ReadError)
  /-- A stage reported errors. -/
  | halt (stage : Stage) (errors : Nat)
  | defect (defect : Defect)
deriving DecidableEq, Inhabited

/-- The message of a failure. -/
def Failure.message : Failure → String
  | unreadable path cause => "cannot read `" ++ path ++ "`: " ++ cause.text
  | halt stage _ => stage.name ++ " stopped due to errors above"
  | defect d => d.message

/-- What a compilation has written. -/
structure Output where
  /-- The standard output. -/
  out : String := ""
  /-- The error output. -/
  err : String := ""
deriving DecidableEq, Inhabited

/-- A step of a compilation. What was written before a failure stays. -/
abbrev Compile := EStateM Failure Output

namespace Compilation

/-- Write to the standard output. -/
def write (text : String) : Compile Unit := modify fun o => { o with out := o.out ++ text }

/-- Write to the error output. -/
def writeErr (text : String) : Compile Unit := modify fun o => { o with err := o.err ++ text }

/-- A text in a style between two marks. -/
def framed (color : Bool) (style : Style) (text : String) : String :=
  let mark := Style.dimmed.paint color "==="
  mark ++ " " ++ style.paint color text ++ " " ++ mark

/-- The title of a dump with the number of its entries. -/
def title (color : Bool) (name : String) (count : Nat) : String :=
  framed color .bold (name ++ " (" ++ toString count ++ ")") ++ "\n"

/-- The banner of a stage that ended well. -/
def bannerOk (color : Bool) (stage : Stage) : String :=
  framed color .boldGreen (stage.name ++ " OK")

/-- The banner of a stage that reported errors. -/
def bannerFail (color : Bool) (stage : Stage) (errors : Nat) : String :=
  let count := if errors = 1 then "1 error" else toString errors ++ " errors"
  framed color .boldRed (stage.name ++ " FAILED: " ++ count)

/-- The source text with line numbers. -/
def sourceDump (color : Bool) (text : String) : String :=
  let lines := Layout.lines text
  title color "Source" lines.length
    ++ String.join (lines.zipIdx.map fun (line, i) =>
      Layout.padLeft 4 (toString (i + 1)) ++ " | " ++ line ++ "\n")
    ++ "\n"

/-- The tokens, one a line. -/
def tokenDump (color : Bool) (sources : Sources) (tokens : List Token) : String :=
  title color "Tokens" tokens.length
    ++ String.join (tokens.map fun t =>
      let (line, col) := (sources.lineCol? t.span).getD (0, 0)
      Layout.padLeft 4 (toString line) ++ ":" ++ Layout.padRight 3 (toString (col + 1)) ++ " "
        ++ t.kind.dump.inline ++ "\n")
    ++ "\n"

/-- The syntax tree. -/
def treeDump (color : Bool) (stmts : List Stmt) : String :=
  title color "AST" stmts.length
    ++ String.join (stmts.map fun s => s.dump.block ++ "\n")
    ++ "\n"

/-- The names declared at the top level, types first. -/
def nameDump (color : Bool) (root : Scope) : String :=
  let types := root.sorted .type
  let values := root.sorted .value
  let line (label : String) (entry : String × Binding) : String :=
    "  " ++ Layout.padRight 6 label ++ Layout.padRight 20 entry.1 ++ " "
      ++ entry.2.target.dump.inline ++ "\n"
  title color "Names" (types.length + values.length)
    ++ String.join (types.map (line "type") ++ values.map (line "value"))
    ++ "\n"

/-- The diagnostics as a dump. -/
def diagnosticDump (color : Bool) (ds : List Diagnostic) : String :=
  title color "Suggestions" ds.length ++ (Dump.list (ds.map Diagnostic.dump)).block ++ "\n"

/-- Write the report of a stage and stop if it counts errors. -/
def emitReport (sources : Sources) (stage : Stage) (ds : List Diagnostic) : Compile Unit := do
  write ((Report.report stage.reportName sources ds).text ++ "\n")
  match Diagnostic.errorCount ds with
  | 0 => return
  | errors => throw (.halt stage errors)

/-- Lay out the diagnostics of a stage, if there are any, and stop if one of them is an error. -/
def emitLayout (layout : LayoutConfig) (sources : Sources) (stage : Stage)
    (ds : List Diagnostic) : Compile Unit := do
  if ds.isEmpty then return
  writeErr (Layout.render layout sources ds)
  let errors := Diagnostic.errorCount ds
  if 0 < errors then throw (.halt stage errors)

/-- Write the diagnostics of a stage and stop if one of them is an error. -/
def emit (config : Config) (color : Bool) (sources : Sources) (stage : Stage)
    (ds : List Diagnostic) : Compile Unit := do
  if config.print.sugg then write (diagnosticDump color ds)
  match config.format with
  | .json => emitReport sources stage ds
  | .human => emitLayout ⟨config.wrapLen, color⟩ sources stage ds

/-- Write the banner of a stage that ended well. -/
def finish (config : Config) (color : Bool) (stage : Stage) : Compile Unit := do
  if config.format = .human then write (bannerOk color stage ++ "\n")

/-- Resolve the names of a file. -/
def resolveNames (config : Config) (color : Bool) (sources : Sources) (stmts : List Stmt) :
    Compile Unit := do
  match FrontEnd.resolve stmts with
  | .error d => throw (.defect d)
  | .ok resolved =>
    emit config color sources .resolve resolved.diagnostics
    if config.print.names then write (nameDump color resolved.root)
    finish config color .resolve

/-- Read the tokens of a file, and go on to its names unless that is all. -/
def readTokens (config : Config) (color : Bool) (sources : Sources) (file : FileId)
    (tokens : List Token) : Compile Unit := do
  if config.print.tokens then write (tokenDump color sources tokens)
  match FrontEnd.parse file tokens with
  | .error abort =>
    emit config color sources .parse abort.diagnostics
    throw (.halt .parse (max (Diagnostic.errorCount abort.diagnostics) 1))
  | .ok parsed =>
    emit config color sources .parse parsed.diagnostics
    if config.print.ast then write (treeDump color parsed.stmts)
    match config.depth with
    | .parser => finish config color .parse
    | .nameResolution => resolveNames config color sources parsed.stmts

/-- Compile a text that was read from a file. -/
def run (config : Config) (color : Bool) (text : String) : Compile Unit := do
  if config.print.source then write (sourceDump color text)
  let file : FileId := ⟨0⟩
  let sources := Sources.single config.file text
  match lex file text with
  | .error e =>
    emit config color (sources (.scan text)) .lex [e.toDiagnostic]
    throw (.halt .lex 1)
  | .ok lexed => readTokens config color (sources lexed.lines) file lexed.tokens

end Compilation

/-- Compile a file, given what reading it gave. -/
def compile (config : Config) (color : Bool) (content : Except ReadError String) : Compile Unit :=
  match content with
  | .ok text => Compilation.run config color text
  | .error cause => throw (.unreadable config.file cause)

end FrontEnd
