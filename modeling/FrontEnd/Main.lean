import FrontEnd.Command.Program

/-!
# The command line program

Reads the arguments, the environment and the file, and writes what the program answers.
-/

namespace FrontEnd

/-- Why a read failed, from what the system says. A directory can be opened but not read. -/
def readErrorOf : IO.Error → ReadError
  | .noFileOrDirectory .. => .notFound
  | .inappropriateType _ 21 _ => .isDirectory
  | .inappropriateType .. => .notDirectory
  | .permissionDenied .. => .other "Permission denied (os error 13)"
  | e => .other (toString e)

/-- Read a file as text. -/
def readSource (path : String) : IO (Except ReadError String) := do
  try
    let bytes ← IO.FS.readBinFile path
    match String.fromUTF8? bytes with
    | some text => return .ok text
    | none => return .error .invalidUtf8
  catch e => return .error (readErrorOf e)

end FrontEnd

open FrontEnd in
/-- Run the program on its arguments. -/
def main (args : List String) : IO UInt32 := do
  let command := parseArgs args
  let content ← match command with
    | .ok (.compile config) => readSource config.file
    | _ => pure (.error .notFound)
  let forbidden := (← IO.getEnv "NO_COLOR").isSome
  let forced := (← IO.getEnv "FORCE_COLOR").isSome
  let output ← IO.getStdout
  let color := Program.wantsColor forbidden forced (← output.isTty)
  let result := Program.run color command content
  output.putStr result.out
  (← IO.getStderr).putStr result.err
  return result.code.toUInt32
