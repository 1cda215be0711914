import Reckon.CommandLine.Run

/-!
# The command line program
-/

namespace Reckon.CommandLine

/-- What the program says about its use. -/
def usage : String :=
  "Usage: [--file] [--param NAME=VALUE]... [--describe] [--precedence lower|higher] EXPRESSION\n" ++
  "       --functions"

/-- The contents of a file, or why it cannot be read. -/
def fileContents (path : String) : IO (Except String String) := do
  try
    return .ok (← IO.FS.readFile path)
  catch
    | .noFileOrDirectory .. => return .error noSuchFile
    | failure => return .error failure.toString

/-- Run the program on its arguments; failures go to standard error. -/
def execute (texts : List String) : IO UInt32 := do
  match Arguments.read texts with
  | .error .displayHelp =>
    IO.println usage
    return 0
  | .error .displayVersion =>
    IO.println "0.1.0"
    return 0
  | .error _ =>
    IO.eprintln usage
    return 2
  | .ok arguments =>
    let contents ←
      if arguments.file then fileContents (arguments.expression.getD "") else pure (.ok "")
    let seed ← IO.rand 0 0xFFFFFFFFFFFFFFFF
    match run arguments (fun _ => contents) (Draws.ofSeed (UInt64.ofNat seed)) with
    | .ok output =>
      IO.print output
      return 0
    | .error message =>
      IO.eprintln message
      return 1

end Reckon.CommandLine

/-- The command line program. -/
def main (texts : List String) : IO UInt32 :=
  Reckon.CommandLine.execute texts
