import ShiftReduce.Command.Arguments
import ShiftReduce.Command.Generate
import ShiftReduce.Report

/-!
# The program

`main` reads and writes files and prints; what it reads and prints is decided by the commands.
-/

namespace ShiftReduce

/-- The cause of a failed file operation. -/
def fileError (e : IO.Error) : FileError :=
  match e with
  | .noFileOrDirectory .. => .notFound
  | e => .other (toString e)

/-- The text of a file. -/
def readText (file : String) : IO (Except FileError String) := do
  try
    let bytes ← IO.FS.readBinFile file
    return match String.fromUTF8? bytes with
      | some text => .ok text
      | none => .error .notText
  catch e => return .error (fileError e)

/-- A file gets a new text. -/
def writeText (file text : String) : IO (Except FileError Unit) := do
  try
    IO.FS.writeFile file text
    return .ok ()
  catch e => return .error (fileError e)

/-- A failure is printed and gives the exit code 1. -/
def reportFailure (f : Failure) : IO UInt32 := do
  IO.eprint f.report
  return 1

/-- A table is generated and written, and a report printed if one was asked for. -/
def runGenerate (grammar output : String) (name : Option String) (report : Bool) : IO UInt32 := do
  match Generate.construct grammar (← readText grammar) name with
  | .error e => reportFailure e.failure
  | .ok build =>
    match Generate.finish build output (← writeText output build.table.toJson) with
    | .error e => reportFailure e.failure
    | .ok build =>
      if report then IO.print (Report.all build)
      return 0

/-- A parse is stepped through. -/
def runReplay (table input : String) (options : ReplayOptions) : IO UInt32 := do
  let result := Replay.run table (← readText table) input options
  IO.print result.output
  match result.failure with
  | some failure => reportFailure failure
  | none => return 0

end ShiftReduce

/-- The command of the arguments is run. -/
def main (args : List String) : IO UInt32 := do
  match ShiftReduce.Command.parse args with
  | some (.generate grammar output name report) =>
    ShiftReduce.runGenerate grammar output name report
  | some (.replay table input options) => ShiftReduce.runReplay table input options
  | none =>
    IO.eprint ShiftReduce.Command.usage
    return 2
