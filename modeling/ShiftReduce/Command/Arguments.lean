import ShiftReduce.Command.Replay

/-!
# Command lines

There are two commands. `generate` takes a grammar file and the file to write the table to, and may
be given a name for the table and asked for a report. `replay` takes a table file and an input, and
may be told where to stop, how far to go back and to print JSON.
-/

namespace ShiftReduce

/-- A command with its arguments. -/
inductive Command where
  | generate (grammar output : String) (name : Option String) (report : Bool)
  | replay (table input : String) (options : ReplayOptions)
deriving DecidableEq, Repr

namespace Command

/-- How the commands are called. -/
def usage : String :=
  "usage: generate -g GRAMMAR -o OUTPUT [-n NAME] [-r]\n" ++
  "       replay -t TABLE -i INPUT [-s STEPS] [-b BACK] [--json]\n"

/-- The value behind one of the names of an option, and the arguments without both. -/
def takeValue (names : List String) : List String → Option String × List String
  | [] => (none, [])
  | [arg] => (none, [arg])
  | arg :: value :: rest =>
    if names.contains arg then (some value, rest)
    else
      let (found, left) := takeValue names (value :: rest)
      (found, arg :: left)

/-- One of the names of a switch stands among the arguments, and the arguments without it. -/
def takeSwitch (names : List String) (args : List String) : Bool × List String :=
  (args.any names.contains, args.filter (!names.contains ·))

/-- The arguments of `generate`. -/
def parseGenerate (args : List String) : Option Command := do
  let (grammar, args) := takeValue ["-g", "--grammar"] args
  let (output, args) := takeValue ["-o", "--output"] args
  let (name, args) := takeValue ["-n", "--name"] args
  let (report, args) := takeSwitch ["-r", "--report"] args
  if args.isEmpty then some (generate (← grammar) (← output) name report) else none

/-- The arguments of `replay`. -/
def parseReplay (args : List String) : Option Command := do
  let (table, args) := takeValue ["-t", "--table"] args
  let (input, args) := takeValue ["-i", "--input"] args
  let (steps, args) := takeValue ["-s", "--steps"] args
  let (back, args) := takeValue ["-b", "--back"] args
  let (asJson, args) := takeSwitch ["--json"] args
  let steps ← match steps with
    | none => some none
    | some s => (Text.readNumber s.toList).map some
  let back ← Text.readNumber (back.getD "0").toList
  if args.isEmpty then some (replay (← table) (← input) ⟨steps, back, asJson⟩) else none

/-- The command that a list of arguments calls for. -/
def parse : List String → Option Command
  | "generate" :: args => parseGenerate args
  | "replay" :: args => parseReplay args
  | _ => none

end Command

end ShiftReduce
