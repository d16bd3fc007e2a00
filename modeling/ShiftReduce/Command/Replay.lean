import ShiftReduce.Command.Failure
import ShiftReduce.Engine.Session
import ShiftReduce.Tokenizer
import ShiftReduce.Tree.Layout

/-!
# Stepping through a parse

The command parses an input with a table and prints the stack after every instruction. It can stop
after some instructions and go back some of them, and prints the trees that are left.
-/

namespace ShiftReduce

/-- What the command is asked to do. -/
structure ReplayOptions where
  /-- The greatest number of instructions. -/
  steps : Option Nat
  /-- The number of instructions to undo. -/
  back : Nat
  /-- The trees are printed as JSON. -/
  asJson : Bool
deriving DecidableEq, Repr

/-- What a command printed, and its failure if it failed. -/
structure CommandResult where
  output : String
  failure : Option Failure
deriving DecidableEq, Repr

namespace Replay

/-- The text after blanks that make it at least so wide. -/
def alignRight (width : Nat) (s : String) : String :=
  String.ofList (List.replicate (width - s.length) ' ') ++ s

/-- The text before blanks that make it at least so wide. -/
def alignLeft (width : Nat) (s : String) : String :=
  s ++ String.ofList (List.replicate (width - s.length) ' ')

/-- The line for an instruction: the number of instructions, its name and the stack after it. -/
def line (count : Nat) (label : String) (c : Context) : String :=
  alignRight 4 count.repr ++ "  " ++ alignLeft 8 label ++ " " ++ c.dumpStack ++ "\n"

/-- The line for an instruction of a session. -/
def sessionLine (count : Nat) (label : String) (s : Session) : String :=
  (s.context.map (line count label)).getD ""

/-- At most `limit` instructions: their lines, and their number and the session after them or the
error that ended them. -/
def advance : Nat → Nat → Session → String × Except ParseError (Nat × Session)
  | 0, count, s => ("", .ok (count, s))
  | limit + 1, count, s =>
    if s.isFinished then ("", .ok (count, s))
    else
      match s.forward with
      | (.error e, _) => ("", .error e)
      | (.ok action, s) =>
        let (lines, result) := advance limit (count + 1) s
        (sessionLine (count + 1) action.display s ++ lines, result)

/-- At most `limit` instructions undone: their lines, and the number of those that are left and the
session after them or the error that ended them. -/
def retreat : Nat → Nat → Session → String × Except ParseError (Nat × Session)
  | 0, count, s => ("", .ok (count, s))
  | limit + 1, count, s =>
    match s.back with
    | (.error e, _) => ("", .error e)
    | (.ok false, s) => ("", .ok (count, s))
    | (.ok true, s) =>
      let (lines, result) := retreat limit (count - 1) s
      (sessionLine (count - 1) "back" s ++ lines, result)

/-- The terminals with the end marker behind them, unless they end with it. -/
def closeInput (tokens : List String) : List String :=
  if tokens.getLast? = some endMarker then tokens else tokens ++ [endMarker]

/-- The trees that are left. -/
def forestText (asJson : Bool) (c : Context) : String :=
  if asJson then Tree.forestToJson .indented c.forest ++ "\n" else Tree.displayForest c.forest

/-- The number of instructions that stands for no limit. -/
def noLimit : Nat := numberBound - 1

/-- The terminals of the input, or the failure before the first instruction. -/
def prepare (file : String) (content : Except FileError String) (input : String) :
    Except Failure (Table × List String) :=
  match Table.load content with
  | .error e => .error (e.failure ("can't load table " ++ Text.quoted file))
  | .ok table =>
    match (Tokenizer.ofTerminals table.terminals).tokenize input with
    | .error e => .error (.plain e.message)
    | .ok tokens => .ok (table, closeInput tokens)

/-- The command for a table file of which the text, or an error, is known. -/
def run (file : String) (content : Except FileError String) (input : String)
    (options : ReplayOptions) : CommandResult :=
  match prepare file content input with
  | .error failure => ⟨"", some failure⟩
  | .ok (table, tokens) =>
    match advance (options.steps.getD noLimit) 0 ((Session.new table).start tokens) with
    | (lines, .error e) => ⟨lines, some (.plain e.message)⟩
    | (lines, .ok (count, s)) =>
      match retreat options.back count s with
      | (undone, .error e) => ⟨lines ++ undone, some (.plain e.message)⟩
      | (undone, .ok (_, s)) =>
        let trees := (s.context.map (forestText options.asJson)).getD ""
        ⟨lines ++ undone ++ trees, none⟩

end Replay

end ShiftReduce
