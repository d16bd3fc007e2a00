import ShiftReduce.Grammar.Reader
import ShiftReduce.Table.Layout

/-!
# Failures of commands

A command that fails prints a message and, behind it, what caused the failure, outermost cause
first.
-/

namespace ShiftReduce

/-- What a command reports when it fails. -/
structure Failure where
  message : String
  /-- What caused the failure, outermost first. -/
  causes : List String
deriving DecidableEq, Repr

namespace Failure

/-- A failure without a cause of its own. -/
def plain (message : String) : Failure := ⟨message, []⟩

/-- The message with its causes behind it. -/
def chain (f : Failure) : List String := f.message :: f.causes

/-- The failure as it is printed; several causes are numbered. -/
def report (f : Failure) : String :=
  "Error: " ++ f.message ++ "\n" ++
    match f.causes with
    | [] => ""
    | [cause] => "\nCaused by:\n    " ++ cause ++ "\n"
    | causes => "\nCaused by:\n" ++
      String.join (causes.mapIdx fun i cause => "    " ++ i.repr ++ ": " ++ cause ++ "\n")

end Failure

/-- Why a file cannot be read or written. -/
inductive FileError where
  | notFound
  /-- The bytes of the file are not the UTF-8 form of a text. -/
  | notText
  | other (text : String)
deriving DecidableEq, Repr

/-- The error in words. -/
def FileError.message : FileError → String
  | notFound => "No such file or directory (os error 2)"
  | notText => "stream did not contain valid UTF-8"
  | other text => text

/-- What went wrong in a JSON text, in words. -/
def Json.Fault.message : Json.Fault → String
  | truncated => "the text ends too early"
  | malformed => "the text is malformed"
  | mismatch message => message

/-- Why a table cannot be loaded or saved. -/
inductive TableError where
  | file (cause : FileError)
  | json (fault : Json.Fault)
deriving DecidableEq, Repr

namespace TableError

/-- The cause in words. -/
def cause : TableError → String
  | file cause => cause.message
  | json fault => fault.message

/-- The error in words. -/
def message (e : TableError) : String :=
  match e with
  | file _ => "io error: " ++ e.cause
  | json _ => "json error: " ++ e.cause

/-- The failure that the error causes. -/
def failure (message : String) (e : TableError) : Failure := ⟨message, [e.message, e.cause]⟩

end TableError

/-- The table in a file of which the text, or an error, is known. -/
def Table.load (content : Except FileError String) : Except TableError Table :=
  match content with
  | .error e => .error (.file e)
  | .ok text => (Table.ofJson text).mapError .json

end ShiftReduce
