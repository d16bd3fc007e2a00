import ShiftReduce.Command.Failure
import ShiftReduce.Table.Emission

/-!
# Generating a table

The command reads a grammar file and writes the table of the grammar as JSON. Files are not
touched here: the text of the grammar file comes in, the text of the table goes out, and either may
be an error instead.
-/

namespace ShiftReduce

/-- Why no table was generated. -/
inductive GenerateError where
  | unreadable (file : String) (cause : FileError)
  | badGrammar (file : String) (cause : GrammarError)
  | unwritable (file : String) (cause : TableError)
deriving DecidableEq, Repr

/-- What is reported when no table was generated. -/
def GenerateError.failure : GenerateError → Failure
  | unreadable file cause => ⟨"can't read grammar " ++ Text.quoted file, [cause.message]⟩
  | badGrammar file cause => ⟨"can't load grammar " ++ Text.quoted file, [cause.message]⟩
  | unwritable file cause => cause.failure ("can't write table " ++ Text.quoted file)

namespace Generate

/-- The parts of a path between its slashes, without empty parts and, except in front, parts that
name the directory itself. -/
def pathParts (path : List Char) : List (List Char) :=
  let parts := path.splitOnP (· == '/')
  match parts with
  | [] => []
  | first :: rest =>
    (if first = [] then [] else [first]) ++ rest.filter fun p => p ≠ [] ∧ p ≠ ['.']

/-- The file name that a path ends with, if it ends with one. -/
def fileName? (path : List Char) : Option (List Char) :=
  match (pathParts path).getLast? with
  | some ['.'] => none
  | some ['.', '.'] => none
  | name => name

/-- A file name up to its last dot; all of it if there is no dot but one in front. -/
def stem (name : List Char) : List Char :=
  match name.reverse.dropWhile (· ≠ '.') with
  | _ :: before => if before = [] then name else before.reverse
  | [] => name

/-- The name of the table of a grammar file that is given none. -/
def defaultName (file : String) : Option String :=
  (fileName? file.toList).map fun name => String.ofList (stem name)

/-- The table of a grammar file of which the text, or an error, is known. -/
def construct (file : String) (content : Except FileError String) (name : Option String) :
    Except GenerateError Build :=
  match content with
  | .error e => .error (.unreadable file e)
  | .ok text => (Build.ofText text (name.or (defaultName file))).mapError (.badGrammar file)

/-- The table after it was written to a file, if it could be. -/
def finish (b : Build) (file : String) (writing : Except FileError Unit) :
    Except GenerateError Build :=
  match writing with
  | .error e => .error (.unwritable file (.file e))
  | .ok () => .ok b

end Generate

end ShiftReduce
