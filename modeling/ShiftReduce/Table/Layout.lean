import ShiftReduce.Json.Decoder
import ShiftReduce.Json.Writer
import ShiftReduce.Table.Basic

/-!
# Tables as JSON

A table is exchanged as an indented JSON object. Its name is left out if it has none. A rule is an
object with the fields `match`, its right-hand side, and `result`, its left-hand side; a row has
the fields `actions` and `goto`.
-/

namespace ShiftReduce

open Json

/-! ## Writing -/

/-- A list of strings at a level of nesting. -/
def writeNames (level : Nat) (names : List String) : List Char :=
  array .indented level (names.map string)

/-- A rule at a level of nesting. -/
def Rule.write (level : Nat) (r : Rule) : List Char :=
  object .indented level [("match", writeNames (level + 1) r.rhs), ("result", string r.lhs)]

/-- A row at a level of nesting. -/
def Row.write (level : Nat) (r : Row) : List Char :=
  object .indented level [
    ("actions", object .indented (level + 1)
      (r.actions.entries.map fun (t, a) => (t, string a.display))),
    ("goto", object .indented (level + 1) (r.goto.entries.map fun (n, q) => (n, number q)))]

/-- The fields of a table, its name only if it has one. -/
def Table.writeFields (t : Table) : List (String × List Char) :=
  (t.name.map fun n => ("name", string n)).toList ++ [
    ("terminals", writeNames 1 t.terminals),
    ("nonterminals", writeNames 1 t.nonterminals),
    ("rules", array .indented 1 (t.rules.map (Rule.write 2))),
    ("states", array .indented 1 (t.states.map (Row.write 2)))]

/-- The table as JSON. -/
def Table.toJson (t : Table) : String := String.ofList (object .indented 0 t.writeFields)

/-! ## Reading -/

/-- A list of strings. -/
def readNames : Reader (List String) := list (some text)

/-- An action in its written form. -/
def readAction : Reader Action := fun cs => do
  let (s, rest) ← text cs
  match Action.read s with
  | some a => .ok (a, rest)
  | none => .error (.mismatch (badAction s))

/-- The form of a rule. -/
def Rule.shape : Shape Rule where
  title := "struct Rule"
  fields := [
    ⟨"match", true, readNames.map fun ss r => { r with rhs := ss }⟩,
    ⟨"result", true, text.map fun s r => { r with lhs := s }⟩]

/-- A rule. -/
def Rule.reader : Reader Rule := Rule.shape.read true ⟨[], ""⟩

/-- The form of a row. -/
def Row.shape : Shape Row where
  title := "struct State"
  fields := [
    ⟨"actions", false, (Json.map readAction).map fun m r => { r with actions := m }⟩,
    ⟨"goto", false, (Json.map natural).map fun m r => { r with goto := m }⟩]

/-- A row. -/
def Row.reader : Reader Row := Row.shape.read true ⟨∅, ∅⟩

/-- The form of a table. -/
def Table.shape : Shape Table where
  title := "struct ParserTable"
  fields := [
    ⟨"name", false, optionalText.map fun n t => { t with name := n }⟩,
    ⟨"terminals", false, readNames.map fun ss t => { t with terminals := ss }⟩,
    ⟨"nonterminals", false, readNames.map fun ss t => { t with nonterminals := ss }⟩,
    ⟨"rules", true, (list (some Rule.reader)).map fun rs t => { t with rules := rs }⟩,
    ⟨"states", true, (list (some Row.reader)).map fun rs t => { t with states := rs }⟩]

/-- A table. -/
def Table.reader : Reader Table := Table.shape.read true ⟨none, [], [], [], []⟩

/-- The table that a JSON text holds. -/
def Table.ofJson (s : String) : Except Fault Table := decode Table.reader s

end ShiftReduce
