import ShiftReduce.Json.Decoder
import ShiftReduce.Json.Writer
import ShiftReduce.Tree.Basic

/-!
# Trees as JSON

A tree is an object with the fields `name` and `children`. Reading goes at most 127 arrays and
objects deep.
-/

namespace ShiftReduce

namespace Tree

open Json

mutual

/-- A tree at a level of nesting. -/
def writeAt (style : Style) (level : Nat) : Tree → List Char
  | node n cs =>
    object style level
      [("name", string n),
        ("children", array style (level + 1) (writeForestAt style (level + 2) cs))]

/-- The trees of a forest, each at a level of nesting. -/
def writeForestAt (style : Style) (level : Nat) : List Tree → List (List Char)
  | [] => []
  | t :: ts => writeAt style level t :: writeForestAt style level ts

end

/-- A tree as JSON. -/
def toJson (style : Style) (t : Tree) : String := String.ofList (writeAt style 0 t)

/-- A forest as a JSON array. -/
def forestToJson (style : Style) (ts : List Tree) : String :=
  String.ofList (array style 0 (writeForestAt style 1 ts))

/-- The form of a tree; `child` reads a child where children may be nested that deep. -/
def shape (child : Option (Reader Tree)) : Shape Tree where
  title := "struct AstNode"
  fields := [
    ⟨"name", true, text.map fun n t => node n t.children⟩,
    ⟨"children", false, (list child).map fun cs t => node t.name cs⟩]

/-- A tree with at most `depth` arrays and objects within each other. -/
def reader : Nat → Reader Tree
  | 0 => (shape none).read false (leaf "")
  | 1 => (shape none).read true (leaf "")
  | depth + 2 => (shape (some (reader depth))).read true (leaf "")

/-- The number of arrays and objects that may be nested within each other. -/
def depthLimit : Nat := 127

/-- The tree that a JSON text holds. -/
def ofJson (s : String) : Except Fault Tree := decode (reader depthLimit) s

end Tree

end ShiftReduce
