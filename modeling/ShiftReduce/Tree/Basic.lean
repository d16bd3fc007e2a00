/-!
# Syntax trees

A tree is a named node with its children from left to right. Leaves are the terminals that a
parser shifted; an inner node is a reduction and carries the left-hand side of its rule. A node for
an empty rule has no children either and counts as a leaf.

The measures are mutual recursions over a tree and a list of trees (a forest).
-/

namespace ShiftReduce

/-- A syntax tree. -/
inductive Tree where
  | node (name : String) (children : List Tree)

/-- The room that a tree takes when it is drawn, in nodes. -/
@[ext] structure Extent where
  width : Nat
  height : Nat
deriving DecidableEq, Repr

namespace Tree

instance : Inhabited Tree := ⟨node "" []⟩

/-- A node without children. -/
def leaf (name : String) : Tree := node name []

/-- The name of the root. -/
def name : Tree → String
  | node name _ => name

/-- The children of the root. -/
def children : Tree → List Tree
  | node _ children => children

/-- The root has no children. -/
def isLeaf (t : Tree) : Bool := t.children.isEmpty

mutual

/-- Equality of two trees. -/
def same : Tree → Tree → Bool
  | node n cs, node m ds => n == m && sameForest cs ds

/-- Equality of two forests. -/
def sameForest : List Tree → List Tree → Bool
  | [], [] => true
  | t :: ts, u :: us => same t u && sameForest ts us
  | _, _ => false

end

mutual

/-- The test for equality of two trees is exact. -/
theorem same_iff : ∀ {t u : Tree}, same t u = true ↔ t = u
  | node n cs, node m ds => by
    rw [same, Bool.and_eq_true, beq_iff_eq, sameForest_iff, node.injEq]

/-- The test for equality of two forests is exact. -/
theorem sameForest_iff : ∀ {ts us : List Tree}, sameForest ts us = true ↔ ts = us
  | [], [] => by simp [sameForest]
  | [], _ :: _ => by simp [sameForest]
  | _ :: _, [] => by simp [sameForest]
  | t :: ts, u :: us => by
    rw [sameForest, Bool.and_eq_true, same_iff, sameForest_iff, List.cons.injEq]

end

instance : DecidableEq Tree := fun t u => decidable_of_iff (same t u = true) same_iff

/-! ## Measures -/

mutual

/-- The number of levels of a tree. -/
def depth : Tree → Nat
  | node _ cs => 1 + forestDepth cs

/-- The number of levels of the deepest tree of a forest. -/
def forestDepth : List Tree → Nat
  | [] => 0
  | t :: ts => max (depth t) (forestDepth ts)

end

mutual

/-- The names of the leaves from left to right. -/
def leaves : Tree → List String
  | node n [] => [n]
  | node _ (c :: cs) => leaves c ++ forestLeaves cs

/-- The names of the leaves of a forest from left to right. -/
def forestLeaves : List Tree → List String
  | [] => []
  | t :: ts => leaves t ++ forestLeaves ts

end

mutual

/-- A tree is as wide as its children together, at least one node, and one level higher than the
highest child. -/
def extent : Tree → Extent
  | node _ cs => ⟨max 1 (forestExtent cs).width, (forestExtent cs).height + 1⟩

/-- The trees of a forest stand side by side. -/
def forestExtent : List Tree → Extent
  | [] => ⟨0, 0⟩
  | t :: ts =>
    ⟨(extent t).width + (forestExtent ts).width, max (extent t).height (forestExtent ts).height⟩

end

/-! ## Printing -/

mutual

/-- The lines of a tree, one node a line, two more spaces in front for each level. -/
def displayAt (level : Nat) : Tree → List Char
  | node n cs =>
    List.replicate (2 * level) ' ' ++ n.toList ++ '\n' :: displayForestAt (level + 1) cs

/-- The lines of the trees of a forest behind each other. -/
def displayForestAt (level : Nat) : List Tree → List Char
  | [] => []
  | t :: ts => displayAt level t ++ displayForestAt level ts

end

/-- The tree as an indented list of its nodes. -/
def display (t : Tree) : String := String.ofList (displayAt 0 t)

/-- The trees of a forest as indented lists of their nodes. -/
def displayForest (ts : List Tree) : String := String.ofList (displayForestAt 0 ts)

end Tree

end ShiftReduce
