import ShiftReduce.Automaton.Item

/-!
# The canonical collection of states

The states of the automaton are the kernels that transitions reach from the start kernel
`S' → . S`. They are numbered in the order in which they are found: states are looked at in order,
and the symbols that a state waits for in the order in which its items name them. A kernel that is
reached twice is one state, so the target of a transition is the place of its kernel in the list.
-/

namespace ShiftReduce

namespace Kernel

/-- The kernel of the start state. -/
def initial : Kernel := {Item.start 0}

/-- The symbols that the items wait for, in the order in which they are first named. -/
def awaited (ps : List Production) (items : List Item) : List Symbol :=
  (items.filterMap (·.next? ps)).eraseDups

/-- The kernels that the transitions of a state lead to. -/
def successors (ps : List Production) (k : Kernel) : List Kernel :=
  let items := k.closure ps
  (awaited ps items).map (advance ps items)

/-- `known` with those kernels of `found` that it lacks put behind it, each once. -/
def discover (known : List Kernel) : List Kernel → List Kernel
  | [] => known
  | k :: found => discover (if known.contains k then known else known ++ [k]) found

/-- The kernels found when the first `next` of the `known` ones have been looked at; each step of
`fuel` looks at one. -/
def explore (ps : List Production) : Nat → Nat → List Kernel → List Kernel
  | 0, _, known => known
  | fuel + 1, next, known =>
    match known[next]? with
    | none => known
    | some k => explore ps fuel (next + 1) (discover known (k.successors ps))

/-- The number of items of a list of productions. -/
def itemCount (ps : List Production) : Nat := ps.foldr (fun p n => p.rhs.length + 1 + n) 0

/-- All kernels that transitions reach from the start kernel; there are no more kernels than sets
of items. -/
def collection (ps : List Production) : List Kernel :=
  explore ps (Nat.pow 2 (itemCount ps)) 0 [initial]

end Kernel

end ShiftReduce
