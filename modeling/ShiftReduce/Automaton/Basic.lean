import ShiftReduce.Automaton.Collection
import ShiftReduce.Sets
import ShiftReduce.Table.Action

/-!
# The automaton and its actions

Each state of the canonical collection gets a row of actions. A dot before a terminal asks for a
shift, the complete start production asks for acceptance at the end marker, and any other complete
production asks for a reduction at every terminal that can follow its left-hand side. Requests are
taken in the order of the items; the first one for a terminal stands, and a later one that differs
from it is a conflict. A dot before a nonterminal puts the target of the transition on it into the
row, also in the order of the items.
-/

namespace ShiftReduce

/-- What two actions that ask for the same place do. -/
inductive ConflictKind where
  | shiftReduce
  | reduceReduce
deriving DecidableEq, Repr

/-- The kind of a conflict in words. -/
def ConflictKind.display : ConflictKind → String
  | shiftReduce => "shift/reduce"
  | reduceReduce => "reduce/reduce"

/-- A second, different action for a place in the table that is taken. -/
structure Conflict where
  state : Nat
  terminal : Nat
  kept : Action
  rejected : Action
deriving DecidableEq, Repr

namespace Conflict

/-- A conflict is a shift/reduce conflict exactly if one of its actions shifts. -/
def kind (c : Conflict) : ConflictKind :=
  if c.kept.isShift || c.rejected.isShift then .shiftReduce else .reduceReduce

/-- The conflict in words. -/
def message (g : Augmented) (c : Conflict) : String :=
  c.kind.display ++ " conflict in state " ++ c.state.repr ++ " on " ++
    Text.quoted (g.name (.terminal c.terminal)) ++ ": kept " ++ c.kept.display ++
    ", rejected " ++ c.rejected.display

end Conflict

/-- A state with its transitions and its row of the table. -/
structure AutomatonState where
  kernel : Kernel
  /-- The closure of the kernel. -/
  items : List Item
  /-- Symbols with the states that they lead to. -/
  edges : List (Symbol × Nat)
  /-- Terminals, by number, with their actions. -/
  actions : List (Nat × Action)
  /-- Nonterminals, by number, with the states that they lead to. -/
  goto : List (Nat × Nat)
deriving DecidableEq

/-- The states in the order in which they are found, and the conflicts of all of them. -/
structure Automaton where
  states : List AutomatonState
  conflicts : List Conflict

namespace Automaton

/-- The transitions of a state: each symbol with the place of its target among the kernels. -/
def edgesOf (ps : List Production) (kernels : List Kernel) (items : List Item) :
    List (Symbol × Nat) :=
  (Kernel.awaited ps items).map fun s => (s, kernels.idxOf (Kernel.advance ps items s))

/-- The terminals for which an item asks for an action, with that action. -/
def requests (g : Augmented) (sets : Sets) (edges : List (Symbol × Nat)) (i : Item) :
    List (Nat × Action) :=
  match i.next? g.productions with
  | some (.terminal t) => ((edges.lookup (.terminal t)).map fun q => (t, Action.shift q)).toList
  | some (.nonterminal _) => []
  | none =>
    if i.production = 0 then [(g.endMarker, .accept)]
    else
      match g.productions[i.production]? with
      | some p => (sets.followAt p.lhs).members.map fun t => (t, .reduce i.production)
      | none => []

/-- The row of actions and the conflicts that a list of requests leads to. -/
def settle (state : Nat) (row : List (Nat × Action)) :
    List (Nat × Action) → List (Nat × Action) × List Conflict
  | [] => (row, [])
  | (t, a) :: rest =>
    match row.lookup t with
    | none => settle state (row ++ [(t, a)]) rest
    | some kept =>
      let (row, conflicts) := settle state row rest
      (row, if kept = a then conflicts else ⟨state, t, kept, a⟩ :: conflicts)

/-- The nonterminal that an item waits for, with the state that the transition on it leads to. -/
def destination? (ps : List Production) (edges : List (Symbol × Nat)) (i : Item) :
    Option (Nat × Nat) :=
  match i.next? ps with
  | some (.nonterminal n) => (edges.lookup (.nonterminal n)).map (n, ·)
  | _ => none

/-- A nonterminal and its target put into a row of targets. A nonterminal that is there already
keeps its place and gets the new target. -/
def putTarget : List (Nat × Nat) → Nat × Nat → List (Nat × Nat)
  | [], (n, target) => [(n, target)]
  | (m, old) :: row, (n, target) =>
    if m = n then (n, target) :: row else (m, old) :: putTarget row (n, target)

/-- The state with the number `q` and the conflicts in its row. -/
def stateOf (g : Augmented) (sets : Sets) (kernels : List Kernel) (q : Nat) (k : Kernel) :
    AutomatonState × List Conflict :=
  let items := k.closure g.productions
  let edges := edgesOf g.productions kernels items
  let (actions, conflicts) := settle q [] (items.flatMap (requests g sets edges))
  let goto := (items.filterMap (destination? g.productions edges)).foldl putTarget []
  (⟨k, items, edges, actions, goto⟩, conflicts)

/-- The automaton of a grammar. -/
def build (g : Augmented) (sets : Sets) : Automaton :=
  let kernels := Kernel.collection g.productions
  let states := kernels.mapIdx (stateOf g sets kernels)
  { states := states.map (·.1), conflicts := states.flatMap (·.2) }

end Automaton

end ShiftReduce
