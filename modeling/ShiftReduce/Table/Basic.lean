import ShiftReduce.Ordered.Map
import ShiftReduce.Table.Action

/-!
# Parse tables

A table holds everything a shift-reduce parser needs: the names of the symbols, the rules, and for
each state a row of actions by terminal and a row of targets by nonterminal. It speaks of symbols
by name, so it can be read and used without the grammar it was made from. Rules are counted from 1
and states from 0.
-/

namespace ShiftReduce

/-- A rule: the symbols of `rhs` may be replaced by `lhs`. -/
structure Rule where
  rhs : List String
  lhs : String
deriving DecidableEq, Repr

/-- The rule as text. -/
def Rule.display (r : Rule) : String := r.lhs ++ " ->" ++ String.join (r.rhs.map (" " ++ ·))

/-- One row of a table. -/
structure Row where
  /-- The actions, by terminal. -/
  actions : OrderedMap String Action
  /-- The states to go to after a reduction, by nonterminal. -/
  goto : OrderedMap String Nat
deriving DecidableEq, Inhabited

/-- A parse table. -/
structure Table where
  name : Option String
  terminals : List String
  nonterminals : List String
  rules : List Rule
  states : List Row
deriving DecidableEq, Inhabited

namespace Table

/-- The rule with a number counted from 1. -/
def rule? (t : Table) (id : Nat) : Option Rule := if id = 0 then none else t.rules[id - 1]?

/-- The row of a state. -/
def row? (t : Table) (state : Nat) : Option Row := t.states[state]?

/-- The action of a state on a terminal. -/
def action? (t : Table) (state : Nat) (terminal : String) : Option Action :=
  (t.row? state).bind (·.actions.get? terminal)

/-- The state to go to from `state` after a reduction to a nonterminal. -/
def goto? (t : Table) (state : Nat) (nonterminal : String) : Option Nat :=
  (t.row? state).bind (·.goto.get? nonterminal)

/-- The terminals for which a state has an action, in ascending order. -/
def expected (t : Table) (state : Nat) : List String :=
  ((t.row? state).map (·.actions.keys)).getD []

end Table

end ShiftReduce
