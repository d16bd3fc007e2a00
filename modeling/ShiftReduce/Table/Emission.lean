import ShiftReduce.Automaton.Basic
import ShiftReduce.Grammar.Reader
import ShiftReduce.Table.Basic

/-!
# From an automaton to a table

The table names what the automaton numbers. It leaves out the synthetic start production and start
symbol, so that production `n` of the augmented grammar is rule `n` of the table.
-/

namespace ShiftReduce

namespace Table

/-- The row of a state. -/
def rowOf (g : Augmented) (s : AutomatonState) : Row where
  actions := .ofList (s.actions.map fun (t, a) => (g.name (.terminal t), a))
  goto := .ofList (s.goto.map fun (n, q) => (g.name (.nonterminal n), q))

/-- The rule of a production. -/
def ruleOf (g : Augmented) (p : Production) : Rule where
  rhs := p.rhs.map g.name
  lhs := g.name (.nonterminal p.lhs)

/-- The table of an automaton. -/
def ofAutomaton (g : Augmented) (a : Automaton) (name : Option String) : Table where
  name := name
  terminals := g.terminals.names
  nonterminals := g.nonterminals.names.eraseIdx g.start
  rules := g.productions.tail.map (ruleOf g)
  states := a.states.map (rowOf g)

end Table

/-- A table with what it was made from. -/
structure Build where
  /-- The grammar as it was written. -/
  source : Grammar
  grammar : Augmented
  sets : Sets
  automaton : Automaton
  table : Table

namespace Build

/-- The table of a grammar with its stages. -/
def ofGrammar (g : Grammar) (name : Option String) : Build :=
  let grammar := g.augment
  let sets := Sets.solve grammar
  let automaton := Automaton.build grammar sets
  { source := g, grammar, sets, automaton, table := .ofAutomaton grammar automaton name }

/-- The table of a grammar text with its stages. Conflicts do not stop the construction; they are
part of the automaton. -/
def ofText (text : String) (name : Option String) : Except GrammarError Build :=
  (Grammar.read text).map (ofGrammar · name)

/-- The conflicts that the construction met. -/
def conflicts (b : Build) : List Conflict := b.automaton.conflicts

end Build

end ShiftReduce
