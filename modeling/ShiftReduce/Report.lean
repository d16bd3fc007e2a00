import ShiftReduce.Table.Emission

/-!
# Reports

A report lists what the construction of a table found: productions, FIRST and FOLLOW sets, states
with their items and rows, and conflicts. Every entry stands on a line of its own behind a tag, so
that a line can be found by its beginning.
-/

namespace ShiftReduce

namespace Report

/-- A line of a report. -/
def line (text : String) : String := text ++ "\n"

/-- Several texts behind each other. -/
def block {α : Type} (entries : List α) (text : α → String) : String :=
  String.join (entries.map text)

/-- Columns of a line, parted by commas. -/
def columns (cs : List String) : String := line (",".intercalate cs)

/-- The head of a list of entries: its tag, their number and a blank line. -/
def heading (tag : String) (count : Nat) : String := columns [tag, count.repr] ++ line ""

/-- The productions with their numbers. -/
def productions (g : Augmented) : String :=
  heading "PS" g.productions.length ++
    String.join (g.productions.mapIdx fun i p =>
      columns ["P", i.repr, g.displayProduction p none])

/-- A set of terminals between braces, after a sign for the empty sequence where that belongs to
it; a comma follows every entry. -/
def setText (g : Augmented) (nullable : Bool) (s : OrderedSet Nat) : String :=
  "\x7b" ++ (if nullable then "ε, " else "") ++
    block s.members (fun t => g.name (.terminal t) ++ ", ") ++ "\x7d"

/-- The FIRST sets and, after a blank line, the FOLLOW sets. -/
def firstFollow (g : Augmented) (s : Sets) : String :=
  let entries (tag : String) (text : Nat → String) : String :=
    String.join (g.nonterminals.names.mapIdx fun n name => columns [tag, name, text n])
  entries "FIRST" (fun n => setText g (s.firstAt n).nullable (s.firstAt n).terminals) ++
    line "" ++ entries "FOLLOW" (fun n => setText g false (s.followAt n))

/-- An item as a production with a dot. -/
def itemText (g : Augmented) (i : Item) : String :=
  (g.display? i.production (some i.dot)).getD ""

/-- The items, actions and targets of a state, followed by a blank line. -/
def state (g : Augmented) (q : Nat) (s : AutomatonState) : String :=
  block s.items (fun i => columns ["C", q.repr, itemText g i]) ++
    block s.actions (fun (t, a) => columns ["A", q.repr, g.name (.terminal t), a.display]) ++
    block s.goto (fun (n, target) =>
      columns ["G", q.repr, g.name (.nonterminal n), target.repr]) ++
    line ""

/-- The states in order. -/
def states (g : Augmented) (a : Automaton) : String :=
  heading "CS" a.states.length ++ String.join (a.states.mapIdx (state g))

/-- The conflicts in the order in which they were met. -/
def conflicts (g : Augmented) (cs : List Conflict) : String :=
  heading "XS" cs.length ++ block cs (fun c => columns ["X", c.message g])

/-- The whole report. -/
def all (b : Build) : String :=
  productions b.grammar ++ line "" ++ firstFollow b.grammar b.sets ++ line "" ++
    states b.grammar b.automaton ++ conflicts b.grammar b.conflicts

end Report

end ShiftReduce
