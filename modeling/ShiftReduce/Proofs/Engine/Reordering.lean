import ShiftReduce.Proofs.Engine.Completeness
import ShiftReduce.Proofs.Engine.Soundness
import ShiftReduce.Proofs.Grammar.Reordering

/-!
# The order of the lines does not matter

What the tables of a grammar without conflicts accept is told by its derivation trees alone
(`Build.accepts_iff`), and these do not depend on the order of the lines. The automaton is
renumbered when lines change places, so neither the number of its states nor whether it has
conflicts depends on the order either.
-/

namespace ShiftReduce

/-- The run over the tokens accepts them and leaves the trees. -/
def Table.Accepts (table : Table) (ts : List String) (trees : List Tree) : Prop :=
  ∃ fuel c, (Context.new table ts).runWithin fuel = some (.ok (), c) ∧ c.forest = trees

namespace Build

open Context

variable {g : Grammar} {ts : List String} {trees : List Tree}

/-- Without conflicts, the sentences with the end marker behind them are accepted, each with its
derivation tree, and nothing else. -/
theorem accepts_iff (name : Option String) (hg : g.WellFormed) (hc : g.automaton.conflicts = []) :
    (ofGrammar g name).table.Accepts ts trees ↔
      ∃ t : Tree, t.Spells g (.nonterminal g.start) ∧ ts = t.yield ++ [endMarker] ∧
        trees = [t] := by
  constructor
  · rintro ⟨fuel, c, hrun, rfl⟩
    obtain ⟨w, q, t, rfl, -, haccepted⟩ := (runsTo_of_runWithin hrun).exists_accepted hg
    exact ⟨t, haccepted.spells, by rw [haccepted.yield_eq], haccepted.forest_eq⟩
  · rintro ⟨t, ht, rfl, rfl⟩
    exact exists_run_of_spells name hg hc ht

/-- A grammar text with its lines in another order, the first one kept, makes a table with as many
states, without conflicts if there were none; then both tables accept the same inputs with the same
trees. -/
theorem ofText_reordered {text text' : String} {name name' : Option String} {b : Build}
    (hb : ofText text name = .ok b) (h : Grammar.Reordered text text') :
    ∃ b', ofText text' name' = .ok b' ∧
      b'.automaton.states.length = b.automaton.states.length ∧
      b'.table.states.length = b.table.states.length ∧
      (b'.conflicts = [] ↔ b.conflicts = []) ∧
      (b.conflicts = [] → ∀ ts trees, b'.table.Accepts ts trees ↔ b.table.Accepts ts trees) := by
  obtain ⟨g, hread, rfl⟩ := ofText_eq_ok_iff.1 hb
  obtain ⟨g', hread', hrearranged⟩ := h.exists_read hread
  have hg := Grammar.wellFormed_of_read hread
  have hg' := Grammar.wellFormed_of_read hread'
  obtain ⟨ρ⟩ := hrearranged.nonempty_renumbering hg hg'
  have hstates : g'.automaton.states.length = g.automaton.states.length := ρ.length_states_eq _ _
  have hconflicts : g'.automaton.conflicts = [] ↔ g.automaton.conflicts = [] :=
    ρ.conflicts_eq_nil_iff hg.indexed_augment hg'.indexed_augment
  refine ⟨ofGrammar g' name', ofText_eq_ok_iff.2 ⟨g', hread', rfl⟩, hstates, ?_, hconflicts, ?_⟩
  · simpa [ofGrammar, Table.ofAutomaton] using hstates
  · intro hc ts trees
    rw [accepts_iff name hg hc, accepts_iff name' hg' (hconflicts.2 hc)]
    simp only [hrearranged.spells_start_iff]

/-- Two nonterminals are defined in the other order, in lines that end with a carriage return. -/
theorem ofText_reordered_pair :
    Grammar.Reordered "S -> A B\nA -> a\nB -> b" "\nS -> A B\r\nB -> b\r\n\r\nA -> a\r" ∧
    ∃ b b', ofText "S -> A B\nA -> a\nB -> b" none = .ok b ∧
      ofText "\nS -> A B\r\nB -> b\r\n\r\nA -> a\r" none = .ok b' ∧
      b'.automaton.states.length = b.automaton.states.length ∧ b'.conflicts = [] ∧
      ∀ ts trees, b'.table.Accepts ts trees ↔ b.table.Accepts ts trees := by
  have hreordered : Grammar.Reordered "S -> A B\nA -> a\nB -> b"
      "\nS -> A B\r\nB -> b\r\n\r\nA -> a\r" := ⟨by decide +kernel, by decide +kernel⟩
  have hb : ofText "S -> A B\nA -> a\nB -> b" none = .ok (ofGrammar Grammar.pair none) :=
    ofText_eq_ok_iff.2 ⟨_, Grammar.read_pair, rfl⟩
  have hc : (ofGrammar Grammar.pair none).conflicts = [] := by decide +kernel
  obtain ⟨b', hb', hstates, -, hconflicts, haccepts⟩ := ofText_reordered hb hreordered
  exact ⟨hreordered, _, b', hb, hb', hstates, hconflicts.2 hc, haccepts hc⟩

end Build

end ShiftReduce
