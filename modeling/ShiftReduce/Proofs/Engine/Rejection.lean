import ShiftReduce.Proofs.Engine.Completeness
import ShiftReduce.Proofs.Engine.Lookahead
import ShiftReduce.Proofs.Engine.Termination

/-!
# Errors are reported at the right token

A run that finds no action on its lookahead may have reduced a few times on that lookahead before it
noticed. Still nothing behind the lookahead matters to it, so a sentence that begins with the tokens
up to the lookahead would be refused as well, while without conflicts every sentence is accepted. On
the other hand the stack is a path through the automaton, which can be completed if every
nonterminal derives something, so what was shifted is the beginning of a sentence.
-/

namespace ShiftReduce

open Context

variable {g : Grammar} {name : Option String}

/-- What completes a stack of derivation trees leads to a derivation tree, of what the trees derive
and the terminals that were read. -/
theorem Completes.spells {T : Tree} {n : ℕ} {symbols : List Symbol} {trees : List Tree}
    {rest : List ℕ} (hg : g.WellFormed) (h : Completes g T n symbols trees rest)
    (htrees : List.Forall₂ (Tree.Spells g) symbols trees) :
    T.Spells g (.nonterminal g.start) ∧
      T.yield = Tree.forestYield trees.reverse ++ g.augment.names rest := by
  induction h with
  | whole =>
    cases htrees with
    | cons hT => exact ⟨hT, by simp [Augmented.names]⟩
  | @shift n t symbols trees rest h ih =>
    -- the terminal labels a transition of the automaton
    obtain ⟨_, hpath⟩ := h.viable.exists_path
    have ht : g.InRange (.terminal t) := by
      cases hpath with
      | cons _ hq => exact Build.inRange_of_target? hg hq
    obtain ⟨hT, hyield⟩ := ih (.cons (Tree.spells_leaf ht) htrees)
    refine ⟨hT, ?_⟩
    rw [hyield, List.reverse_cons, Tree.forestYield_append, Tree.forestYield_singleton,
      Tree.yield_leaf_name hg ht, List.append_assoc, Augmented.names, Augmented.names,
      List.map_cons, Grammar.name_augment ht]
    rfl
  | @reduce n p symbols trees children rest hp hlen h ih =>
    obtain ⟨hT, hyield⟩ := ih (forall₂_node hp hlen htrees)
    refine ⟨hT, ?_⟩
    rw [hyield, List.reverse_cons, Tree.forestYield_append, Tree.forestYield_singleton,
      Tree.yield_node_name hg (hg.lhs_lt p hp), List.reverse_append, List.reverse_reverse,
      Tree.forestYield_append]

namespace Context

variable {ts : List String} {c : Context} {symbols : List Symbol} {spent : List String}
  {q : ℕ} {a : String} {expected : List String}

/-- What has been read is the beginning of a sentence if every nonterminal derives something. -/
theorem Invariant.exists_isSentence (hg : g.WellFormed)
    (hproductive : ∀ n, g.Reachable n → g.Productive (.nonterminal n))
    (h : Invariant g name ts c symbols [] spent) :
    ∃ w, g.IsSentence w ∧ Tree.forestYield c.forest <+: w := by
  obtain ⟨rest, n, hn⟩ := h.path.completable hg hproductive
  obtain ⟨T, hT⟩ := hn c.subtrees h.length_eq
  obtain ⟨hspells, hyield⟩ := hT.spells hg h.trees
  refine ⟨T.yield, ⟨T, hspells, rfl⟩, ?_⟩
  rw [hyield]
  exact List.prefix_append _ _

/-- A sentence does not go on as a run did that found no action. -/
theorem not_prefix_of_isSentence (hg : g.WellFormed) (hc : g.automaton.conflicts = [])
    {x w : List String}
    (hrefused : ∀ r', ∃ c', RunsTo (.new (Build.ofGrammar g name).table (x ++ a :: r'))
      (.error (.unresolvedAction q a expected), c'))
    (hw : g.IsSentence w) : ¬ x ++ [a] <+: w ++ [endMarker] := by
  rintro ⟨s, hs⟩
  obtain ⟨T, hT, rfl⟩ := hw
  obtain ⟨fuel, c, hrun, -⟩ := Build.exists_run_of_spells name hg hc hT
  obtain ⟨c', hrefused⟩ := hrefused s
  rw [← hs, List.append_assoc] at hrun
  exact absurd ((runsTo_of_runWithin hrun).unique hrefused) (by simp)

end Context

namespace Build

/-- Without conflicts in the table a run that finds no action has read as far as it can: no sentence
goes on with the lookahead, and if every nonterminal derives something then some sentence begins
with the tokens that were shifted. -/
theorem run_rejects {text : String} {name : Option String} {b : Build} {ts : List String}
    {fuel q : ℕ} {a : String} {expected : List String} {c : Context}
    (hb : ofText text name = .ok b) (hc : b.conflicts = [])
    (hrun : (Context.new b.table ts).runWithin fuel =
      some (.error (.unresolvedAction q a expected), c)) :
    ts.take c.stats.shifts ++ [a] <+: ts ∧
    (∀ w, b.source.IsSentence w → ¬ ts.take c.stats.shifts ++ [a] <+: w ++ [endMarker]) ∧
    ((∀ n, b.source.InRange (.nonterminal n) → b.source.Productive (.nonterminal n)) →
      ∃ w, b.source.IsSentence w ∧ ts.take c.stats.shifts <+: w) := by
  obtain ⟨g, hread, rfl⟩ := ofText_eq_ok_iff.1 hb
  have hg := Grammar.wellFormed_of_read hread
  have hruns := runsTo_of_runWithin hrun
  obtain ⟨hphase, x, r, hts, hremaining, hrefused⟩ := hruns.exists_prefix
  have hupheld : Upheld g name ts c :=
    (Upheld.runsTo hg ⟨_, _, _, invariant_new g name ts⟩ hruns).1
  obtain ⟨symbols, h⟩ := hupheld.awaiting hphase
  -- what has been shifted is what is in front of the lookahead, and what the trees derive
  have htokens := h.tokens
  rw [List.append_nil, hremaining, hts] at htokens
  have hyield : Tree.forestYield c.forest = x := List.append_cancel_right htokens
  have htake : ts.take c.stats.shifts = x := by
    rw [h.shifts, hyield, hts, List.take_left]
  rw [htake]
  refine ⟨⟨r, by rw [hts, List.append_assoc]; rfl⟩, ?_, ?_⟩
  · intro w hw
    exact not_prefix_of_isSentence hg hc hrefused hw
  · intro hproductive
    rw [← hyield]
    exact h.exists_isSentence hg fun n hn => hproductive n (hn.inRange hg)

/-- The end of the input is refused behind an opening parenthesis, with which a sentence begins. -/
theorem run_rejects_nested : ∃ b c, ofText "S -> ( S )\nS ->" none = .ok b ∧ b.conflicts = [] ∧
    (Context.new b.table ["(", "$"]).runWithin 3 =
      some (.error (.unresolvedAction 3 "$" [")"]), c) ∧
    (∀ w, b.source.IsSentence w → ¬ ["(", "$"] <+: w ++ ["$"]) ∧
    ∃ w, b.source.IsSentence w ∧ ["("] <+: w := by
  have hrun : (Context.new (ofGrammar Grammar.nested none).table ["(", "$"]).runWithin 3 =
      some (.error (.unresolvedAction 3 "$" [")"]), {
        table := (ofGrammar Grammar.nested none).table
        input := [⟨"$", true⟩]
        frames := [⟨.marker "S", 3⟩, ⟨.token "(", 2⟩]
        subtrees := [.node "S" [], .leaf "("]
        phase := .awaiting
        stats := ⟨1, 1⟩ }) := by decide +kernel
  have hproductive : ∀ n, Grammar.nested.InRange (.nonterminal n) →
      Grammar.nested.Productive (.nonterminal n) := by
    intro n hn
    obtain rfl : n = 0 := Nat.lt_one_iff.1 hn
    exact ⟨_, rfl, Tree.isDerivation_nested_empty⟩
  obtain ⟨-, hnone, hsome⟩ := run_rejects ofText_nested conflicts_nested hrun
  exact ⟨_, _, ofText_nested, conflicts_nested, hrun, hnone, hsome hproductive⟩

end Build

end ShiftReduce
