import ShiftReduce.Proofs.Engine.Foresight
import ShiftReduce.Proofs.Engine.Phases
import ShiftReduce.Proofs.Engine.Runs
import ShiftReduce.Proofs.Grammar.Completion

/-!
# Every sentence is accepted

Without conflicts the table has, for a stack that can be completed, the move with which the
completion begins. So a run follows the completion (`Completes.run`), and a run over the terminals
of a derivation tree ends with that tree.
-/

namespace ShiftReduce

open Context

namespace Context

variable {c : Context}

/-- What remains begins with the name of the next terminal. -/
theorem exists_input_eq {g : Grammar} {rest : List ℕ}
    (h : c.remaining = g.augment.names rest ++ [endMarker]) :
    ∃ t input, c.input = t :: input ∧
      g.augment.name (.terminal (rest.headD g.augment.endMarker)) = t.symbol ∧
      input.map (·.symbol) = (g.augment.names rest ++ [endMarker]).tail := by
  cases hinput : c.input with
  | nil => simp [remaining, hinput] at h
  | cons t input =>
    rw [remaining, hinput, List.map_cons] at h
    refine ⟨t, input, rfl, ?_, by rw [← h, List.tail_cons]⟩
    cases rest with
    | nil =>
      rw [List.headD_nil, Grammar.name_endMarker]
      exact (List.cons.inj h).1.symm
    | cons a rest => exact (List.cons.inj h).1.symm

end Context

/-- A run follows a completion of its stack by what remains of its input, up to the tree in which
the completion ends. -/
theorem Completes.run {g : Grammar} {name : Option String} {T : Tree} {n : ℕ}
    {symbols : List Symbol} {trees : List Tree} {rest : List ℕ} {c : Context} (hg : g.WellFormed)
    (hc : g.automaton.conflicts = []) (h : Completes g T n symbols trees rest)
    (hready : Ready g name symbols c) (htrees : c.subtrees = trees)
    (hremaining : c.remaining = g.augment.names rest ++ [endMarker]) :
    ∃ c', c.runWithin (n + 1) = some (.ok (), c') ∧ c'.forest = [T] := by
  -- one instruction for each move of the completion, and one more to accept
  induction h generalizing c with
  | whole =>
    obtain ⟨t, input, hinput, ht, hrest⟩ := exists_input_eq hremaining
    obtain rfl : input = [] := by simpa [Augmented.names] using hrest
    have hstep := step_of_accept hg hready hinput ht (Viable.action?_whole hc hready.path)
    refine ⟨{ c with input := [], phase := .done }, ?_, by simp [forest, htrees]⟩
    rw [runWithin_of_step hready.phase_ne hstep]
    exact runWithin_of_done rfl 0
  | @shift n a symbols trees rest h ih =>
    obtain ⟨t, input, hinput, ht, hrest⟩ := exists_input_eq hremaining
    obtain ⟨q, hq, hact⟩ := Viable.action?_shift hc hready.path h.viable
    have hname : t.symbol = g.name (.terminal a) :=
      ht.symm.trans (Grammar.name_augment (Build.inRange_of_target? hg hq))
    rw [runWithin_of_step hready.phase_ne (step_of_shift hg hready hinput ht hact)]
    refine ih (hready.shift ht hq) ?_ hrest
    rw [htrees, hname]
  | @reduce n p symbols trees children rest hp hlen h ih =>
    obtain ⟨t, input, hinput, ht, hrest⟩ := exists_input_eq hremaining
    obtain ⟨k, hpk, hact⟩ := Viable.action?_reduce hg hc hp hready.path h.viable (begins g rest)
    obtain ⟨q, hq, hstep⟩ := step_of_reduce hg hready hinput ht hpk hact hlen htrees
    rw [runWithin_of_step hready.phase_ne hstep]
    refine ih (hready.reduce hlen htrees hq) ?_ ?_
    · rw [Grammar.name_augment (s := .nonterminal p.lhs) (hg.lhs_lt p hp)]
    · rw [← hremaining, remaining, remaining, hinput]
      rfl

namespace Build

/-- The run over the terminals of a derivation tree ends with the tree. -/
theorem exists_run_of_spells {g : Grammar} (name : Option String) {T : Tree} (hg : g.WellFormed)
    (hc : g.automaton.conflicts = []) (hT : T.Spells g (.nonterminal g.start)) :
    ∃ fuel c, (Context.new (ofGrammar g name).table (T.yield ++ [endMarker])).runWithin fuel =
      some (.ok (), c) ∧ c.forest = [T] := by
  -- a tree is a completion of the empty stack by the terminals that it derives
  obtain ⟨v, m, hv, hunread⟩ :=
    exists_unread hg hT.isDerivation (Grammar.start_inRange hg.toIndexed) hT.name_eq
  have hcompletes : Completes g T (0 + m) [] [] (v ++ []) := hunread _ _ [] [] _ .whole
  rw [List.append_nil] at hcompletes
  have hremaining : (Context.new (ofGrammar g name).table (T.yield ++ [endMarker])).remaining =
      g.augment.names v ++ [endMarker] := by rw [remaining_new, hv]
  obtain ⟨c, hc, hforest⟩ := hcompletes.run hg hc ⟨rfl, rfl, .nil, rfl⟩ rfl hremaining
  exact ⟨_, c, hc, hforest⟩

/-- Without conflicts in the table every derivation tree is found: the run over the terminals that
it derives accepts them and leaves just the tree. So a sentence has no other one. -/
theorem run_complete {text : String} {name : Option String} {b : Build} {T : Tree}
    (hb : ofText text name = .ok b) (hc : b.conflicts = []) (hT : T.IsDerivation b.source)
    (hroot : T.name = b.source.name (.nonterminal b.source.start)) :
    (∃ fuel c, (Context.new b.table (T.yield ++ [endMarker])).runWithin fuel = some (.ok (), c) ∧
      c.forest = [T]) ∧
    ∀ U : Tree, U.IsDerivation b.source → U.name = b.source.name (.nonterminal b.source.start) →
      U.yield = T.yield → U = T := by
  obtain ⟨g, hread, rfl⟩ := ofText_eq_ok_iff.1 hb
  have hg := Grammar.wellFormed_of_read hread
  have hrun : ∀ U : Tree, U.IsDerivation g → U.name = g.name (.nonterminal g.start) →
      ∃ fuel c, (Context.new (ofGrammar g name).table (U.yield ++ [endMarker])).runWithin fuel =
        some (.ok (), c) ∧ c.forest = [U] :=
    fun U hU hroot => exists_run_of_spells name hg hc ⟨hroot, hU⟩
  refine ⟨hrun T hT hroot, fun U hU hUroot hyield => ?_⟩
  obtain ⟨fuel, c, hTrun, hTforest⟩ := hrun T hT hroot
  obtain ⟨fuel', c', hUrun, hUforest⟩ := hrun U hU hUroot
  -- both trees are what the one run over their terminals leaves
  rw [hyield] at hUrun
  have hsame := runWithin_unique hUrun hTrun
  obtain rfl : c' = c := congrArg Prod.snd hsame
  rw [hTforest] at hUforest
  exact (List.cons.inj hUforest).1.symm

/-- The tree of one pair of parentheses is found. -/
theorem run_complete_nested : ∃ b, ofText "S -> ( S )\nS ->" none = .ok b ∧ b.conflicts = [] ∧
    ∃ fuel c, (Context.new b.table ["(", ")", "$"]).runWithin fuel = some (.ok (), c) ∧
      c.forest = [.node "S" [.leaf "(", .node "S" [], .leaf ")"]] := by
  have hrun := (run_complete ofText_nested conflicts_nested Tree.isDerivation_nested rfl).1
  have hyield : Tree.yield (.node "S" [.leaf "(", .node "S" [], .leaf ")"]) = ["(", ")"] := by
    decide +kernel
  rw [hyield] at hrun
  exact ⟨_, ofText_nested, conflicts_nested, hrun⟩

end Build

end ShiftReduce
