import ShiftReduce.Proofs.Engine.Invariant

/-!
# An accepted input is a sentence

If a run on a generated table accepts, with or without conflicts in the table, then its input is a
sentence of the grammar with the end marker behind it, and what the run leaves is a derivation tree
of that sentence: the conflicts of a table decide which trees can be found, not what a tree is.
-/

namespace ShiftReduce

namespace Context

variable {g : Grammar} {name : Option String} {ts : List String} {c : Context}
  {symbols pending : List Symbol} {spent : List String}

/-- What a finished parse leaves. -/
structure Accepted (g : Grammar) (w : List String) (q : ℕ) (t : Tree) (c : Context) : Prop where
  input_eq : c.input = []
  elements_eq : c.elements =
    [.state 0, .symbol (.marker (g.name (.nonterminal g.start))), .state q]
  forest_eq : c.forest = [t]
  spells : Tree.Spells g (.nonterminal g.start) t
  yield_eq : t.yield = w
  shifts_eq : c.stats.shifts = w.length
  reductions_eq : c.stats.reductions = t.expansions

/-- A finished parse has the start symbol on its stack and its derivation tree as its forest. -/
theorem Invariant.accepted (hg : g.WellFormed) (h : Invariant g name ts c symbols pending spent)
    (hdone : c.phase = .done) : ∃ w q t, ts = w ++ [endMarker] ∧
      g.automaton.target? 0 (.nonterminal g.start) = some q ∧ Accepted g w q t c := by
  cases h.standing with
  | awaiting hphase => simp [hdone] at hphase
  | matching hphase => simp [hdone] at hphase
  | resolving hphase => simp [hdone] at hphase
  | @done d _ hinput hnext hi =>
    obtain ⟨below, hsymbols, hbelow⟩ := h.path.handle rfl hnext hi
    obtain rfl : symbols = .nonterminal g.start :: below := hsymbols
    have hpath := h.path
    generalize hframes : c.frames = frames at hpath hbelow
    cases hpath with
    | @cons _ frames _ q hpath hq =>
      -- the start item stands at the bottom only, so nothing lies under the start symbol
      obtain rfl := hpath.eq_nil_of_start_zero hg hbelow
      cases hpath
      have htrees := h.trees
      generalize hsubtrees : c.subtrees = subtrees at htrees
      cases htrees with
      | @cons _ t _ _ ht hnil =>
        cases hnil
        have hforest : c.forest = [t] := by simp [forest, hsubtrees]
        have hname : g.augment.name (.nonterminal g.start) = g.name (.nonterminal g.start) :=
          Grammar.name_augment (Grammar.start_inRange hg.toIndexed)
        have htokens := h.tokens
        have hshifts := h.shifts
        have hreductions := h.reductions
        rw [hforest, Tree.forestYield_singleton] at htokens hshifts
        rw [hforest, Tree.forestExpansions_singleton] at hreductions
        rw [remaining, hinput, List.map_nil, List.append_nil] at htokens
        refine ⟨t.yield, q, t, htokens.symm, hq, hinput, ?_, hforest, ht, rfl, hshifts, hreductions⟩
        rw [elements, hframes, ← hname]
        rfl

/-- A run that accepts leaves a finished parse. -/
theorem RunsTo.exists_accepted (hg : g.WellFormed)
    (hruns : RunsTo (.new (Build.ofGrammar g name).table ts) (.ok (), c)) :
    ∃ w q t, ts = w ++ [endMarker] ∧ g.automaton.target? 0 (.nonterminal g.start) = some q ∧
      Accepted g w q t c := by
  have hupheld : Upheld g name ts c :=
    (Upheld.runsTo hg ⟨_, _, _, invariant_new g name ts⟩ hruns).1
  obtain ⟨symbols, pending, spent, h⟩ := hupheld
  exact h.accepted hg (hruns.phase_eq rfl)

end Context

namespace Build

open Context

/-- An accepted input is a sentence with the end marker behind it, and the run leaves a derivation
tree of the sentence. -/
theorem run_sound {text : String} {name : Option String} {b : Build} {ts : List String} {fuel : ℕ}
    {c : Context} (hb : ofText text name = .ok b)
    (hrun : (Context.new b.table ts).runWithin fuel = some (.ok (), c)) :
    ∃ w q t, ts = w ++ [endMarker] ∧ (endMarker ∈ w → endMarker ∈ b.source.terminals.names) ∧
      c.input = [] ∧
      c.elements =
        [.state 0, .symbol (.marker (b.source.name (.nonterminal b.source.start))), .state q] ∧
      b.table.goto? 0 (b.source.name (.nonterminal b.source.start)) = some q ∧
      c.forest = [t] ∧ t.name = b.source.name (.nonterminal b.source.start) ∧
      t.IsDerivation b.source ∧ t.yield = w ∧
      c.stats.shifts = w.length ∧ c.stats.reductions = t.expansions := by
  obtain ⟨g, hread, rfl⟩ := ofText_eq_ok_iff.1 hb
  have hg := Grammar.wellFormed_of_read hread
  have hruns := runsTo_of_runWithin hrun
  have hupheld : Upheld g name ts c :=
    (Upheld.runsTo hg ⟨_, _, _, invariant_new g name ts⟩ hruns).1
  obtain ⟨symbols, pending, spent, h⟩ := hupheld
  obtain ⟨w, q, t, hts, hq, haccepted⟩ := h.accepted hg (hruns.phase_eq rfl)
  have hgoto := goto?_name name hg hq
  rw [Grammar.name_augment (Grammar.start_inRange hg.toIndexed)] at hgoto
  refine ⟨w, q, t, hts, ?_, haccepted.input_eq, haccepted.elements_eq, hgoto, haccepted.forest_eq,
    haccepted.spells.name_eq, haccepted.spells.isDerivation, haccepted.yield_eq,
    haccepted.shifts_eq, haccepted.reductions_eq⟩
  intro hmem
  apply haccepted.spells.isDerivation.mem_terminals hg _
  rwa [haccepted.yield_eq]

/-- A run over two nested pairs. -/
theorem run_sound_nested : ∃ b c, ofText "S -> ( S )\nS ->" none = .ok b ∧
    (Context.new b.table ["(", "(", ")", ")", "$"]).runWithin 8 = some (.ok (), c) ∧
    ∃ w q t, ["(", "(", ")", ")", "$"] = w ++ [endMarker] ∧
      c.elements = [.state 0, .symbol (.marker "S"), .state q] ∧ c.forest = [t] ∧
      t.yield = w ∧ c.stats.reductions = t.expansions := by
  have hrun : (Context.new (ofGrammar Grammar.nested none).table
      ["(", "(", ")", ")", "$"]).runWithin 8 = some (.ok (), {
        table := (ofGrammar Grammar.nested none).table
        input := []
        frames := [⟨.marker "S", 1⟩]
        subtrees := [.node "S" [.leaf "(", .node "S" [.leaf "(", .node "S" [], .leaf ")"], .leaf ")"]]
        phase := .done
        stats := ⟨4, 3⟩ }) := by decide +kernel
  obtain ⟨w, q, t, hts, -, -, helements, -, hforest, -, -, hyield, -, hreductions⟩ :=
    run_sound ofText_nested hrun
  exact ⟨_, _, ofText_nested, hrun, w, q, t, hts, helements, hforest, hyield, hreductions⟩

end Build

end ShiftReduce
