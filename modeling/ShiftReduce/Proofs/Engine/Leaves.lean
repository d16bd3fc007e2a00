import ShiftReduce.Proofs.Engine.Soundness
import ShiftReduce.Proofs.Tree.Measures

/-!
# The leaves of an accepted tree

A node without children counts as a leaf, whether it stands for a terminal that was shifted or for
an empty production by which was reduced. So the leaves of an accepted tree are its input with the
names of the empty nodes put in between: the terminals among them are the input in its order
(`IsDerivation.filter_leaves`), and nothing is put in between exactly if there is no empty node
(`IsDerivation.leaves_eq_yield_iff`).
-/

namespace ShiftReduce

namespace Tree

mutual

/-- The number of nodes of a tree that have no children and are named by nonterminals. -/
def emptyNodes : Tree → ℕ
  | node n [] => (Grammar.isNonterminal n).toNat
  | node _ (c :: cs) => emptyNodes c + forestEmptyNodes cs

/-- The number of such nodes of a forest. -/
def forestEmptyNodes : List Tree → ℕ
  | [] => 0
  | t :: ts => emptyNodes t + forestEmptyNodes ts

end

variable {g : Grammar} {t : Tree}

/-- A node with children is not empty itself. -/
theorem emptyNodes_node_of_ne_nil (n : String) {cs : List Tree} (h : cs ≠ []) :
    (node n cs).emptyNodes = forestEmptyNodes cs := by
  obtain ⟨c, cs, rfl⟩ := List.exists_cons_of_ne_nil h
  rw [emptyNodes, forestEmptyNodes]

/-- The leaves of a forest are those of its trees. -/
theorem mem_forestLeaves {ts : List Tree} {a : String} :
    a ∈ forestLeaves ts ↔ ∃ t ∈ ts, a ∈ t.leaves := by
  induction ts with
  | nil => simp [forestLeaves]
  | cons t ts ih => simp [forestLeaves, ih]

/-! ## Forests -/

/-- If the terminals among the leaves of each tree are what it derives, so they are for the
forest. -/
theorem filter_forestLeaves {p : String → Bool} {ts : List Tree}
    (h : ∀ t ∈ ts, t.leaves.filter p = t.yield) : (forestLeaves ts).filter p = forestYield ts := by
  induction ts with
  | nil => rfl
  | cons t ts ih =>
    rw [forestLeaves, forestYield, List.filter_append, h t List.mem_cons_self,
      ih fun u hu => h u (List.mem_cons_of_mem _ hu)]

/-- If each tree has a leaf for each terminal and each empty node, so has the forest. -/
theorem length_forestLeaves {ts : List Tree}
    (h : ∀ t ∈ ts, t.leaves.length = t.yield.length + t.emptyNodes) :
    (forestLeaves ts).length = (forestYield ts).length + forestEmptyNodes ts := by
  induction ts with
  | nil => rfl
  | cons t ts ih =>
    have htree := h t List.mem_cons_self
    have hforest := ih fun u hu => h u (List.mem_cons_of_mem _ hu)
    rw [forestLeaves, forestYield, forestEmptyNodes, List.length_append, List.length_append]
    omega

/-! ## Derivation trees -/

/-- The terminals among the leaves are those that the tree derives, in the same order. -/
theorem IsDerivation.filter_leaves (hg : g.WellFormed) (h : t.IsDerivation g) :
    t.leaves.filter (· ∈ g.terminals.names) = t.yield := by
  induction h with
  | @leaf a ha =>
    have hlower := hg.isNonterminal_terminal a ha
    simp [Tree.leaf, leaves, yield, hlower, ha]
  | @node p cs hp _ _ ih =>
    have hlhs : g.InRange (.nonterminal p.lhs) := hg.lhs_lt p hp
    rw [yield_node_name hg hlhs]
    by_cases hcs : cs = []
    · subst hcs
      have hnot : g.name (.nonterminal p.lhs) ∉ g.terminals.names := fun hmem =>
        absurd ((hg.isNonterminal_name_nonterminal hlhs).symm.trans
          (hg.isNonterminal_terminal _ hmem)) (by simp)
      simp [leaves, forestYield, hnot]
    · rw [leaves_node_of_ne_nil _ hcs]
      exact filter_forestLeaves ih

/-- The other leaves are the empty nodes. -/
theorem IsDerivation.length_leaves (hg : g.WellFormed) (h : t.IsDerivation g) :
    t.leaves.length = t.yield.length + t.emptyNodes := by
  induction h with
  | @leaf a ha =>
    have hlower := hg.isNonterminal_terminal a ha
    simp [Tree.leaf, leaves, yield, emptyNodes, hlower]
  | @node p cs hp _ _ ih =>
    have hlhs : g.InRange (.nonterminal p.lhs) := hg.lhs_lt p hp
    rw [yield_node_name hg hlhs]
    by_cases hcs : cs = []
    · subst hcs
      simp [leaves, forestYield, emptyNodes, hg.isNonterminal_name_nonterminal hlhs]
    · rw [leaves_node_of_ne_nil _ hcs, emptyNodes_node_of_ne_nil _ hcs]
      exact length_forestLeaves ih

/-- A leaf is a terminal or the left-hand side of an empty production. -/
theorem IsDerivation.mem_leaves (h : t.IsDerivation g) : ∀ a ∈ t.leaves, a ∈ g.terminals.names ∨
    ∃ p ∈ g.productions, p.rhs = [] ∧ g.name (.nonterminal p.lhs) = a := by
  induction h with
  | @leaf a ha =>
    intro b hb
    obtain rfl : b = a := by simpa [Tree.leaf, leaves] using hb
    exact .inl ha
  | @node p cs hp hnames _ ih =>
    intro b hb
    by_cases hcs : cs = []
    · subst hcs
      obtain rfl : b = g.name (.nonterminal p.lhs) := by simpa [leaves] using hb
      exact .inr ⟨p, hp, List.map_eq_nil_iff.1 hnames.symm, rfl⟩
    · rw [leaves_node_of_ne_nil _ hcs] at hb
      obtain ⟨c, hc, hb⟩ := mem_forestLeaves.1 hb
      exact ih c hc b hb

/-- The leaves are what the tree derives if and only if it has no empty nodes. -/
theorem IsDerivation.leaves_eq_yield_iff (hg : g.WellFormed) (h : t.IsDerivation g) :
    t.leaves = t.yield ↔ t.emptyNodes = 0 := by
  have hlength := h.length_leaves hg
  constructor
  · intro heq
    rw [heq] at hlength
    omega
  · intro hzero
    have hsub : t.yield.Sublist t.leaves := h.filter_leaves hg ▸ List.filter_sublist
    exact (hsub.eq_of_length (by omega)).symm

/-- Without empty productions the leaves are what the tree derives. -/
theorem IsDerivation.leaves_eq_yield (hg : g.WellFormed) (h : t.IsDerivation g)
    (hrhs : ∀ p ∈ g.productions, p.rhs ≠ []) : t.leaves = t.yield := by
  rw [← h.filter_leaves hg, eq_comm, List.filter_eq_self]
  intro a ha
  rcases h.mem_leaves a ha with hmem | ⟨p, hp, hnil, -⟩
  · exact decide_eq_true hmem
  · exact absurd hnil (hrhs p hp)

end Tree

namespace Build

open Context

/-- The leaves of the tree that an accepted input leaves are the input with the names of empty nodes
put in between; they are the input itself if and only if no empty production was used, as in a
grammar that has none. -/
theorem run_leaves {text : String} {name : Option String} {b : Build} {w : List String} {fuel : ℕ}
    {c : Context} (hb : ofText text name = .ok b)
    (hrun : (Context.new b.table (w ++ [endMarker])).runWithin fuel = some (.ok (), c)) :
    ∃ t, c.forest = [t] ∧ t.leaves.filter (· ∈ b.source.terminals.names) = w ∧
      (∀ a ∈ t.leaves, a ∉ b.source.terminals.names →
        ∃ p ∈ b.source.productions, p.rhs = [] ∧ b.source.name (.nonterminal p.lhs) = a) ∧
      t.leaves.length = w.length + t.emptyNodes ∧ (t.leaves = w ↔ t.emptyNodes = 0) ∧
      ((∀ p ∈ b.source.productions, p.rhs ≠ []) → t.leaves = w) := by
  obtain ⟨g, hread, rfl⟩ := ofText_eq_ok_iff.1 hb
  have hg := Grammar.wellFormed_of_read hread
  obtain ⟨w', q, t, hw, -, haccepted⟩ := (runsTo_of_runWithin hrun).exists_accepted hg
  obtain rfl : w = w' := List.append_cancel_right hw
  have hderivation := haccepted.spells.isDerivation
  have hyield := haccepted.yield_eq
  subst hyield
  exact ⟨t, haccepted.forest_eq, hderivation.filter_leaves hg,
    fun a ha hnot => (hderivation.mem_leaves a ha).resolve_left hnot, hderivation.length_leaves hg,
    hderivation.leaves_eq_yield_iff hg, hderivation.leaves_eq_yield hg⟩

/-- The parse of `( )` ends with the tree of an empty node between two parentheses. -/
theorem run_parens : (Context.new (ofGrammar Grammar.nested none).table
    (["(", ")"] ++ [endMarker])).runWithin 5 = some (.ok (), {
      table := (ofGrammar Grammar.nested none).table
      input := []
      frames := [⟨.marker "S", 1⟩]
      subtrees := [.node "S" [.leaf "(", .node "S" [], .leaf ")"]]
      phase := .done
      stats := ⟨2, 2⟩ }) := by decide +kernel

/-- One pair of parentheses with nothing in between. -/
theorem run_leaves_nested : ∃ b c, ofText "S -> ( S )\nS ->" none = .ok b ∧
    (Context.new b.table (["(", ")"] ++ [endMarker])).runWithin 5 = some (.ok (), c) ∧
    ∃ t, c.forest = [t] ∧ t.leaves.filter (· ∈ b.source.terminals.names) = ["(", ")"] ∧
      t.leaves.length = 2 + t.emptyNodes := by
  obtain ⟨t, hforest, hfilter, -, hlength, -⟩ := run_leaves ofText_nested run_parens
  exact ⟨_, _, ofText_nested, run_parens, t, hforest, hfilter, hlength⟩

/-- The nonterminal that derives nothing stands among the leaves of the accepted tree. -/
theorem run_leaves_ne : ∃ b c t, ofText "S -> ( S )\nS ->" none = .ok b ∧
    (Context.new b.table (["(", ")"] ++ [endMarker])).runWithin 5 = some (.ok (), c) ∧
    c.forest = [t] ∧ t.leaves = ["(", "S", ")"] ∧ t.leaves ≠ ["(", ")"] :=
  ⟨_, _, _, ofText_nested, run_parens, rfl, by decide +kernel, by decide +kernel⟩

end Build

end ShiftReduce
