import ShiftReduce.Proofs.Grammar.WellFormed
import ShiftReduce.Tree.Basic

/-!
# Derivation trees

The leaves of a derivation tree are terminals, and every other node is an instance of a production:
its children are named by the symbols of the right-hand side, and there are none if the production
is empty. A name tells terminals from nonterminals, so the terminals that a tree derives can be read
off without the grammar: `yield` lists them, and a node for an empty production contributes nothing.
-/

namespace ShiftReduce

namespace Tree

mutual

/-- The terminals of a tree from left to right. -/
def yield : Tree → List String
  | node n cs => if Grammar.isNonterminal n then forestYield cs else [n]

/-- The terminals of a forest from left to right. -/
def forestYield : List Tree → List String
  | [] => []
  | t :: ts => yield t ++ forestYield ts

end

mutual

/-- The number of nodes of a tree that are named by nonterminals. -/
def expansions : Tree → ℕ
  | node n cs => (Grammar.isNonterminal n).toNat + forestExpansions cs

/-- The number of nodes of a forest that are named by nonterminals. -/
def forestExpansions : List Tree → ℕ
  | [] => 0
  | t :: ts => expansions t + forestExpansions ts

end

/-- Two forests derive what they derive one after the other. -/
@[simp] theorem forestYield_append (ts us : List Tree) :
    forestYield (ts ++ us) = forestYield ts ++ forestYield us := by
  induction ts with
  | nil => rfl
  | cons t ts ih => rw [List.cons_append, forestYield, ih, forestYield, List.append_assoc]

/-- The nodes of two forests are counted together. -/
@[simp] theorem forestExpansions_append (ts us : List Tree) :
    forestExpansions (ts ++ us) = forestExpansions ts + forestExpansions us := by
  induction ts with
  | nil => simp [forestExpansions]
  | cons t ts ih => rw [List.cons_append, forestExpansions, ih, forestExpansions, Nat.add_assoc]

/-- A forest derives what its trees derive. -/
theorem mem_forestYield {ts : List Tree} {a : String} :
    a ∈ forestYield ts ↔ ∃ t ∈ ts, a ∈ t.yield := by
  induction ts with
  | nil => simp [forestYield]
  | cons t ts ih => simp [forestYield, ih]

/-- A forest of one tree derives what the tree derives. -/
@[simp] theorem forestYield_singleton (t : Tree) : forestYield [t] = yield t := by
  simp [forestYield]

/-- A forest of one tree has the nodes of the tree. -/
@[simp] theorem forestExpansions_singleton (t : Tree) : forestExpansions [t] = expansions t := by
  simp [forestExpansions]

@[simp] theorem name_leaf (a : String) : (leaf a).name = a := rfl

@[simp] theorem name_node (a : String) (cs : List Tree) : (node a cs).name = a := rfl

/-- A tree that the productions of a grammar allow. -/
inductive IsDerivation (g : Grammar) : Tree → Prop
  /-- A terminal has no children. -/
  | leaf {a : String} (ha : a ∈ g.terminals.names) : IsDerivation g (.leaf a)
  /-- The children of a nonterminal spell a right-hand side. -/
  | node {p : Production} {cs : List Tree} (hp : p ∈ g.productions)
      (hcs : cs.map name = p.rhs.map g.name) (h : ∀ c ∈ cs, IsDerivation g c) :
      IsDerivation g (.node (g.name (.nonterminal p.lhs)) cs)

/-- The tree derives something from the symbol. -/
structure Spells (g : Grammar) (s : Symbol) (t : Tree) : Prop where
  name_eq : t.name = g.name s
  isDerivation : t.IsDerivation g

variable {g : Grammar}

/-! ## Leaves -/

/-- The leaf of a terminal derives the terminal. -/
theorem spells_leaf {t : ℕ} (ht : g.InRange (.terminal t)) :
    Spells g (.terminal t) (leaf (g.name (.terminal t))) where
  name_eq := rfl
  isDerivation := .leaf (Vocabulary.mem_of_name? (Grammar.name?_of_inRange_terminal ht))

/-- A leaf of a terminal derives it. -/
theorem yield_leaf_name (hg : g.WellFormed) {t : ℕ} (ht : g.InRange (.terminal t)) :
    yield (leaf (g.name (.terminal t))) = [g.name (.terminal t)] := by
  simp [leaf, yield, hg.isNonterminal_name_terminal ht]

/-- A leaf of a terminal is no node of a nonterminal. -/
theorem expansions_leaf_name (hg : g.WellFormed) {t : ℕ} (ht : g.InRange (.terminal t)) :
    expansions (leaf (g.name (.terminal t))) = 0 := by
  simp [leaf, expansions, forestExpansions, hg.isNonterminal_name_terminal ht]

/-! ## Nodes -/

/-- As many trees as a right-hand side has symbols can be taken off a stack of trees. -/
theorem exists_children {n : ℕ} (trees : List Tree) (h : n ≤ trees.length) :
    ∃ children trees' : List Tree, children.length = n ∧ trees = children.reverse ++ trees' := by
  refine ⟨(trees.take n).reverse, trees.drop n, ?_, ?_⟩
  · rw [List.length_reverse, List.length_take, Nat.min_eq_left h]
  · rw [List.reverse_reverse, List.take_append_drop]

/-- Trees that spell symbols have their names. -/
theorem map_name_of_spells {ss : List Symbol} {ts : List Tree}
    (h : List.Forall₂ (Spells g) ss ts) : ts.map name = ss.map g.name := by
  induction h with
  | nil => rfl
  | cons h _ ih => rw [List.map_cons, List.map_cons, ih, h.name_eq]

/-- Trees that spell symbols of a grammar are derivation trees of it. -/
theorem isDerivation_of_spells {ss : List Symbol} {ts : List Tree}
    (h : List.Forall₂ (Spells g) ss ts) : ∀ t ∈ ts, t.IsDerivation g := by
  induction h with
  | nil => simp
  | cons h _ ih => simpa using ⟨h.isDerivation, ih⟩

/-- Trees for the symbols of a right-hand side make a tree for the left-hand side. -/
theorem spells_node {p : Production} (hp : p ∈ g.productions) {cs : List Tree}
    (h : List.Forall₂ (Spells g) p.rhs cs) :
    Spells g (.nonterminal p.lhs) (node (g.name (.nonterminal p.lhs)) cs) where
  name_eq := rfl
  isDerivation := .node hp (map_name_of_spells h) (isDerivation_of_spells h)

/-- A node of a nonterminal derives what its children derive. -/
theorem yield_node_name (hg : g.WellFormed) {n : ℕ} (hn : g.InRange (.nonterminal n))
    (cs : List Tree) : yield (node (g.name (.nonterminal n)) cs) = forestYield cs := by
  simp [yield, hg.isNonterminal_name_nonterminal hn]

/-- A node of a nonterminal counts once, and its children besides. -/
theorem expansions_node_name (hg : g.WellFormed) {n : ℕ} (hn : g.InRange (.nonterminal n))
    (cs : List Tree) :
    expansions (node (g.name (.nonterminal n)) cs) = forestExpansions cs + 1 := by
  simp [expansions, hg.isNonterminal_name_nonterminal hn, Nat.add_comm]

/-- A derivation tree derives terminals. -/
theorem IsDerivation.mem_terminals (hg : g.WellFormed) {t : Tree} (h : t.IsDerivation g) :
    ∀ a ∈ t.yield, a ∈ g.terminals.names := by
  induction h with
  | @leaf a ha =>
    intro b hb
    -- the name of a leaf is not that of a nonterminal, so the leaf derives its name
    have hlower := hg.isNonterminal_terminal a ha
    rw [Tree.leaf, yield, hlower] at hb
    obtain rfl : b = a := by simpa using hb
    exact ha
  | @node p cs hp _ _ ih =>
    have hlhs : g.InRange (.nonterminal p.lhs) := hg.lhs_lt p hp
    rw [yield_node_name hg hlhs]
    intro b hb
    obtain ⟨c, hc, hb⟩ := mem_forestYield.1 hb
    exact ih c hc b hb

/-- The empty node derives the empty nesting. -/
theorem isDerivation_nested_empty : IsDerivation .nested (.node "S" []) :=
  .node (p := ⟨0, []⟩) (by decide) rfl (by simp)

/-- One pair of parentheses. -/
theorem isDerivation_nested :
    IsDerivation .nested (.node "S" [.leaf "(", .node "S" [], .leaf ")"]) := by
  refine .node (p := ⟨0, [.terminal 0, .nonterminal 0, .terminal 1]⟩) (by decide) rfl ?_
  intro c hc
  simp only [List.mem_cons, List.not_mem_nil, or_false] at hc
  rcases hc with rfl | rfl | rfl
  · exact .leaf (by decide)
  · exact isDerivation_nested_empty
  · exact .leaf (by decide)

end Tree

/-- The terminals can be derived from the start symbol. -/
def Grammar.IsSentence (g : Grammar) (w : List String) : Prop :=
  ∃ t : Tree, t.Spells g (.nonterminal g.start) ∧ t.yield = w

end ShiftReduce
