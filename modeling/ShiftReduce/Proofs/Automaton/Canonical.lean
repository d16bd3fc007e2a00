import Mathlib.Order.Bounds.Basic
import ShiftReduce.Proofs.Table.Emission

/-!
# The automaton is the canonical collection

The kernels of the automaton are the least set of kernels that holds the start kernel and, with
every kernel, what its transitions lead to (`isLeast_collection`). Each kernel is one state, and a
state has a transition on a symbol exactly if one of its items waits for the symbol.
-/

namespace ShiftReduce

/-- A set that is not empty has a member. -/
theorem OrderedSet.ne_empty_iff {α : Type} [Ord α] [Std.TransOrd α] {s : OrderedSet α} :
    s ≠ ∅ ↔ ∃ a, a ∈ s := by
  constructor
  · intro h
    by_contra hnone
    refine h (OrderedSet.ext_mem fun a => ?_)
    exact ⟨fun ha => absurd ⟨a, ha⟩ hnone, fun ha => absurd ha (notMem_empty a)⟩
  · rintro ⟨a, ha⟩ rfl
    exact notMem_empty a ha

namespace Kernel

variable {ps : List Production} {k : Kernel} {items : List Item} {s : Symbol}

/-- There is a transition on the symbols that items wait for. -/
theorem advance_ne_empty_iff : advance ps items s ≠ ∅ ↔ ∃ i ∈ items, i.next? ps = some s := by
  rw [OrderedSet.ne_empty_iff]
  constructor
  · rintro ⟨j, hj⟩
    obtain ⟨i, hi, hs, -⟩ := mem_advance.1 hj
    exact ⟨i, hi, hs⟩
  · rintro ⟨i, hi, hs⟩
    exact ⟨i.advance, mem_advance.2 ⟨i, hi, hs, rfl⟩⟩

/-- A set of kernels that holds the start kernel and, with every kernel, what its transitions lead
to. -/
structure ClosedUnderTransitions (ps : List Production) (K : Set Kernel) : Prop where
  initial_mem : initial ∈ K
  advance_mem : ∀ k ∈ K, ∀ s, advance ps (k.closure ps) s ≠ ∅ → advance ps (k.closure ps) s ∈ K

/-- The collection is the least set of kernels that is closed under transitions. -/
theorem isLeast_collection (hps : ps ≠ []) :
    IsLeast {K | ClosedUnderTransitions ps K} {k | k ∈ collection ps} := by
  refine ⟨⟨?_, ?_⟩, ?_⟩
  · exact List.mem_of_getElem? (collection_zero hps)
  · intro k hk s hs
    exact mem_collection_of_leads hps hk (leads_iff.2 ⟨s, advance_ne_empty_iff.1 hs, rfl⟩)
  · intro K hK k hk
    have hreach := (mem_collection_iff hps).1 hk
    clear hk
    -- a kernel is reached by transitions, and `K` is not left by any of them
    induction hreach with
    | refl => exact hK.initial_mem
    | tail _ hlead ih =>
      obtain ⟨s, hs, rfl⟩ := leads_iff.1 hlead
      exact hK.advance_mem _ ih s (advance_ne_empty_iff.2 hs)

/-- Every kernel of the collection holds an item: the start item, or one that a transition moved
on. -/
theorem ne_empty_of_mem_collection (hps : ps ≠ []) (hk : k ∈ collection ps) : k ≠ ∅ := by
  rcases ((mem_collection_iff hps).1 hk).cases_tail with rfl | ⟨k', -, hlead⟩
  · exact OrderedSet.ne_empty_iff.2 ⟨Item.start 0, OrderedSet.mem_singleton.2 rfl⟩
  · obtain ⟨s, hs, rfl⟩ := leads_iff.1 hlead
    exact advance_ne_empty_iff.2 hs

end Kernel

namespace Automaton

/-- The kernels of the states, in the order of the states. -/
def kernels (a : Automaton) : List Kernel := a.states.map (·.kernel)

/-- The states are the canonical collection of a grammar, with its transitions. -/
structure Canonical (g : Grammar) (a : Automaton) : Prop where
  /-- The search for kernels ends with those of the states. -/
  searches : Kernel.Searches g.augment.productions 0 [Kernel.initial] a.kernels
  /-- State 0 is made from the start item of the start production. -/
  start : g.augment.productions[0]? = some ⟨g.augment.start, [.nonterminal g.start]⟩ ∧
    a.kernels[0]? = some {Item.start 0}
  ne_empty : ∀ k ∈ a.kernels, k ≠ ∅
  nodup : a.kernels.Nodup
  isLeast : IsLeast {K | Kernel.ClosedUnderTransitions g.augment.productions K} {k | k ∈ a.kernels}
  /-- The items of a state are the closure of its kernel. -/
  items_eq : ∀ st ∈ a.states, st.items = st.kernel.closure g.augment.productions
  /-- A state has a transition where advancing its items yields something. -/
  transition_iff : ∀ q k s, a.kernels[q]? = some k →
    ((∃ r, a.target? q s = some r) ↔
      Kernel.advance g.augment.productions (k.closure g.augment.productions) s ≠ ∅)
  /-- The transition leads to the state of the advanced items. -/
  target_kernel : ∀ q k s r, a.kernels[q]? = some k → a.target? q s = some r →
    a.kernels[r]? =
      some (Kernel.advance g.augment.productions (k.closure g.augment.productions) s)
  /-- No symbol has two transitions, and the targets by nonterminal are the transitions on
  nonterminals. -/
  goto_eq : ∀ st ∈ a.states, (st.edges.map Prod.fst).Nodup ∧ (st.goto.map Prod.fst).Nodup ∧
    ∀ n r, (n, r) ∈ st.goto ↔ (.nonterminal n, r) ∈ st.edges

variable {g : Augmented} {sets : Sets}

/-- The states of the automaton are made from the kernels of the collection, in their order. -/
theorem kernels_build (g : Augmented) (sets : Sets) :
    (build g sets).kernels = Kernel.collection g.productions := by
  refine List.ext_getElem? fun q => ?_
  rw [kernels, List.getElem?_map, getElem?_states, Option.map_map]
  exact Option.map_id'

end Automaton

open Automaton in
/-- The automaton of a grammar is its canonical collection. -/
theorem Grammar.automaton_canonical (g : Grammar) : Canonical g g.automaton where
  searches := by
    rw [kernels_build]
    exact Kernel.searches_collection g.productions_augment_ne_nil
  start := ⟨rfl, by rw [kernels_build]; exact Kernel.collection_zero g.productions_augment_ne_nil⟩
  ne_empty := by
    rw [kernels_build]
    exact fun k => Kernel.ne_empty_of_mem_collection g.productions_augment_ne_nil
  nodup := by
    rw [kernels_build]
    exact Kernel.nodup_collection g.productions_augment_ne_nil
  isLeast := by
    rw [kernels_build]
    exact Kernel.isLeast_collection g.productions_augment_ne_nil
  items_eq := by
    intro st hst
    obtain ⟨q, k, rfl⟩ := exists_stateOf hst
    rfl
  transition_iff := by
    intro q k s hk
    rw [kernels_build] at hk
    rw [Kernel.advance_ne_empty_iff]
    constructor
    · rintro ⟨r, hr⟩
      obtain ⟨i, hi, hs⟩ := exists_item_of_target? g.productions_augment_ne_nil hr
      obtain ⟨k', hk', hi⟩ := mem_itemsAt.1 hi
      obtain rfl := Option.some.inj (hk.symm.trans hk')
      exact ⟨i, hi, hs⟩
    · rintro ⟨i, hi, hs⟩
      obtain ⟨r, hr, -⟩ :=
        exists_target? g.productions_augment_ne_nil (mem_itemsAt.2 ⟨k, hk, hi⟩) hs
      exact ⟨r, hr⟩
  target_kernel := by
    intro q k s r hk hr
    rw [kernels_build] at hk ⊢
    obtain ⟨k', hk', -, hr⟩ := (target?_eq_some_iff g.productions_augment_ne_nil).1 hr
    obtain rfl := Option.some.inj (hk.symm.trans hk')
    exact hr
  goto_eq := by
    intro st hst
    have hedges := nodup_edges hst
    rw [Automaton.goto_eq hst]
    exact ⟨hedges, Build.nodup_nonterminals hedges, fun n r => mem_nonterminals⟩

end ShiftReduce
