import ShiftReduce.Proofs.Automaton.Conflicts

/-!
# The one state that accepts

No transition leads back to the start state, since what a transition leads to holds an item whose
dot has been moved. As nothing waits for the synthetic start symbol, its item stands in the start
state alone, and the complete one only behind the start symbol of the grammar: that state, and no
other, accepts (`action?_eq_accept_iff`). The complete start item is the first one there, so that
no other action can take the place of acceptance.
-/

namespace ShiftReduce

namespace Kernel

variable {ps : List Production} {items : List Item} {s : Symbol} {j : Item}

/-- What a transition holds has a dot that was moved. -/
theorem dot_ne_zero_of_mem_advance (h : j ∈ advance ps items s) : j.dot ≠ 0 := by
  obtain ⟨i, -, -, rfl⟩ := mem_advance.1 h
  exact Nat.succ_ne_zero i.dot

/-- Where the dots have all been moved, the item behind the start symbol comes first. -/
theorem head?_members {k : Kernel} (hdots : ∀ i ∈ k, i.dot ≠ 0) (h : (⟨0, 1⟩ : Item) ∈ k) :
    k.members.head? = some ⟨0, 1⟩ := by
  have hascending := k.ascending
  rw [OrderedSet.mem_def] at h
  cases hmembers : k.members with
  | nil => simp [hmembers] at h
  | cons i rest =>
    rw [hmembers] at h hascending
    rcases List.mem_cons.1 h with rfl | hrest
    · rfl
    · -- an earlier item would have its dot in front
      have hlt := (List.pairwise_cons.1 hascending).1 _ hrest
      have hlt : (compare i.production 0).then (compare i.dot 1) = .lt := hlt
      have hmem : i ∈ k := by
        rw [OrderedSet.mem_def, hmembers]
        exact List.mem_cons_self
      have hdot : i.dot ≠ 0 := hdots i hmem
      rw [Ordering.then_eq_lt, Nat.compare_eq_lt, Nat.compare_eq_lt] at hlt
      omega

end Kernel

namespace Automaton

variable {g : Augmented} {sets : Sets} {q r t : ℕ} {s : Symbol}

/-- No transition leads back to the start state. -/
theorem target?_ne_zero (hps : g.productions ≠ []) (h : (build g sets).target? q s = some r) :
    r ≠ 0 := by
  rintro rfl
  obtain ⟨k, -, ⟨i, hi, hs⟩, hr⟩ := (target?_eq_some_iff hps).1 h
  rw [Kernel.collection_zero hps] at hr
  have hmem : i.advance ∈ Kernel.initial := by
    rw [Option.some.inj hr]
    exact Kernel.mem_advance.2 ⟨i, hi, hs, rfl⟩
  rw [Kernel.initial, OrderedSet.mem_singleton] at hmem
  exact Nat.succ_ne_zero _ (congrArg Item.dot hmem)

/-- A transition leads to every state but the start state. -/
theorem exists_target?_eq (hps : g.productions ≠ []) (hq : q < (build g sets).states.length)
    (hne : q ≠ 0) : ∃ p s, (build g sets).target? p s = some q := by
  rw [length_states] at hq
  have hk := List.getElem?_eq_getElem hq
  set k := (Kernel.collection g.productions)[q] with hkdef
  rcases ((Kernel.mem_collection_iff hps).1 (List.mem_of_getElem? hk)).cases_tail with
    hinitial | ⟨k', hk', hlead⟩
  · -- the kernel of the start state is found once
    rw [hinitial, ← Kernel.collection_zero hps] at hk
    exact absurd ((List.getElem?_inj hq (Kernel.nodup_collection hps)).1 hk) hne
  · obtain ⟨p, hp, hget⟩ := List.getElem_of_mem ((Kernel.mem_collection_iff hps).2 hk')
    obtain ⟨s, hwait, hadvance⟩ := Kernel.leads_iff.1 hlead
    refine ⟨p, s, (target?_eq_some_iff hps).2 ⟨k', ?_, hwait, ?_⟩⟩
    · rw [List.getElem?_eq_getElem hp, hget]
    · rw [hadvance, hk]

end Automaton

namespace Grammar

open Automaton

variable {g : Grammar} {q t : ℕ}

/-- Nothing waits for the synthetic start symbol, so nothing predicts its item. -/
theorem Indexed.not_predicts_start (hg : g.Indexed) (i : Item) :
    ¬ Kernel.Predicts g.augment.productions i (Item.start 0) := by
  intro h
  obtain ⟨p, hnext, hp, -⟩ := Kernel.predicts_iff.1 h
  obtain rfl : (⟨g.augment.start, [.nonterminal g.start]⟩ : Production) = p := Option.some.inj hp
  obtain ⟨p', hp', hmem⟩ := Item.next?_eq_some_iff.1 hnext
  exact hg.start_notMem (List.mem_of_getElem? hp') (List.mem_of_getElem? hmem)

/-- The start item stands in the start state alone. -/
theorem Indexed.start_mem_itemsAt_iff (hg : g.Indexed) :
    Item.start 0 ∈ g.automaton.itemsAt q ↔ q = 0 := by
  have hps := g.productions_augment_ne_nil
  constructor
  · intro h
    by_contra hne
    obtain ⟨k, hk, -⟩ := mem_itemsAt.1 h
    have hq := (List.getElem?_eq_some_iff.1 hk).1
    rw [← length_states g.augment (.solve g.augment)] at hq
    obtain ⟨p, s, htarget⟩ := exists_target?_eq hps hq hne
    rcases mem_itemsAt_of_target? hps htarget h with ⟨i, -, -, hi⟩ | ⟨i, -, hi⟩
    · exact Nat.succ_ne_zero _ (congrArg Item.dot hi)
    · exact hg.not_predicts_start i hi
  · rintro rfl
    exact start_mem_itemsAt_zero hps

/-- The start item waits for the start symbol of the grammar. -/
theorem next?_start (g : Grammar) :
    (Item.start 0).next? g.augment.productions = some (.nonterminal g.start) := rfl

/-- The complete start item stands behind the start symbol of the grammar alone. -/
theorem Indexed.complete_start_mem_itemsAt_iff (hg : g.Indexed) :
    ⟨0, 1⟩ ∈ g.automaton.itemsAt q ↔
      g.automaton.target? 0 (.nonterminal g.start) = some q := by
  have hps := g.productions_augment_ne_nil
  constructor
  · intro h
    obtain ⟨k, hk, -⟩ := mem_itemsAt.1 h
    have hq := (List.getElem?_eq_some_iff.1 hk).1
    rw [← length_states g.augment (.solve g.augment)] at hq
    have hne : q ≠ 0 := by
      rintro rfl
      rcases mem_itemsAt_zero hps h with hstart | ⟨i, -, hi⟩
      · exact Nat.one_ne_zero (congrArg Item.dot hstart)
      · exact Nat.one_ne_zero hi.dot_eq_zero
    obtain ⟨p, s, htarget⟩ := exists_target?_eq hps hq hne
    rcases mem_itemsAt_of_target? hps htarget h with ⟨i, hi, hs, hadvance⟩ | ⟨i, -, hi⟩
    · -- the transition moved the dot over the start symbol, which only the start state waits for
      have hproduction : i.production = 0 := congrArg Item.production hadvance
      have hdot : i.dot + 1 = 1 := congrArg Item.dot hadvance
      obtain rfl : i = Item.start 0 := Item.ext hproduction (Nat.succ.inj hdot)
      obtain rfl := hg.start_mem_itemsAt_iff.1 hi
      obtain rfl := Option.some.inj (hs.symm.trans g.next?_start)
      exact htarget
    · exact absurd hi.dot_eq_zero Nat.one_ne_zero
  · intro h
    obtain ⟨r, hr, hmem⟩ := exists_target? hps (start_mem_itemsAt_zero hps) g.next?_start
    obtain rfl := Option.some.inj (h.symm.trans hr)
    exact hmem

/-- Behind the start symbol the complete start item is the first one. -/
theorem itemsAt_eq_cons (h : g.automaton.target? 0 (.nonterminal g.start) = some q) :
    ∃ rest, g.automaton.itemsAt q = ⟨0, 1⟩ :: rest := by
  obtain ⟨k, hk, -, hq⟩ := (target?_eq_some_iff g.productions_augment_ne_nil).1 h
  set k' := Kernel.advance g.augment.productions (k.closure g.augment.productions)
    (.nonterminal g.start)
  have hzero := Kernel.collection_zero g.productions_augment_ne_nil
  obtain rfl := Option.some.inj (hzero.symm.trans hk)
  have hmem : (⟨0, 1⟩ : Item) ∈ k' := by
    refine Kernel.mem_advance.2 ⟨Item.start 0, ?_, g.next?_start, rfl⟩
    exact Kernel.mem_closure_of_mem (OrderedSet.mem_singleton.2 rfl)
  have hhead := Kernel.head?_members (fun i => Kernel.dot_ne_zero_of_mem_advance) hmem
  obtain ⟨members, hmembers⟩ := List.head?_eq_some_iff.1 hhead
  obtain ⟨predicted, hclosure⟩ := Kernel.members_prefix_closure g.augment.productions k'
  refine ⟨members ++ predicted, ?_⟩
  rw [itemsAt, getElem?_states, hq, ← List.cons_append, ← hmembers, hclosure]
  rfl

/-- The state behind the start symbol accepts at the end marker, and nothing else accepts. -/
theorem Indexed.action?_eq_accept_iff (hg : g.Indexed) :
    g.automaton.action? q t = some .accept ↔
      g.automaton.target? 0 (.nonterminal g.start) = some q ∧
        t = g.augment.endMarker := by
  constructor
  · intro h
    have hp : g.augment.productions[0]? = some ⟨g.augment.start, [.nonterminal g.start]⟩ := rfl
    obtain ⟨hi, ht⟩ := (candidate_accept_iff hp).1 (candidate_of_action? h)
    exact ⟨hg.complete_start_mem_itemsAt_iff.1 hi, ht⟩
  · rintro ⟨htarget, rfl⟩
    obtain ⟨rest, hitems⟩ := itemsAt_eq_cons htarget
    exact action?_eq_some_iff.2 ⟨[], ⟨0, 1⟩, rest, hitems, .accept rfl rfl rfl, by simp⟩

end Grammar

end ShiftReduce
