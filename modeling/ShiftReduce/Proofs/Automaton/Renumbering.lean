import ShiftReduce.Proofs.Automaton.Conflicts
import ShiftReduce.Proofs.Sets.Exact

/-!
# Renumbering a grammar

The productions and the symbols of a grammar can be numbered in another way without changing what
the grammar says. A renumbering carries items to items, kernels to kernels and transitions to
transitions, so both automata have as many states (`length_states_eq`). It carries what can be
derived along as well, hence the FOLLOW sets, and with them what the items of a state ask for: a
cell has two candidates in one automaton if it has two in the other (`conflicts_eq_nil_iff`).
-/

namespace ShiftReduce

/-- An augmented grammar has productions. -/
theorem Augmented.productions_ne_nil (g : Augmented) : g.productions ≠ [] :=
  g.grammar.productions_ne_nil

/-- The symbol with another number. -/
def Symbol.renumber (terminal nonterminal : ℕ → ℕ) : Symbol → Symbol
  | .terminal t => .terminal (terminal t)
  | .nonterminal n => .nonterminal (nonterminal n)

/-- The production with other numbers for its symbols. -/
def Production.renumber (terminal nonterminal : ℕ → ℕ) (p : Production) : Production where
  lhs := nonterminal p.lhs
  rhs := p.rhs.map (Symbol.renumber terminal nonterminal)

/-- Other numbers for the productions and symbols of `g`, under which it is `g'`. The start
production stays in front. -/
structure Renumbering (g g' : Augmented) where
  production : Equiv.Perm ℕ
  terminal : Equiv.Perm ℕ
  nonterminal : Equiv.Perm ℕ
  production_zero : production 0 = 0
  start_eq : nonterminal g.start = g'.start
  endMarker_eq : terminal g.endMarker = g'.endMarker
  getElem?_production : ∀ n, g'.productions[production n]? =
    g.productions[n]?.map (Production.renumber terminal nonterminal)

namespace Renumbering

open Kernel Automaton

variable {g g' : Augmented} (ρ : Renumbering g g') {i j : Item} {k k' : Kernel} {n t : ℕ}
  {s : Symbol} {φ ψ : List Symbol}

/-! ## What is renumbered -/

/-- The symbol of the other grammar. -/
def symbol : Symbol → Symbol := Symbol.renumber ρ.terminal ρ.nonterminal

/-- The item of the other grammar. -/
def item (i : Item) : Item := ⟨ρ.production i.production, i.dot⟩

/-- The kernel of the other grammar. -/
def kernel (k : Kernel) : Kernel := .ofList (k.members.map ρ.item)

@[simp] theorem symbol_terminal (t : ℕ) : ρ.symbol (.terminal t) = .terminal (ρ.terminal t) := rfl

@[simp] theorem symbol_nonterminal (n : ℕ) :
    ρ.symbol (.nonterminal n) = .nonterminal (ρ.nonterminal n) := rfl

@[simp] theorem production_item (i : Item) :
    (ρ.item i).production = ρ.production i.production := rfl

@[simp] theorem dot_item (i : Item) : (ρ.item i).dot = i.dot := rfl

/-- The renumbered kernel holds the renumbered items. -/
theorem mem_kernel : j ∈ ρ.kernel k ↔ ∃ i ∈ k, ρ.item i = j := by
  rw [kernel, OrderedSet.mem_ofList, List.mem_map]
  rfl

/-- A production that is numbered in `g` is numbered in `g'`. -/
theorem getElem?_renumber {p : Production} (hp : g.productions[n]? = some p) :
    g'.productions[ρ.production n]? = some (p.renumber ρ.terminal ρ.nonterminal) := by
  rw [ρ.getElem?_production, hp]
  rfl

/-- A renumbered production is a production of the other grammar. -/
theorem mem_productions {p : Production} (hp : p ∈ g.productions) :
    p.renumber ρ.terminal ρ.nonterminal ∈ g'.productions := by
  obtain ⟨n, hn⟩ := List.mem_iff_getElem?.1 hp
  exact List.mem_of_getElem? (ρ.getElem?_renumber hn)

/-! ## The renumbering in the other direction -/

/-- Renumbering back and forth leaves a symbol as it was. -/
theorem renumber_symm_renumber (terminal nonterminal : Equiv.Perm ℕ) (s : Symbol) :
    (s.renumber terminal.symm nonterminal.symm).renumber terminal nonterminal = s := by
  cases s <;> simp [Symbol.renumber]

/-- The renumbering back. -/
def symm : Renumbering g' g where
  production := ρ.production.symm
  terminal := ρ.terminal.symm
  nonterminal := ρ.nonterminal.symm
  production_zero := by rw [Equiv.symm_apply_eq, ρ.production_zero]
  start_eq := by rw [Equiv.symm_apply_eq, ρ.start_eq]
  endMarker_eq := by rw [Equiv.symm_apply_eq, ρ.endMarker_eq]
  getElem?_production n := by
    have h := ρ.getElem?_production (ρ.production.symm n)
    rw [Equiv.apply_symm_apply] at h
    rw [h, Option.map_map]
    have hid : Production.renumber ρ.terminal.symm ρ.nonterminal.symm ∘
        Production.renumber ρ.terminal ρ.nonterminal = id := by
      funext p
      have hsymbol := renumber_symm_renumber ρ.terminal.symm ρ.nonterminal.symm
      simp only [Equiv.symm_symm] at hsymbol
      simp [Production.renumber, Function.comp_def, hsymbol]
    rw [hid, Option.map_id_fun, id]

/-- Symbols that are numbered back get their new numbers again. -/
@[simp] theorem symbol_symm_symbol (s : Symbol) : ρ.symbol (ρ.symm.symbol s) = s :=
  renumber_symm_renumber ρ.terminal ρ.nonterminal s

/-- Items that are numbered back get their new numbers again. -/
@[simp] theorem item_symm_item (i : Item) : ρ.item (ρ.symm.item i) = i :=
  Item.ext (ρ.production.apply_symm_apply i.production) rfl

/-- Items get their old numbers when they are numbered back. -/
@[simp] theorem symm_item_item (i : Item) : ρ.symm.item (ρ.item i) = i := ρ.symm.item_symm_item i

/-- Symbols get their old numbers when they are numbered back. -/
@[simp] theorem symm_symbol_symbol (s : Symbol) : ρ.symm.symbol (ρ.symbol s) = s :=
  ρ.symm.symbol_symm_symbol s

/-- Kernels get their old numbers when they are numbered back. -/
@[simp] theorem symm_kernel_kernel (k : Kernel) : ρ.symm.kernel (ρ.kernel k) = k := by
  refine OrderedSet.ext_mem fun i => ?_
  rw [mem_kernel]
  constructor
  · rintro ⟨j, hj, rfl⟩
    obtain ⟨i, hi, rfl⟩ := ρ.mem_kernel.1 hj
    rwa [symm_item_item]
  · intro hi
    exact ⟨ρ.item i, ρ.mem_kernel.2 ⟨i, hi, rfl⟩, ρ.symm_item_item i⟩

/-! ## Items and kernels -/

/-- A renumbered item is about the renumbered right-hand side. -/
theorem rhs_item (i : Item) :
    (ρ.item i).rhs g'.productions = (i.rhs g.productions).map ρ.symbol := by
  rw [Item.rhs, Item.rhs, production_item, ρ.getElem?_production]
  cases g.productions[i.production]? <;> rfl

/-- A renumbered item waits for the renumbered symbol. -/
theorem next?_item (i : Item) :
    (ρ.item i).next? g'.productions = (i.next? g.productions).map ρ.symbol := by
  rw [Item.next?, Item.next?, rhs_item, dot_item, List.getElem?_map]

/-- Renumbered items predict each other as before. -/
theorem predicts_item (h : Predicts g.productions i j) :
    Predicts g'.productions (ρ.item i) (ρ.item j) := by
  obtain ⟨p, hnext, hp, hdot⟩ := predicts_iff.1 h
  refine predicts_iff.2 ⟨_, ?_, ρ.getElem?_renumber hp, hdot⟩
  rw [next?_item, hnext]
  rfl

/-- The closure of the renumbered kernel holds the renumbered items of the closure. -/
theorem item_mem_closure (h : i ∈ k.closure g.productions) :
    ρ.item i ∈ (ρ.kernel k).closure g'.productions := by
  obtain ⟨a, ha, hai⟩ := mem_closure_iff.1 h
  refine mem_closure_iff.2 ⟨ρ.item a, ρ.mem_kernel.2 ⟨a, ha, rfl⟩, ?_⟩
  exact Relation.ReflTransGen.lift ρ.item (fun _ _ h => ρ.predicts_item h) _ _ hai

/-- An item of a renumbered closure is that of an item of the closure. -/
theorem exists_of_mem_closure (h : j ∈ (ρ.kernel k).closure g'.productions) :
    ∃ i ∈ k.closure g.productions, ρ.item i = j := by
  have hback := ρ.symm.item_mem_closure h
  rw [symm_kernel_kernel] at hback
  exact ⟨_, hback, ρ.item_symm_item j⟩

/-- Advancing items and renumbering them can be exchanged. -/
theorem kernel_advance (k : Kernel) (s : Symbol) :
    ρ.kernel (Kernel.advance g.productions (k.closure g.productions) s) =
      Kernel.advance g'.productions ((ρ.kernel k).closure g'.productions) (ρ.symbol s) := by
  refine OrderedSet.ext_mem fun j => ?_
  rw [mem_kernel, mem_advance]
  constructor
  · rintro ⟨_, hadvance, rfl⟩
    obtain ⟨i, hi, hs, rfl⟩ := mem_advance.1 hadvance
    refine ⟨ρ.item i, ρ.item_mem_closure hi, ?_, rfl⟩
    rw [next?_item, hs]
    rfl
  · rintro ⟨_, hclosure, hs, rfl⟩
    obtain ⟨i, hi, rfl⟩ := ρ.exists_of_mem_closure hclosure
    rw [next?_item, Option.map_eq_some_iff] at hs
    obtain ⟨s', hs, heq⟩ := hs
    have hs' : s' = s := by
      rw [← ρ.symm_symbol_symbol s', heq, ρ.symm_symbol_symbol]
    exact ⟨i.advance, mem_advance.2 ⟨i, hi, hs' ▸ hs, rfl⟩, rfl⟩

/-- Transitions lead from renumbered kernels to renumbered kernels. -/
theorem leads_kernel (h : Leads g.productions k k') :
    Leads g'.productions (ρ.kernel k) (ρ.kernel k') := by
  obtain ⟨s, ⟨i, hi, hs⟩, rfl⟩ := leads_iff.1 h
  refine leads_iff.2
    ⟨ρ.symbol s, ⟨ρ.item i, ρ.item_mem_closure hi, ?_⟩, (ρ.kernel_advance k s).symm⟩
  rw [next?_item, hs]
  rfl

/-- The start production keeps its number, so the start kernel is the same. -/
theorem kernel_initial : ρ.kernel initial = initial := by
  refine OrderedSet.ext_mem fun j => ?_
  simp only [mem_kernel, initial, OrderedSet.mem_singleton, exists_eq_left]
  rw [item, Item.production_start, ρ.production_zero, eq_comm]
  rfl

/-- Every kernel of the collection is in the other one after renumbering. -/
theorem kernel_mem_collection (h : k ∈ collection g.productions) :
    ρ.kernel k ∈ collection g'.productions := by
  rw [mem_collection_iff g.productions_ne_nil] at h
  rw [mem_collection_iff g'.productions_ne_nil, ← ρ.kernel_initial]
  exact Relation.ReflTransGen.lift ρ.kernel (fun _ _ h => ρ.leads_kernel h) _ _ h

include ρ in
/-- The other automaton has no fewer states, since renumbering keeps kernels apart. -/
theorem length_collection_le :
    (collection g.productions).length ≤ (collection g'.productions).length := by
  have hinj : Function.Injective ρ.kernel := Function.LeftInverse.injective ρ.symm_kernel_kernel
  have hnodup := (nodup_collection g.productions_ne_nil).map hinj
  have hsub : (collection g.productions).map ρ.kernel ⊆ collection g'.productions := by
    intro k' hk'
    obtain ⟨k, hk, rfl⟩ := List.mem_map.1 hk'
    exact ρ.kernel_mem_collection hk
  simpa using (hnodup.subperm hsub).length_le

include ρ in
/-- Both automata have as many states. -/
theorem length_states_eq (sets sets' : Sets) :
    (build g' sets').states.length = (build g sets).states.length := by
  rw [length_states, length_states]
  exact Nat.le_antisymm ρ.symm.length_collection_le ρ.length_collection_le

/-! ## Derivations and FOLLOW -/

/-- A rewriting step is one of the other grammar after renumbering. -/
theorem rewrites (h : Rewrites g.productions φ ψ) :
    Rewrites g'.productions (φ.map ρ.symbol) (ψ.map ρ.symbol) := by
  obtain ⟨hp, before, after⟩ := h
  simp only [List.map_append, List.map_cons]
  exact .step (ρ.mem_productions hp) (before.map ρ.symbol) (after.map ρ.symbol)

/-- What can follow a nonterminal still can after renumbering. -/
theorem follows (h : Follows g n t) : Follows g' (ρ.nonterminal n) (ρ.terminal t) := by
  cases h with
  | inner h =>
    have h : DerivesStrictly g'.productions (List.map ρ.symbol _) (List.map ρ.symbol _) :=
      Relation.TransGen.lift (List.map ρ.symbol) (fun _ _ h => ρ.rewrites h) _ _ h
    simp only [List.map_append, List.map_cons] at h
    exact .inner h
  | last h =>
    have h : Derives g'.productions (List.map ρ.symbol _) (List.map ρ.symbol _) :=
      Relation.ReflTransGen.lift (List.map ρ.symbol) (fun _ _ h => ρ.rewrites h) _ _ h
    simp only [List.map_append, List.map_cons, List.map_nil, symbol_nonterminal,
      ρ.start_eq] at h
    rw [ρ.endMarker_eq]
    exact .last h

/-! ## Candidates -/

/-- What one automaton does where the other one does the same. -/
inductive SameKind : Action → Action → Prop
  | accept : SameKind .accept .accept
  | shift {r r' : ℕ} : SameKind (.shift r) (.shift r')
  | reduce (n : ℕ) : SameKind (.reduce n) (.reduce (ρ.production n))

/-- What an item asks for, the renumbered item asks for. -/
theorem exists_candidate (hg : g.Indexed) (hg' : g'.Indexed) {q q' : ℕ} {act : Action}
    (hk : (collection g.productions)[q]? = some k)
    (hk' : (collection g'.productions)[q']? = some (ρ.kernel k))
    (h : Candidate g (.solve g) q t act) :
    ∃ act', Candidate g' (.solve g') q' (ρ.terminal t) act' ∧ ρ.SameKind act act' := by
  have hitem : ∀ i, i ∈ (build g (.solve g)).itemsAt q →
      ρ.item i ∈ (build g' (.solve g')).itemsAt q' := by
    intro i hi
    obtain ⟨k₁, hk₁, hi⟩ := mem_itemsAt.1 hi
    obtain rfl := Option.some.inj (hk.symm.trans hk₁)
    exact mem_itemsAt.2 ⟨_, hk', ρ.item_mem_closure hi⟩
  cases h with
  | @shift i r hi hnext =>
    have hnext' : (ρ.item i).next? g'.productions = some (.terminal (ρ.terminal t)) := by
      rw [next?_item, hnext]
      rfl
    obtain ⟨r', hr', -⟩ :=
      exists_target? g'.productions_ne_nil (hitem i hi) hnext'
    exact ⟨_, .shift (hitem i hi) hnext' hr', .shift⟩
  | @accept i hi hnext hzero ht =>
    refine ⟨_, .accept (hitem i hi) ?_ ?_ ?_, .accept⟩
    · rw [next?_item, hnext]
      rfl
    · rw [production_item, hzero, ρ.production_zero]
    · rw [ht, ρ.endMarker_eq]
  | @reduce i p hi hnext hzero hp ht =>
    refine ⟨_, .reduce (hitem i hi) ?_ ?_ (ρ.getElem?_renumber hp) ?_, .reduce _⟩
    · rw [next?_item, hnext]
      rfl
    · rw [production_item, ← ρ.production_zero]
      exact fun heq => hzero (ρ.production.injective heq)
    · rw [Sets.mem_followAt_solve_iff hg] at ht
      exact (Sets.mem_followAt_solve_iff hg').2 (ρ.follows ht)

include ρ in
/-- If the other automaton has no conflicts, this one has none: its candidates would collide there
too. -/
theorem conflicts_eq_nil (hg : g.Indexed) (hg' : g'.Indexed)
    (hc : (build g' (.solve g')).conflicts = []) : (build g (.solve g)).conflicts = [] := by
  rw [conflicts_eq_nil_iff] at hc ⊢
  intro q t act act' h h'
  obtain ⟨i, hi, -⟩ := candidate_iff.1 h
  obtain ⟨k, hk, -⟩ := mem_itemsAt.1 hi
  obtain ⟨q', hk'⟩ :=
    List.mem_iff_getElem?.1 (ρ.kernel_mem_collection (List.mem_of_getElem? hk))
  obtain ⟨b, hb, hsame⟩ := ρ.exists_candidate hg hg' hk hk' h
  obtain ⟨b', hb', hsame'⟩ := ρ.exists_candidate hg hg' hk hk' h'
  obtain rfl := hc _ _ _ _ hb hb'
  -- the two ask for the same in the other automaton, so they are of one kind here
  cases hsame with
  | accept =>
    cases hsame' with
    | accept => rfl
  | shift =>
    cases hsame' with
    | shift => rw [h.shift_unique h']
  | reduce n =>
    generalize hm : Action.reduce (ρ.production n) = b at hsame'
    cases hsame' with
    | accept => exact absurd hm (by simp)
    | shift => exact absurd hm (by simp)
    | reduce n' => rw [ρ.production.injective (Action.reduce.inj hm)]

include ρ in
/-- One automaton has no conflicts if the other has none. -/
theorem conflicts_eq_nil_iff (hg : g.Indexed) (hg' : g'.Indexed) :
    (build g' (.solve g')).conflicts = [] ↔ (build g (.solve g)).conflicts = [] :=
  ⟨ρ.conflicts_eq_nil hg hg', ρ.symm.conflicts_eq_nil hg' hg⟩

end Renumbering

end ShiftReduce
