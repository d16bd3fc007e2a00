import ShiftReduce.Automaton.Basic
import ShiftReduce.Proofs.Automaton.Collection

/-!
# States and transitions of the automaton

The automaton is looked at through three questions: which items a state holds, where its transition
on a symbol leads, and which action it has on a terminal. An item of a state was either moved there
by the transition into the state or predicted by another item of the state
(`mem_itemsAt_of_target?`), and every item that waits for a symbol is moved on by a transition
(`exists_target?`).
-/

namespace ShiftReduce

namespace Automaton

/-- The items of a state. -/
def itemsAt (a : Automaton) (q : ℕ) : List Item := ((a.states[q]?).map (·.items)).getD []

/-- The state that the transition of a state on a symbol leads to. -/
def target? (a : Automaton) (q : ℕ) (s : Symbol) : Option ℕ :=
  (a.states[q]?).bind (·.edges.lookup s)

/-- The action of a state on a terminal. -/
def action? (a : Automaton) (q t : ℕ) : Option Action := (a.states[q]?).bind (·.actions.lookup t)

variable {g : Augmented} {sets : Sets} {q r : ℕ} {s : Symbol} {i j : Item}

/-! ## States are kernels of the collection -/

/-- A state is made from the kernel at its place in the collection. -/
theorem getElem?_states (g : Augmented) (sets : Sets) (q : ℕ) :
    (build g sets).states[q]? = ((Kernel.collection g.productions)[q]?).map
      fun k => (stateOf g sets (Kernel.collection g.productions) q k).1 := by
  rw [build, List.getElem?_map, List.getElem?_mapIdx, Option.map_map]
  rfl

/-- There are as many states as kernels. -/
theorem length_states (g : Augmented) (sets : Sets) :
    (build g sets).states.length = (Kernel.collection g.productions).length := by
  simp [build]

/-- A state is made from a kernel of the collection. -/
theorem exists_stateOf {st : AutomatonState} (hst : st ∈ (build g sets).states) :
    ∃ q k, (stateOf g sets (Kernel.collection g.productions) q k).1 = st := by
  obtain ⟨q, hq⟩ := List.mem_iff_getElem?.1 hst
  rw [getElem?_states] at hq
  obtain ⟨k, -, hk⟩ := Option.map_eq_some_iff.1 hq
  exact ⟨q, k, hk⟩

/-- A state has one transition on a symbol at most. -/
theorem nodup_edges {st : AutomatonState} (hst : st ∈ (build g sets).states) :
    (st.edges.map Prod.fst).Nodup := by
  obtain ⟨q, k, rfl⟩ := exists_stateOf hst
  simp [stateOf, edgesOf, Function.comp_def, Kernel.nodup_awaited]

/-! ## The targets by nonterminal -/

/-- The first entry is looked up under its key, and the others under other keys. -/
theorem lookup_cons_eq {κ α : Type} [DecidableEq κ] (k k' : κ) (a : α) (es : List (κ × α)) :
    ((k', a) :: es).lookup k = if k = k' then some a else es.lookup k := by
  rw [List.lookup_cons]
  by_cases h : k = k'
  · subst h
    simp
  · have hne : (k == k') = false := by simpa using h
    rw [hne, if_neg h]

/-- A look-up in a list of entries made from their keys. -/
theorem lookup_map_pair {α β : Type} [DecidableEq α] (f : α → β) (as : List α) (a : α) :
    (as.map fun a => (a, f a)).lookup a = if a ∈ as then some (f a) else none := by
  induction as with
  | nil => rfl
  | cons b as ih =>
    rw [List.map_cons, lookup_cons_eq, ih]
    by_cases h : a = b
    · subst h
      simp
    · simp [h]

/-- The transitions on nonterminals, picked from all of them. -/
theorem mem_nonterminals {edges : List (Symbol × ℕ)} {n r : ℕ} :
    (n, r) ∈ edges.filterMap (fun (s, target) => s.nonterminal?.map (·, target)) ↔
      (.nonterminal n, r) ∈ edges := by
  rw [List.mem_filterMap]
  constructor
  · rintro ⟨⟨s, target⟩, hmem, heq⟩
    obtain ⟨m, hm, heq⟩ := Option.map_eq_some_iff.1 heq
    obtain ⟨rfl, rfl⟩ := Prod.mk.inj heq
    cases s with
    | terminal t => exact absurd hm (by simp [Symbol.nonterminal?])
    | nonterminal m' =>
      obtain rfl := Option.some.inj hm
      exact hmem
  · intro hmem
    exact ⟨_, hmem, rfl⟩

/-- A target that is in the row already changes nothing. -/
theorem putTarget_of_mem {row : List (ℕ × ℕ)} {n q : ℕ} (hmem : (n, q) ∈ row)
    (hunique : ∀ old, (n, old) ∈ row → old = q) : putTarget row (n, q) = row := by
  induction row with
  | nil => exact absurd hmem (by simp)
  | cons p row ih =>
    obtain ⟨m, old⟩ := p
    rw [putTarget]
    by_cases hm : m = n
    · subst hm
      rw [if_pos rfl, hunique old List.mem_cons_self]
    · have htail : (n, q) ∈ row := by
        rcases List.mem_cons.1 hmem with heq | htail
        · exact absurd (congrArg Prod.fst heq).symm hm
        · exact htail
      rw [if_neg hm, ih htail fun old hold => hunique old (List.mem_cons_of_mem _ hold)]

/-- A nonterminal that is not in the row is put at its end. -/
theorem putTarget_of_notMem {row : List (ℕ × ℕ)} {n : ℕ} (h : n ∉ row.map Prod.fst) (q : ℕ) :
    putTarget row (n, q) = row ++ [(n, q)] := by
  induction row with
  | nil => rfl
  | cons p row ih =>
    obtain ⟨m, old⟩ := p
    rw [List.map_cons, List.mem_cons, not_or] at h
    rw [putTarget, if_neg (Ne.symm h.1), ih h.2, List.cons_append]

/-- A last entry is kept if it has not come before. -/
theorem eraseDups_concat {α : Type} [DecidableEq α] (as : List α) (a : α) :
    (as ++ [a]).eraseDups = if a ∈ as then as.eraseDups else as.eraseDups ++ [a] := by
  rw [List.eraseDups_append]
  by_cases h : a ∈ as
  · simp [List.removeAll, h]
  · simp [List.removeAll, h, List.eraseDups_cons]

/-- Symbols that are walked one by one leave the targets of the nonterminals among them, each once
and in the order in which they come first. -/
theorem foldl_putTarget (f : Symbol → ℕ) (symbols : List Symbol) :
    (symbols.filterMap fun s => s.nonterminal?.map (·, f s)).foldl putTarget [] =
      (symbols.eraseDups.map fun s => (s, f s)).filterMap
        fun (s, target) => s.nonterminal?.map (·, target) := by
  induction symbols using List.reverseRecOn with
  | nil => rfl
  | append_singleton symbols s ih =>
    rw [List.filterMap_append, List.foldl_append, ih, eraseDups_concat]
    cases s with
    | terminal t => split <;> simp [Symbol.nonterminal?]
    | nonterminal n =>
      have hmem : ∀ m q, (Symbol.nonterminal m, q) ∈ symbols.eraseDups.map (fun s => (s, f s)) ↔
          .nonterminal m ∈ symbols ∧ f (.nonterminal m) = q := by
        simp [List.mem_eraseDups]
      dsimp only [List.filterMap_cons, List.filterMap_nil, Symbol.nonterminal?, Option.map_some,
        List.foldl_cons, List.foldl_nil]
      by_cases hn : .nonterminal n ∈ symbols
      · rw [if_pos hn]
        refine putTarget_of_mem (mem_nonterminals.2 ((hmem _ _).2 ⟨hn, rfl⟩)) fun old hold => ?_
        exact ((hmem _ _).1 (mem_nonterminals.1 hold)).2.symm
      · rw [if_neg hn, List.map_append, List.filterMap_append]
        refine putTarget_of_notMem (fun hmap => ?_) _
        obtain ⟨⟨m, q⟩, hmq, rfl⟩ := List.mem_map.1 hmap
        exact hn ((hmem m q).1 (mem_nonterminals.1 hmq)).1

/-- The targets by nonterminal are those of the transitions on nonterminals, in the same order. -/
theorem goto_eq {st : AutomatonState} (hst : st ∈ (build g sets).states) :
    st.goto = st.edges.filterMap fun (s, target) => s.nonterminal?.map (·, target) := by
  obtain ⟨q, k, rfl⟩ := exists_stateOf hst
  let items := k.closure g.productions
  let f := fun s => (Kernel.collection g.productions).idxOf (Kernel.advance g.productions items s)
  -- the walk meets the target of every symbol that an item waits for, in the order of the items
  have hwalk : items.filterMap (destination? g.productions
      (edgesOf g.productions (Kernel.collection g.productions) items)) =
      (items.filterMap (·.next? g.productions)).filterMap fun s => s.nonterminal?.map (·, f s) := by
    rw [List.filterMap_filterMap]
    refine List.filterMap_congr fun i hi => ?_
    rw [destination?]
    cases hs : i.next? g.productions with
    | none => rfl
    | some s =>
      cases s with
      | terminal t => rfl
      | nonterminal n =>
        dsimp only
        rw [edgesOf, lookup_map_pair, if_pos (Kernel.mem_awaited.2 ⟨i, hi, hs⟩)]
        rfl
  show (items.filterMap _).foldl putTarget [] = _
  rw [hwalk, foldl_putTarget]
  rfl

/-! ## Items and targets -/

/-- The items of a state are those of the closure of its kernel. -/
theorem mem_itemsAt : i ∈ (build g sets).itemsAt q ↔
    ∃ k, (Kernel.collection g.productions)[q]? = some k ∧ i ∈ k.closure g.productions := by
  rw [itemsAt, getElem?_states]
  cases (Kernel.collection g.productions)[q]? <;> simp [stateOf]

/-- The place of a kernel of the collection is its number. -/
private theorem idxOf_collection (hps : g.productions ≠ []) {k : Kernel}
    (hk : k ∈ Kernel.collection g.productions) :
    (Kernel.collection g.productions).idxOf k = r ↔
      (Kernel.collection g.productions)[r]? = some k := by
  have hlt := List.idxOf_lt_length_of_mem hk
  constructor
  · rintro rfl
    rw [List.getElem?_eq_getElem hlt, List.getElem_idxOf]
  · intro hr
    refine (List.getElem?_inj hlt (Kernel.nodup_collection hps)).1 ?_
    rw [hr, List.getElem?_eq_getElem hlt, List.getElem_idxOf]

/-- A state has a transition on the symbols that its items wait for, and it leads to the state of
the advanced items. -/
theorem target?_eq_some_iff (hps : g.productions ≠ []) :
    (build g sets).target? q s = some r ↔
      ∃ k, (Kernel.collection g.productions)[q]? = some k ∧
        (∃ i ∈ k.closure g.productions, i.next? g.productions = some s) ∧
        (Kernel.collection g.productions)[r]? =
          some (Kernel.advance g.productions (k.closure g.productions) s) := by
  rw [target?, getElem?_states]
  cases hq : (Kernel.collection g.productions)[q]? with
  | none => simp
  | some k =>
    simp only [Option.map_some, Option.bind_some, stateOf, edgesOf, lookup_map_pair,
      Kernel.mem_awaited, Option.some.injEq, Option.ite_none_right_eq_some, exists_eq_left']
    refine and_congr_right fun hwait => ?_
    refine idxOf_collection hps (Kernel.mem_collection_of_leads hps (List.mem_of_getElem? hq) ?_)
    exact Kernel.leads_iff.2 ⟨s, hwait, rfl⟩

/-! ## Items along transitions -/

/-- An item that waits for a symbol is moved over it by a transition. -/
theorem exists_target? (hps : g.productions ≠ []) (hi : i ∈ (build g sets).itemsAt q)
    (hs : i.next? g.productions = some s) :
    ∃ r, (build g sets).target? q s = some r ∧ i.advance ∈ (build g sets).itemsAt r := by
  obtain ⟨k, hk, hi⟩ := mem_itemsAt.1 hi
  have hlead : Kernel.Leads g.productions k
      (Kernel.advance g.productions (k.closure g.productions) s) :=
    Kernel.leads_iff.2 ⟨s, ⟨i, hi, hs⟩, rfl⟩
  have hmem := Kernel.mem_collection_of_leads hps (List.mem_of_getElem? hk) hlead
  obtain ⟨r, hr, hget⟩ := List.getElem_of_mem hmem
  have hr' : (Kernel.collection g.productions)[r]? =
      some (Kernel.advance g.productions (k.closure g.productions) s) := by
    rw [List.getElem?_eq_getElem hr, hget]
  refine ⟨r, (target?_eq_some_iff hps).2 ⟨k, hk, ⟨i, hi, hs⟩, hr'⟩, mem_itemsAt.2 ⟨_, hr', ?_⟩⟩
  exact Kernel.mem_closure_of_mem (Kernel.mem_advance.2 ⟨i, hi, hs, rfl⟩)

/-- A transition is on a symbol that some item of the state waits for. -/
theorem exists_item_of_target? (hps : g.productions ≠ [])
    (h : (build g sets).target? q s = some r) :
    ∃ i ∈ (build g sets).itemsAt q, i.next? g.productions = some s := by
  obtain ⟨k, hk, ⟨i, hi, hs⟩, -⟩ := (target?_eq_some_iff hps).1 h
  exact ⟨i, mem_itemsAt.2 ⟨k, hk, hi⟩, hs⟩

/-- The target of a transition is a state. -/
theorem lt_of_target? (hps : g.productions ≠ []) (h : (build g sets).target? q s = some r) :
    r < (build g sets).states.length := by
  obtain ⟨k, -, -, hr⟩ := (target?_eq_some_iff hps).1 h
  rw [length_states]
  exact (List.getElem?_eq_some_iff.1 hr).1

/-- There is a start state. -/
theorem zero_lt_length_states (hps : g.productions ≠ []) :
    0 < (build g sets).states.length := by
  rw [length_states]
  exact (List.getElem?_eq_some_iff.1 (Kernel.collection_zero hps)).1

/-- Items of a state predict items of the state. -/
theorem mem_itemsAt_of_predicts (hi : i ∈ (build g sets).itemsAt q)
    (hij : Kernel.Predicts g.productions i j) : j ∈ (build g sets).itemsAt q := by
  obtain ⟨k, hk, hi⟩ := mem_itemsAt.1 hi
  exact mem_itemsAt.2 ⟨k, hk, Kernel.mem_closure_of_predicts hi hij⟩

/-- The items behind a transition are those that it advances and those that predictions reach from
them. -/
theorem mem_itemsAt_iff_of_target? (hps : g.productions ≠ [])
    (h : (build g sets).target? q s = some r) : j ∈ (build g sets).itemsAt r ↔
      ∃ i ∈ (build g sets).itemsAt q, i.next? g.productions = some s ∧
        Relation.ReflTransGen (Kernel.Predicts g.productions) i.advance j := by
  obtain ⟨k, hk, -, hr⟩ := (target?_eq_some_iff hps).1 h
  have hat : ∀ i, i ∈ (build g sets).itemsAt q ↔ i ∈ k.closure g.productions := by
    intro i
    rw [mem_itemsAt, hk]
    simp
  have hat' : j ∈ (build g sets).itemsAt r ↔
      j ∈ (Kernel.advance g.productions (k.closure g.productions) s).closure g.productions := by
    rw [mem_itemsAt, hr]
    simp
  rw [hat', Kernel.mem_closure_iff]
  simp only [hat, Kernel.mem_advance]
  -- a transition's kernel consists of advanced items, and the closure adds the predicted ones
  constructor
  · rintro ⟨_, ⟨i, hi, hs, rfl⟩, hij⟩
    exact ⟨i, hi, hs, hij⟩
  · rintro ⟨i, hi, hs, hij⟩
    exact ⟨_, ⟨i, hi, hs, rfl⟩, hij⟩

/-- The items of the start state are those that predictions reach from the start item. -/
theorem mem_itemsAt_zero_iff (hps : g.productions ≠ []) : j ∈ (build g sets).itemsAt 0 ↔
    Relation.ReflTransGen (Kernel.Predicts g.productions) (Item.start 0) j := by
  rw [mem_itemsAt, Kernel.collection_zero hps]
  simp [Kernel.mem_closure_iff, Kernel.initial, OrderedSet.mem_singleton]

/-- The items behind a transition were advanced by it or are predicted there. -/
theorem mem_itemsAt_of_target? (hps : g.productions ≠ [])
    (h : (build g sets).target? q s = some r) (hj : j ∈ (build g sets).itemsAt r) :
    (∃ i ∈ (build g sets).itemsAt q, i.next? g.productions = some s ∧ i.advance = j) ∨
      ∃ i ∈ (build g sets).itemsAt r, Kernel.Predicts g.productions i j := by
  obtain ⟨i, hi, hs, hij⟩ := (mem_itemsAt_iff_of_target? hps h).1 hj
  rcases hij.cases_tail with rfl | ⟨i', hi', hij'⟩
  · exact .inl ⟨i, hi, hs, rfl⟩
  · exact .inr ⟨i', (mem_itemsAt_iff_of_target? hps h).2 ⟨i, hi, hs, hi'⟩, hij'⟩

/-- The items of the start state are the start item and those predicted there. -/
theorem mem_itemsAt_zero (hps : g.productions ≠ []) (hj : j ∈ (build g sets).itemsAt 0) :
    j = Item.start 0 ∨ ∃ i ∈ (build g sets).itemsAt 0, Kernel.Predicts g.productions i j := by
  rcases ((mem_itemsAt_zero_iff hps).1 hj).cases_tail with rfl | ⟨i, hi, hij⟩
  · exact .inl rfl
  · exact .inr ⟨i, (mem_itemsAt_zero_iff hps).2 hi, hij⟩

/-- The start state holds the start item. -/
theorem start_mem_itemsAt_zero (hps : g.productions ≠ []) :
    Item.start 0 ∈ (build g sets).itemsAt 0 :=
  (mem_itemsAt_zero_iff hps).2 .refl

end Automaton

end ShiftReduce
