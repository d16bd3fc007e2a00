import ShiftReduce.Proofs.Automaton.Actions
import ShiftReduce.Proofs.Sets.FixedPoint
import ShiftReduce.Table.Emission

/-!
# The table says by names what the automaton says by numbers

A row of the table is a map from names, and the names of distinct symbols differ, so a look-up by a
name finds what the automaton has for the symbol: `action?_eq_some_iff` and `goto?_eq_some_iff`.
Rule `n` of the table is production `n` of the augmented grammar (`rule?_eq`).
-/

namespace ShiftReduce

/-- Where no key is repeated, a look-up finds the entries and nothing else. -/
theorem lookup_eq_some_iff_mem {κ α : Type} [DecidableEq κ] {es : List (κ × α)} {k : κ} {a : α}
    (h : (es.map Prod.fst).Nodup) : es.lookup k = some a ↔ (k, a) ∈ es := by
  induction es with
  | nil => simp
  | cons e es ih =>
    obtain ⟨k', a'⟩ := e
    rw [List.map_cons, List.nodup_cons] at h
    rw [Automaton.lookup_cons_eq, List.mem_cons, Prod.mk.injEq]
    by_cases hk : k = k'
    · subst hk
      have hnot : (k, a) ∉ es := fun hmem => h.1 (List.mem_map.2 ⟨(k, a), hmem, rfl⟩)
      simp [hnot, eq_comm]
    · simp [hk, ih h.2]

namespace OrderedMap

variable {α : Type}

/-- Of several entries for a key the last one stands. -/
theorem get?_foldl_insert (m : OrderedMap String α) (es : List (String × α)) (k : String) :
    (es.foldl (fun m e => m.insert e.1 e.2) m).get? k = (es.reverse.lookup k).or (m.get? k) := by
  induction es generalizing m with
  | nil => rfl
  | cons e es ih =>
    rw [List.foldl_cons, ih, List.reverse_cons, List.lookup_append, Option.or_assoc, get?_insert,
      Automaton.lookup_cons_eq]
    split <;> simp

/-- A map from the names of numbered entries finds the entry of the number that has the name. -/
theorem get?_ofList_map {name : ℕ → String} {es : List (ℕ × α)} {k : String} {a : α}
    (hnodup : (es.map Prod.fst).Nodup)
    (hinj : ∀ n ∈ es.map Prod.fst, ∀ m ∈ es.map Prod.fst, name n = name m → n = m) :
    (ofList (es.map fun e => (name e.1, e.2))).get? k = some a ↔
      ∃ n, name n = k ∧ es.lookup n = some a := by
  -- no name comes twice, so that which entry was inserted last does not matter
  have hkeys : (((es.map fun e => (name e.1, e.2)).reverse).map Prod.fst).Nodup := by
    have := hnodup.map_on hinj
    simpa [List.map_reverse, Function.comp_def] using this
  rw [ofList, get?_foldl_insert, get?_empty, Option.or_none, lookup_eq_some_iff_mem hkeys,
    List.mem_reverse, List.mem_map]
  simp only [Prod.mk.injEq, lookup_eq_some_iff_mem hnodup]
  constructor
  · rintro ⟨⟨n, b⟩, hmem, rfl, rfl⟩
    exact ⟨n, rfl, hmem⟩
  · rintro ⟨n, rfl, hmem⟩
    exact ⟨(n, a), hmem, rfl, rfl⟩

end OrderedMap

/-- The automaton of a grammar, which does not depend on the name of the table. -/
abbrev Grammar.automaton (g : Grammar) : Automaton :=
  .build g.augment (.solve g.augment)

namespace Build

variable {g : Grammar} {name : Option String} {q r k : ℕ} {a : String} {act : Action}

/-- A text leads to a table exactly if it is read as a grammar, and the table is that of the
grammar. -/
theorem ofText_eq_ok_iff {text : String} {b : Build} :
    ofText text name = .ok b ↔ ∃ g, Grammar.read text = .ok g ∧ ofGrammar g name = b := by
  unfold ofText
  cases Grammar.read text <;> simp [Except.map]

/-- The table of nested parentheses is that of their grammar. -/
theorem ofText_nested :
    ofText "S -> ( S )\nS ->" none = .ok (ofGrammar Grammar.nested none) :=
  ofText_eq_ok_iff.2 ⟨_, Grammar.read_nested, rfl⟩

/-- It has no conflicts. -/
theorem conflicts_nested : (ofGrammar Grammar.nested none).conflicts = [] := by decide +kernel

/-! ## Symbols of the automaton are numbered -/

/-- Items wait for symbols of the source grammar. -/
theorem inRange_of_next? (hg : g.WellFormed) {i : Item} {s : Symbol}
    (h : i.next? g.augment.productions = some s) : g.InRange s := by
  obtain ⟨p, hp, hs⟩ := Item.next?_eq_some_iff.1 h
  have hmem := List.mem_of_getElem? hs
  rcases List.mem_cons.1 (List.mem_of_getElem? hp) with rfl | hp
  · rw [List.mem_singleton] at hmem
    subst hmem
    exact Grammar.start_lt hg.toIndexed
  · exact hg.rhs_inRange p hp s hmem

/-- The terminals for which a state has an action have numbers of the vocabulary. -/
theorem inRange_of_action? (hg : g.WellFormed) {t : ℕ} (h : g.automaton.action? q t = some act) :
    g.augment.grammar.InRange (.terminal t) := by
  cases Automaton.candidate_of_action? h with
  | shift _ hnext => exact (inRange_of_next? hg hnext).augment
  | accept _ _ _ ht => exact ht ▸ Grammar.endMarker_lt g
  | reduce _ _ _ _ ht => exact (Sets.fits_solve hg.indexed_augment).follow_lt _ _ ht

/-- Transitions are on symbols of the grammar. -/
theorem inRange_of_target? (hg : g.WellFormed) {s : Symbol} (h : g.automaton.target? q s = some r) :
    g.InRange s := by
  obtain ⟨i, -, hs⟩ := Automaton.exists_item_of_target? (Grammar.productions_augment_ne_nil g) h
  exact inRange_of_next? hg hs

/-! ## Rows -/

/-- The rows of the table are made from the states of the automaton. -/
theorem row?_eq (g : Grammar) (name : Option String) (q : ℕ) :
    (ofGrammar g name).table.row? q = (g.automaton.states[q]?).map (Table.rowOf g.augment) :=
  List.getElem?_map ..

/-- The table has a row for each state. -/
theorem exists_row?_iff (name : Option String) :
    (∃ row, (ofGrammar g name).table.row? q = some row) ↔ q < g.automaton.states.length := by
  rw [row?_eq]
  constructor
  · rintro ⟨row, h⟩
    obtain ⟨s, hs, -⟩ := Option.map_eq_some_iff.1 h
    exact (List.getElem?_eq_some_iff.1 hs).1
  · intro h
    exact ⟨_, by rw [List.getElem?_eq_getElem h]; rfl⟩

/-- The table has the action that the automaton has for the terminal of that name. -/
theorem action?_eq_some_iff (hg : g.WellFormed) :
    (ofGrammar g name).table.action? q a = some act ↔
      ∃ t, g.augment.name (.terminal t) = a ∧ g.automaton.action? q t = some act := by
  rw [Table.action?, row?_eq, Option.bind_map]
  simp only [Automaton.action?]
  cases hs : g.automaton.states[q]? with
  | none => simp
  | some s =>
    have hnodup := Automaton.nodup_actions (List.mem_of_getElem? hs)
    have hrange : ∀ t ∈ s.actions.map Prod.fst, g.augment.grammar.InRange (.terminal t) := by
      intro t ht
      obtain ⟨⟨t, act⟩, hmem, rfl⟩ := List.mem_map.1 ht
      have hlookup : g.automaton.action? q t = some act := by
        rw [Automaton.action?, hs]
        exact (lookup_eq_some_iff_mem hnodup).2 hmem
      exact inRange_of_action? hg hlookup
    have hget : (Table.rowOf g.augment s).actions.get? a = some act ↔
        ∃ t, g.augment.name (.terminal t) = a ∧ s.actions.lookup t = some act :=
      OrderedMap.get?_ofList_map hnodup fun t ht t' ht' heq => Symbol.terminal.inj
        (hg.augment.name_injective (hrange t ht) (hrange t' ht') heq)
    exact hget

/-- An action of the automaton stands in the table. -/
theorem action?_name (name : Option String) (hg : g.WellFormed) {t : ℕ}
    (h : g.automaton.action? q t = some act) :
    (ofGrammar g name).table.action? q (g.augment.name (.terminal t)) = some act :=
  (action?_eq_some_iff hg).2 ⟨t, rfl, h⟩

/-- The targets by nonterminal are the transitions on nonterminals. -/
theorem lookup_nonterminals (edges : List (Symbol × ℕ)) (n : ℕ) :
    (edges.filterMap fun (s, target) => s.nonterminal?.map (·, target)).lookup n =
      edges.lookup (.nonterminal n) := by
  induction edges with
  | nil => rfl
  | cons e edges ih =>
    obtain ⟨s, target⟩ := e
    cases s with
    | terminal t =>
      rw [List.filterMap_cons, Automaton.lookup_cons_eq, if_neg (by simp)]
      exact ih
    | nonterminal m =>
      have hcons : ((m, target) :: edges.filterMap fun (s, target) =>
          s.nonterminal?.map (·, target)).lookup n =
          ((Symbol.nonterminal m, target) :: edges).lookup (.nonterminal n) := by
        simp only [Automaton.lookup_cons_eq, Symbol.nonterminal.injEq, ih]
      exact hcons

/-- If no symbol has two transitions, no nonterminal has two targets. -/
theorem nodup_nonterminals {edges : List (Symbol × ℕ)} (h : (edges.map Prod.fst).Nodup) :
    ((edges.filterMap fun (s, target) => s.nonterminal?.map (·, target)).map Prod.fst).Nodup := by
  have hmap : (edges.filterMap fun (s, target) => s.nonterminal?.map (·, target)).map Prod.fst =
      (edges.map Prod.fst).filterMap Symbol.nonterminal? := by
    rw [List.map_filterMap, List.filterMap_map]
    refine List.filterMap_congr fun e _ => ?_
    obtain ⟨s, target⟩ := e
    cases s <;> rfl
  rw [hmap]
  refine h.filterMap fun s s' n hs hs' => ?_
  cases s <;> cases s' <;> simp_all [Symbol.nonterminal?]

/-- The table has the target that the automaton has for the nonterminal of that name. -/
theorem goto?_eq_some_iff (hg : g.WellFormed) :
    (ofGrammar g name).table.goto? q a = some r ↔
      ∃ n, g.augment.name (.nonterminal n) = a ∧
        g.automaton.target? q (.nonterminal n) = some r := by
  rw [Table.goto?, row?_eq, Option.bind_map]
  simp only [Automaton.target?]
  cases hs : g.automaton.states[q]? with
  | none => simp
  | some s =>
    have hgoto := Automaton.goto_eq (List.mem_of_getElem? hs)
    have hnodup : (s.goto.map Prod.fst).Nodup := by
      rw [hgoto]
      exact nodup_nonterminals (Automaton.nodup_edges (List.mem_of_getElem? hs))
    have hrange : ∀ n ∈ s.goto.map Prod.fst, g.augment.grammar.InRange (.nonterminal n) := by
      intro n hn
      obtain ⟨⟨n, r⟩, hmem, rfl⟩ := List.mem_map.1 hn
      have htarget : g.automaton.target? q (.nonterminal n) = some r := by
        rw [Automaton.target?, hs, Option.bind_some, ← lookup_nonterminals, ← hgoto]
        exact (lookup_eq_some_iff_mem hnodup).2 hmem
      exact (inRange_of_target? hg htarget).augment
    have hget : (Table.rowOf g.augment s).goto.get? a = some r ↔
        ∃ n, g.augment.name (.nonterminal n) = a ∧ s.goto.lookup n = some r :=
      OrderedMap.get?_ofList_map hnodup fun n hn m hm heq => Symbol.nonterminal.inj
        (hg.augment.name_injective (hrange n hn) (hrange m hm) heq)
    simp only [hgoto, lookup_nonterminals] at hget
    exact hget

/-- A transition of the automaton on a nonterminal stands in the table. -/
theorem goto?_name (name : Option String) (hg : g.WellFormed) {n : ℕ}
    (h : g.automaton.target? q (.nonterminal n) = some r) :
    (ofGrammar g name).table.goto? q (g.augment.name (.nonterminal n)) = some r :=
  (goto?_eq_some_iff hg).2 ⟨n, rfl, h⟩

/-! ## Rules -/

/-- The rules of the table are the productions of the augmented grammar but the first. -/
theorem rule?_eq (g : Grammar) (name : Option String) (k : ℕ) :
    (ofGrammar g name).table.rule? k =
      if k = 0 then none else (g.augment.productions[k]?).map (Table.ruleOf g.augment) := by
  unfold Table.rule?
  cases k with
  | zero => rfl
  | succ k =>
    rw [if_neg (Nat.succ_ne_zero k), if_neg (Nat.succ_ne_zero k), Nat.add_sub_cancel,
      Grammar.productions_augment, List.getElem?_cons_succ, ← List.getElem?_map]
    rfl

/-- Rules and productions have the same numbers, the start production apart. -/
theorem rule?_of_production (name : Option String) {p : Production} (hk : k ≠ 0)
    (hp : g.augment.productions[k]? = some p) :
    (ofGrammar g name).table.rule? k = some (Table.ruleOf g.augment p) := by
  rw [rule?_eq, if_neg hk, hp]
  rfl

end Build

end ShiftReduce
