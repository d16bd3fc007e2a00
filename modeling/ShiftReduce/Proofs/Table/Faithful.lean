import ShiftReduce.Proofs.Automaton.Acceptance

/-!
# The table is faithful to its automaton

Every look-up of the table by a name is the look-up of the automaton by the number that has the
name, no row has a key besides, and rule `n` spells production `n` of the augmented grammar. The
synthetic start symbol is left out, which nothing misses: no right-hand side holds it and no
transition is on it. What a cell of the table refers to exists, and one cell accepts. `Faithful`
lists all this, and `ofText_faithful` says that it holds of every table that is built.
-/

namespace ShiftReduce

/-- The state to go to from a state after a reduction to a nonterminal. -/
def Automaton.goto? (a : Automaton) (q n : ℕ) : Option ℕ := (a.states[q]?).bind (·.goto.lookup n)

/-- A grammar with its end marker among its terminals: what follows the start symbol may be the end
of the input or another end marker. -/
def Grammar.remarked : Grammar where
  terminals := ⟨["$", "x"], by decide⟩
  nonterminals := ⟨["S"], List.nodup_singleton _⟩
  productions := [⟨0, [.nonterminal 0, .terminal 0]⟩, ⟨0, [.terminal 1]⟩]
  productions_ne_nil := by decide

namespace Build

/-- The table says by names what the automaton says by numbers. -/
structure Faithful (b : Build) : Prop where
  /-- There is one row for each state. -/
  length_states : b.table.states.length = b.automaton.states.length
  /-- The action for the name of a terminal is the one for its number. -/
  action_eq : ∀ q t, t < b.grammar.terminals.size →
    b.table.action? q (b.grammar.name (.terminal t)) = b.automaton.action? q t
  /-- A row has actions for terminals alone for which its state has an action. -/
  exists_terminal : ∀ q row, b.table.row? q = some row → ∀ a ∈ row.actions.keys,
    ∃ t < b.grammar.terminals.size, b.grammar.name (.terminal t) = a ∧
      ∃ act, b.automaton.action? q t = some act
  /-- The target for the name of a nonterminal is the one for its number. -/
  goto_eq : ∀ q n, n < b.grammar.nonterminals.size →
    b.table.goto? q (b.grammar.name (.nonterminal n)) = b.automaton.goto? q n
  /-- A row has targets for nonterminals alone for which its state has a target. -/
  exists_nonterminal : ∀ q row, b.table.row? q = some row → ∀ a ∈ row.goto.keys,
    ∃ n < b.grammar.nonterminals.size, b.grammar.name (.nonterminal n) = a ∧
      ∃ r, b.automaton.goto? q n = some r
  /-- The synthetic production is the only one without a rule. -/
  length_rules : b.table.rules.length + 1 = b.grammar.productions.length
  /-- A rule spells the production with its number. -/
  exists_rule : ∀ k, 1 ≤ k → k ≤ b.table.rules.length → ∃ p rule,
    b.grammar.productions[k]? = some p ∧ b.table.rule? k = some rule ∧
      rule.lhs = b.grammar.name (.nonterminal p.lhs) ∧ rule.rhs = p.rhs.map b.grammar.name
  /-- No rule mentions the synthetic start symbol. -/
  start_notMem_rules : ∀ rule ∈ b.table.rules,
    b.grammar.name (.nonterminal b.grammar.start) ∉ rule.lhs :: rule.rhs
  /-- No row has a target for it. -/
  start_notMem_keys : ∀ row ∈ b.table.states,
    b.grammar.name (.nonterminal b.grammar.start) ∉ row.goto.keys
  /-- The nonterminals are listed without it. -/
  start_notMem_nonterminals :
    b.grammar.name (.nonterminal b.grammar.start) ∉ b.table.nonterminals
  /-- A shift goes to a row, and never to the first one. -/
  shift_target : ∀ q a r, b.table.action? q a = some (.shift r) →
    r ≠ 0 ∧ r < b.table.states.length
  /-- So does a reduction. -/
  goto_target : ∀ q a r, b.table.goto? q a = some r → r ≠ 0 ∧ r < b.table.states.length
  /-- A reduction has a rule. -/
  reduce_rule : ∀ q a k, b.table.action? q a = some (.reduce k) →
    ∃ rule, b.table.rule? k = some rule
  /-- The row behind the start symbol accepts at the end marker, and no other cell accepts. -/
  accept_cell : ∃ r, b.table.goto? 0 (b.source.name (.nonterminal b.source.start)) = some r ∧
    ∀ q a, b.table.action? q a = some .accept ↔ q = r ∧ a = endMarker

variable {g : Grammar} {name : Option String} {q n r : ℕ}

/-! ## Rows -/

/-- The targets by nonterminal are the transitions on nonterminals. -/
theorem goto?_eq_target? (g : Grammar) (q n : ℕ) :
    g.automaton.goto? q n = g.automaton.target? q (.nonterminal n) := by
  rw [Automaton.goto?, Automaton.target?]
  cases hs : g.automaton.states[q]? with
  | none => rfl
  | some s =>
    rw [Option.bind_some, Option.bind_some, Automaton.goto_eq (List.mem_of_getElem? hs),
      lookup_nonterminals]

/-- A look-up by the name of a terminal is the look-up by its number. -/
theorem action?_name_eq (hg : g.WellFormed) {t : ℕ} (ht : t < g.augment.terminals.size) :
    (ofGrammar g name).table.action? q (g.augment.name (.terminal t)) =
      g.automaton.action? q t := by
  refine Option.ext fun act => (action?_eq_some_iff hg).trans ⟨?_, fun h => ⟨t, rfl, h⟩⟩
  rintro ⟨t', hname, h⟩
  obtain rfl := Symbol.terminal.inj (hg.augment.name_injective (inRange_of_action? hg h) ht hname)
  exact h

/-- A look-up by the name of a nonterminal is the look-up by its number. -/
theorem goto?_name_eq (hg : g.WellFormed) (hn : n < g.augment.nonterminals.size) :
    (ofGrammar g name).table.goto? q (g.augment.name (.nonterminal n)) =
      g.automaton.goto? q n := by
  rw [goto?_eq_target?]
  refine Option.ext fun r => (goto?_eq_some_iff hg).trans ⟨?_, fun h => ⟨n, rfl, h⟩⟩
  rintro ⟨n', hname, h⟩
  obtain rfl := Symbol.nonterminal.inj
    (hg.augment.name_injective (inRange_of_target? hg h).augment hn hname)
  exact h

/-- A terminal that heads an action of a row has that action. -/
theorem exists_action?_of_mem_keys {row : Row} {a : String} {t : Table} (hrow : t.row? q = some row)
    (ha : a ∈ row.actions.keys) : ∃ act, t.action? q a = some act := by
  obtain ⟨act, hact⟩ := OrderedMap.mem_keys.1 ha
  exact ⟨act, by rw [Table.action?, hrow, Option.bind_some, hact]⟩

/-- A nonterminal that heads a target of a row has that target. -/
theorem exists_goto?_of_mem_keys {row : Row} {a : String} {t : Table} (hrow : t.row? q = some row)
    (ha : a ∈ row.goto.keys) : ∃ r, t.goto? q a = some r := by
  obtain ⟨r, hr⟩ := OrderedMap.mem_keys.1 ha
  exact ⟨r, by rw [Table.goto?, hrow, Option.bind_some, hr]⟩

/-- A key of a row's actions is the name of a terminal for which the state has an action. -/
theorem exists_terminal_of_mem_keys (hg : g.WellFormed) {row : Row} {a : String}
    (hrow : (ofGrammar g name).table.row? q = some row) (ha : a ∈ row.actions.keys) :
    ∃ t < g.augment.terminals.size, g.augment.name (.terminal t) = a ∧
      ∃ act, g.automaton.action? q t = some act := by
  obtain ⟨act, hact⟩ := exists_action?_of_mem_keys hrow ha
  obtain ⟨t, hname, hact⟩ := (action?_eq_some_iff hg).1 hact
  exact ⟨t, inRange_of_action? hg hact, hname, act, hact⟩

/-- A key of a row's targets is the name of a nonterminal of the source grammar for which the state
has a target. -/
theorem exists_nonterminal_of_mem_keys (hg : g.WellFormed) {row : Row} {a : String}
    (hrow : (ofGrammar g name).table.row? q = some row) (ha : a ∈ row.goto.keys) :
    ∃ n, g.InRange (.nonterminal n) ∧ g.augment.name (.nonterminal n) = a ∧
      ∃ r, g.automaton.goto? q n = some r := by
  obtain ⟨r, hr⟩ := exists_goto?_of_mem_keys hrow ha
  obtain ⟨n, hname, hr⟩ := (goto?_eq_some_iff hg).1 hr
  exact ⟨n, inRange_of_target? hg hr, hname, r, (goto?_eq_target? g q n).trans hr⟩

/-! ## The synthetic start symbol -/

/-- The symbols of the source grammar have other names than the synthetic start symbol. -/
theorem name_ne_name_start (hg : g.WellFormed) {s : Symbol} (hs : g.InRange s) :
    g.augment.name s ≠ g.augment.name (.nonterminal g.augment.start) := by
  intro heq
  have hstart : g.augment.grammar.InRange (.nonterminal g.augment.start) :=
    hg.indexed_augment.start_lt
  obtain rfl := hg.augment.name_injective hs.augment hstart heq
  have hlt : g.augment.start < g.nonterminals.size := hs
  rw [Grammar.start_augment] at hlt
  exact Nat.lt_irrefl _ hlt

/-- The nonterminals of the table are those of the source grammar. -/
theorem nonterminals_eq (g : Grammar) (name : Option String) :
    (ofGrammar g name).table.nonterminals = g.nonterminals.names := by
  have hnames : g.augment.nonterminals.names = g.nonterminals.names ++ _ :=
    (Vocabulary.names_add _ _).trans (if_neg g.freshName_notMem_nonterminals)
  show g.augment.nonterminals.names.eraseIdx g.augment.start = _
  rw [Grammar.start_augment, hnames, Vocabulary.size,
    List.eraseIdx_append_of_length_le (Nat.le_refl _), Nat.sub_self]
  simp

/-- There is a rule for each production of the grammar. -/
theorem length_rules_eq (g : Grammar) (name : Option String) :
    (ofGrammar g name).table.rules.length = g.productions.length :=
  List.length_map _

/-- A rule comes from a production of the source grammar. -/
theorem exists_production_of_mem_rules {rule : Rule}
    (h : rule ∈ (ofGrammar g name).table.rules) :
    ∃ p ∈ g.productions, rule = Table.ruleOf g.augment p := by
  obtain ⟨p, hp, rfl⟩ := List.mem_map.1 h
  exact ⟨p, hp, rfl⟩

/-- The new start symbol is in no rule. -/
theorem start_notMem_ruleOf (hg : g.WellFormed) {p : Production} (hp : p ∈ g.productions) :
    g.augment.name (.nonterminal g.augment.start) ∉
      (Table.ruleOf g.augment p).lhs :: (Table.ruleOf g.augment p).rhs := by
  intro hmem
  rcases List.mem_cons.1 hmem with hlhs | hrhs
  · have hin : g.InRange (.nonterminal p.lhs) := hg.lhs_lt p hp
    exact name_ne_name_start hg hin hlhs.symm
  · obtain ⟨s, hs, hname⟩ := List.mem_map.1 hrhs
    exact name_ne_name_start hg (hg.rhs_inRange p hp s hs) hname

/-- No row has a target for the new start symbol. -/
theorem start_notMem_keys (hg : g.WellFormed) {row : Row}
    (hrow : row ∈ (ofGrammar g name).table.states) :
    g.augment.name (.nonterminal g.augment.start) ∉ row.goto.keys := by
  intro hmem
  obtain ⟨q, hq⟩ := List.mem_iff_getElem?.1 hrow
  obtain ⟨n, hn, hname, -⟩ := exists_nonterminal_of_mem_keys hg hq hmem
  exact name_ne_name_start hg hn hname

/-- The new start symbol is none of the nonterminals of the table. -/
theorem start_notMem_nonterminals (hg : g.WellFormed) (name : Option String) :
    g.augment.name (.nonterminal g.augment.start) ∉ (ofGrammar g name).table.nonterminals := by
  rw [nonterminals_eq]
  intro hmem
  obtain ⟨n, hn⟩ := List.mem_iff_getElem?.1 hmem
  have hin : g.InRange (.nonterminal n) := Vocabulary.lt_size_of_name? hn
  refine name_ne_name_start hg hin ?_
  rw [Grammar.name_augment hin]
  exact congrArg (·.getD "?") hn

/-! ## What the cells refer to -/

/-- There is a row for each state. -/
theorem length_states_eq (g : Grammar) (name : Option String) :
    (ofGrammar g name).table.states.length = g.automaton.states.length :=
  List.length_map _

/-- A transition leads to a row that is not the first one. -/
theorem row_of_target? (name : Option String) {s : Symbol} (h : g.automaton.target? q s = some r) :
    r ≠ 0 ∧ r < (ofGrammar g name).table.states.length := by
  rw [length_states_eq]
  exact ⟨Automaton.target?_ne_zero g.productions_augment_ne_nil h,
    Automaton.lt_of_target? g.productions_augment_ne_nil h⟩

/-- Shifts lead to rows of the table, and never to the first one. -/
theorem row_of_shift (hg : g.WellFormed) {a : String}
    (h : (ofGrammar g name).table.action? q a = some (.shift r)) :
    r ≠ 0 ∧ r < (ofGrammar g name).table.states.length := by
  obtain ⟨t, -, hact⟩ := (action?_eq_some_iff hg).1 h
  have hcandidate := Automaton.candidate_of_action? hact
  exact row_of_target? name (Automaton.candidate_shift_iff.1 hcandidate).2

/-- Targets are rows of the table, and never the first one. -/
theorem row_of_goto? (hg : g.WellFormed) {a : String}
    (h : (ofGrammar g name).table.goto? q a = some r) :
    r ≠ 0 ∧ r < (ofGrammar g name).table.states.length := by
  obtain ⟨n, -, hr⟩ := (goto?_eq_some_iff hg).1 h
  exact row_of_target? name hr

/-- Reductions are by rules of the table. -/
theorem exists_rule?_of_reduce (hg : g.WellFormed) {a : String} {k : ℕ}
    (h : (ofGrammar g name).table.action? q a = some (.reduce k)) :
    ∃ rule, (ofGrammar g name).table.rule? k = some rule := by
  obtain ⟨t, -, hact⟩ := (action?_eq_some_iff hg).1 h
  obtain ⟨hk, p, hp, -⟩ := (Automaton.candidate_reduce_iff g.productions_augment_ne_nil).1
    (Automaton.candidate_of_action? hact)
  exact ⟨_, rule?_of_production name hk hp⟩

/-- The cell behind the start symbol at the end marker is the one that accepts. -/
theorem action?_eq_accept_iff (hg : g.WellFormed) {a : String}
    (hr : g.automaton.target? 0 (.nonterminal g.start) = some r) :
    (ofGrammar g name).table.action? q a = some .accept ↔ q = r ∧ a = endMarker := by
  rw [action?_eq_some_iff hg]
  simp only [hg.toIndexed.action?_eq_accept_iff]
  constructor
  · rintro ⟨t, rfl, hq, rfl⟩
    exact ⟨Option.some.inj (hq.symm.trans hr), g.name_endMarker⟩
  · rintro ⟨rfl, rfl⟩
    exact ⟨g.augment.endMarker, g.name_endMarker, hr, rfl⟩

/-- The row behind the start symbol has the one cell that accepts. -/
theorem exists_accept_cell (hg : g.WellFormed) (name : Option String) :
    ∃ r, (ofGrammar g name).table.goto? 0 (g.name (.nonterminal g.start)) = some r ∧
      ∀ q a, (ofGrammar g name).table.action? q a = some .accept ↔ q = r ∧ a = endMarker := by
  have hps := g.productions_augment_ne_nil
  obtain ⟨r, hr, -⟩ :=
    Automaton.exists_target? hps (Automaton.start_mem_itemsAt_zero hps) g.next?_start
  have hgoto := goto?_name name hg hr
  rw [Grammar.name_augment (Grammar.start_inRange hg.toIndexed)] at hgoto
  exact ⟨r, hgoto, fun q a => action?_eq_accept_iff hg hr⟩

/-- The table that is built for a grammar is faithful to the automaton of the grammar. -/
theorem ofText_faithful {text : String} {b : Build} (h : ofText text name = .ok b) :
    Faithful b := by
  obtain ⟨g, hread, rfl⟩ := ofText_eq_ok_iff.1 h
  have hg := Grammar.wellFormed_of_read hread
  exact {
    length_states := length_states_eq g name
    action_eq := fun q t ht => action?_name_eq hg ht
    goto_eq := fun q n hn => goto?_name_eq hg hn
    exists_terminal := fun q row hrow a ha => exists_terminal_of_mem_keys hg hrow ha
    exists_nonterminal := by
      intro q row hrow a ha
      obtain ⟨n, hn, hname, htarget⟩ := exists_nonterminal_of_mem_keys hg hrow ha
      exact ⟨n, hn.augment, hname, htarget⟩
    length_rules := congrArg (· + 1) (length_rules_eq g name)
    exists_rule := by
      intro k hk hle
      rw [length_rules_eq] at hle
      have hlt : k < g.augment.productions.length := Nat.lt_succ_of_le hle
      have hp := List.getElem?_eq_getElem hlt
      exact ⟨_, _, hp, rule?_of_production name (Nat.pos_iff_ne_zero.1 hk) hp, rfl, rfl⟩
    start_notMem_rules := by
      intro rule hrule
      obtain ⟨p, hp, rfl⟩ := exists_production_of_mem_rules hrule
      exact start_notMem_ruleOf hg hp
    start_notMem_keys := fun row hrow => start_notMem_keys hg hrow
    start_notMem_nonterminals := start_notMem_nonterminals hg name
    shift_target := fun q a r hact => row_of_shift hg hact
    goto_target := fun q a r hr => row_of_goto? hg hr
    reduce_rule := fun q a k hact => exists_rule?_of_reduce hg hact
    accept_cell := exists_accept_cell hg name }

/-- Acceptance stands where the grammar would have its own end marker shifted. -/
theorem ofText_faithful_remarked : ∃ b, ofText "S -> S $\nS -> x" none = .ok b ∧ Faithful b ∧
    b.conflicts = [⟨1, 0, .accept, .shift 3⟩] ∧ b.table.action? 1 "$" = some .accept := by
  have htext : ofText "S -> S $\nS -> x" none = .ok (ofGrammar Grammar.remarked none) :=
    ofText_eq_ok_iff.2 ⟨_, by decide +kernel, rfl⟩
  have hfaithful := ofText_faithful htext
  obtain ⟨r, hr, haccept⟩ := hfaithful.accept_cell
  obtain rfl : 1 = r := Option.some.inj ((by decide +kernel :
    (ofGrammar Grammar.remarked none).table.goto? 0 "S" = some 1).symm.trans hr)
  exact ⟨_, htext, hfaithful, by decide +kernel, (haccept 1 "$").2 ⟨rfl, rfl⟩⟩

end Build

end ShiftReduce
