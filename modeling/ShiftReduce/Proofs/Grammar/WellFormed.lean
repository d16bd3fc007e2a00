import Mathlib.Data.List.Nodup
import Mathlib.Data.List.Perm.Subperm
import Mathlib.Data.Nat.Notation
import ShiftReduce.Grammar.Augmented
import ShiftReduce.Grammar.Reader

/-!
# Grammars that were read are well formed

The productions of a grammar that was read speak only of symbols of its vocabularies, and no name
stands for two symbols. Augmenting the grammar keeps both, adds a start symbol that no right-hand
side mentions, and leaves the older numbers and names alone.
-/

namespace ShiftReduce

namespace Vocabulary

variable {v : Vocabulary} {i j : ℕ} {name : String}

/-- A number that has a name is below the number of names. -/
theorem lt_size_of_name? (h : v.name? i = some name) : i < v.size :=
  (List.getElem?_eq_some_iff.1 h).1

/-- Every number below the number of names has one. -/
theorem exists_name?_of_lt (h : i < v.size) : ∃ name, v.name? i = some name :=
  ⟨v.names.get ⟨i, h⟩, List.getElem?_eq_getElem h⟩

/-- The name of a number is one of the names. -/
theorem mem_of_name? (h : v.name? i = some name) : name ∈ v.names := List.mem_of_getElem? h

/-- No two numbers have the same name. -/
theorem name?_injective (hi : v.name? i = some name) (hj : v.name? j = some name) : i = j :=
  (List.getElem?_inj (lt_size_of_name? hi) v.nodup).1 (hi.trans hj.symm)

/-- The number of a name is the one that it is the name of. -/
theorem idx_eq_of_name? (h : v.name? i = some name) : v.idx name = i :=
  name?_injective (name?_idx (mem_of_name? h)) h

/-- A look-up finds the number of a name, and none for other texts. -/
theorem idx?_eq_some_iff : v.idx? name = some i ↔ v.name? i = some name := by
  rw [idx?, List.idxOf?_eq_some_iff]
  constructor
  · rintro ⟨hi, heq, -⟩
    rw [name?, List.getElem?_eq_getElem hi, heq]
  · intro h
    have hi := lt_size_of_name? h
    refine ⟨hi, by simpa [name?, List.getElem?_eq_getElem hi] using h, ?_⟩
    intro j hj heq
    have hname : v.name? j = some name := by
      rw [name?, List.getElem?_eq_getElem (Nat.lt_trans hj hi)]
      simpa using heq
    exact absurd (name?_injective hname h) (Nat.ne_of_lt hj)

/-- A new name gets the next number. -/
theorem idx_add_of_notMem (h : name ∉ v.names) : (v.add name).idx name = v.size := by
  apply idx_eq_of_name?
  rw [name?, names_add, if_neg h]
  exact List.getElem?_concat_length

/-- Adding a name takes none away. -/
theorem size_le_size_add (v : Vocabulary) (name : String) : v.size ≤ (v.add name).size := by
  rw [size, size, names_add]
  split
  · exact Nat.le_refl _
  · simp

/-- A new name makes one name more. -/
theorem size_add_of_notMem (h : name ∉ v.names) : (v.add name).size = v.size + 1 := by
  rw [size, names_add, if_neg h, List.length_append]
  rfl

end Vocabulary

namespace Grammar

variable {g : Grammar} {s s' : Symbol} {p : Production}

/-- The symbol has a number in its vocabulary. -/
def InRange (g : Grammar) : Symbol → Prop
  | .terminal t => t < g.terminals.size
  | .nonterminal n => n < g.nonterminals.size

/-- The productions speak only of symbols of the vocabularies. -/
structure Indexed (g : Grammar) : Prop where
  lhs_lt : ∀ p ∈ g.productions, p.lhs < g.nonterminals.size
  rhs_inRange : ∀ p ∈ g.productions, ∀ s ∈ p.rhs, g.InRange s

/-- Moreover a name tells whether it stands for a terminal or for a nonterminal. -/
structure WellFormed (g : Grammar) : Prop extends Indexed g where
  isNonterminal_terminal : ∀ a ∈ g.terminals.names, isNonterminal a = false
  isNonterminal_nonterminal : ∀ a ∈ g.nonterminals.names, isNonterminal a = true

/-- A terminal in range has a name. -/
theorem name?_of_inRange_terminal {t : ℕ} (h : g.InRange (.terminal t)) :
    g.terminals.name? t = some (g.name (.terminal t)) := by
  obtain ⟨a, ha⟩ := Vocabulary.exists_name?_of_lt h
  simp [name, ha]

/-- A nonterminal in range has a name. -/
theorem name?_of_inRange_nonterminal {n : ℕ} (h : g.InRange (.nonterminal n)) :
    g.nonterminals.name? n = some (g.name (.nonterminal n)) := by
  obtain ⟨a, ha⟩ := Vocabulary.exists_name?_of_lt h
  simp [name, ha]

/-- The name of a terminal is the one that its number has in the vocabulary. -/
theorem name_terminal_of_name? {t : ℕ} {a : String} (h : g.terminals.name? t = some a) :
    g.name (.terminal t) = a := by
  simp [name, h]

/-- The start symbol is a nonterminal of the grammar. -/
theorem start_lt (hg : g.Indexed) : g.start < g.nonterminals.size :=
  hg.lhs_lt _ (List.head_mem g.productions_ne_nil)

/-- A terminal is not named like a nonterminal. -/
theorem WellFormed.isNonterminal_name_terminal (hg : g.WellFormed) {t : ℕ}
    (h : g.InRange (.terminal t)) : isNonterminal (g.name (.terminal t)) = false :=
  hg.isNonterminal_terminal _ (Vocabulary.mem_of_name? (name?_of_inRange_terminal h))

/-- A nonterminal is named like one. -/
theorem WellFormed.isNonterminal_name_nonterminal (hg : g.WellFormed) {n : ℕ}
    (h : g.InRange (.nonterminal n)) : isNonterminal (g.name (.nonterminal n)) = true :=
  hg.isNonterminal_nonterminal _ (Vocabulary.mem_of_name? (name?_of_inRange_nonterminal h))

/-- The start symbol is in range. -/
theorem start_inRange (hg : g.Indexed) : g.InRange (.nonterminal g.start) := start_lt hg

/-- No name stands for two symbols. -/
theorem WellFormed.name_injective (hg : g.WellFormed) (hs : g.InRange s) (hs' : g.InRange s')
    (h : g.name s = g.name s') : s = s' := by
  cases s with
  | terminal t =>
    cases s' with
    | terminal t' =>
      have ht := name?_of_inRange_terminal hs
      have ht' := name?_of_inRange_terminal hs'
      rw [Vocabulary.name?_injective ht (h ▸ ht')]
    | nonterminal n =>
      have lower := hg.isNonterminal_name_terminal hs
      rw [h, hg.isNonterminal_name_nonterminal hs'] at lower
      exact absurd lower (by decide)
  | nonterminal n =>
    cases s' with
    | terminal t =>
      have upper := hg.isNonterminal_name_nonterminal hs
      rw [h, hg.isNonterminal_name_terminal hs'] at upper
      exact absurd upper (by decide)
    | nonterminal n' =>
      have hn := name?_of_inRange_nonterminal hs
      have hn' := name?_of_inRange_nonterminal hs'
      rw [Vocabulary.name?_injective hn (h ▸ hn')]

/-! ## Reading -/

/-- The left-hand side of a line that is read is a nonterminal. -/
theorem isNonterminal_lhs_of_readLine {line : List Char} {r : NamedRule}
    (h : readLine line = some r) : isNonterminal r.lhs = true := by
  rw [readLine] at h
  obtain ⟨⟨left, right⟩, -, h⟩ := Option.bind_eq_some_iff.1 h
  dsimp only at h
  split at h
  · rename_i lhs _
    split at h
    · rename_i hlhs
      obtain rfl := Option.some.inj h
      exact hlhs
    · exact absurd h (by simp)
  · exact absurd h (by simp)

/-- The productions of a text are those of its lines. -/
theorem exists_line_of_readLines {lines : List (List Char)} {line : ℕ} {rules : List NamedRule}
    (h : readLines line lines = .ok rules) : ∀ r ∈ rules, ∃ cs ∈ lines, readLine cs = some r := by
  induction lines generalizing line rules with
  | nil =>
    obtain rfl := Except.ok.inj h
    simp
  | cons cs rest ih =>
    rw [readLines] at h
    have later : ∀ {line rules}, readLines line rest = .ok rules → ∀ r ∈ rules,
        ∃ cs' ∈ cs :: rest, readLine cs' = some r := by
      intro line rules hrest r hr
      obtain ⟨cs', hcs', hread⟩ := ih hrest r hr
      exact ⟨cs', List.mem_cons_of_mem _ hcs', hread⟩
    split at h
    · exact later h
    · split at h
      · exact absurd h (by simp)
      · rename_i rule hrule
        cases hrest : readLines (line + 1) rest with
        | error e => simp [hrest, Except.map] at h
        | ok rules' =>
          simp only [hrest, Except.map, Except.ok.injEq] at h
          subst h
          intro r hr
          rcases List.mem_cons.1 hr with rfl | hr
          · exact ⟨cs, List.mem_cons_self, hrule⟩
          · exact later hrest r hr

/-- So are those of all lines. -/
theorem isNonterminal_lhs_of_readLines {lines : List (List Char)} {line : ℕ}
    {rules : List NamedRule} (h : readLines line lines = .ok rules) :
    ∀ r ∈ rules, isNonterminal r.lhs = true := by
  intro r hr
  obtain ⟨cs, -, hread⟩ := exists_line_of_readLines h r hr
  exact isNonterminal_lhs_of_readLine hread

/-- A grammar that was read is that of the productions of its text. -/
theorem exists_rules_of_read {text : String} (h : read text = .ok g) :
    ∃ rules, readLines 1 (Text.lines text.toList) = .ok rules ∧ ofRules rules = .ok g := by
  rw [read] at h
  cases hlines : readLines 1 (Text.lines text.toList) with
  | error e => simp [hlines, bind, Except.bind] at h
  | ok rules =>
    simp only [hlines, bind, Except.bind] at h
    exact ⟨rules, rfl, h⟩

/-- A symbol that is written has a number among the written symbols of its kind. -/
theorem idx_lt_of_written {rules : List NamedRule} {kind : String → Bool} {a : String}
    (h : a ∈ writtenSymbols rules) (hkind : kind a = true) :
    (Vocabulary.ofList ((writtenSymbols rules).filter kind)).idx a <
      (Vocabulary.ofList ((writtenSymbols rules).filter kind)).size :=
  Vocabulary.idx_lt_size (Vocabulary.mem_ofList.2 (List.mem_filter.2 ⟨h, hkind⟩))

/-- Productions whose left-hand sides are nonterminals make a well-formed grammar. -/
theorem wellFormed_of_ofRules {rules : List NamedRule}
    (hrules : ∀ r ∈ rules, isNonterminal r.lhs = true) (h : ofRules rules = .ok g) :
    g.WellFormed := by
  rw [ofRules] at h
  split at h
  · exact absurd h (by simp)
  split at h
  · exact absurd h (by simp)
  obtain rfl := Except.ok.inj h
  -- the vocabularies are collected from all that is written, so they have what the rules use
  have written_lhs : ∀ r ∈ rules, r.lhs ∈ writtenSymbols rules := fun r hr =>
    List.mem_flatMap.2 ⟨r, hr, List.mem_cons_self⟩
  have written_rhs : ∀ r ∈ rules, ∀ a ∈ r.rhs, a ∈ writtenSymbols rules := fun r hr a ha =>
    List.mem_flatMap.2 ⟨r, hr, List.mem_cons_of_mem _ ha⟩
  refine ⟨⟨?_, ?_⟩, ?_, ?_⟩
  · intro p hp
    obtain ⟨r, hr, rfl⟩ := List.mem_map.1 hp
    exact idx_lt_of_written (written_lhs r hr) (hrules r hr)
  · intro p hp s hs
    obtain ⟨r, hr, rfl⟩ := List.mem_map.1 hp
    obtain ⟨a, ha, rfl⟩ := List.mem_map.1 hs
    unfold number
    split
    · rename_i hnon
      exact idx_lt_of_written (written_rhs r hr a ha) hnon
    · rename_i hterm
      exact idx_lt_of_written (written_rhs r hr a ha) (by simpa using hterm)
  · intro a ha
    have := (List.mem_filter.1 (Vocabulary.mem_ofList.1 ha)).2
    simpa using this
  · intro a ha
    exact (List.mem_filter.1 (Vocabulary.mem_ofList.1 ha)).2

/-- A grammar that was read is well formed. -/
theorem wellFormed_of_read {text : String} (h : read text = .ok g) : g.WellFormed := by
  obtain ⟨rules, hlines, hrules⟩ := exists_rules_of_read h
  exact wellFormed_of_ofRules (isNonterminal_lhs_of_readLines hlines) hrules

/-- The grammar of nested parentheses. -/
def nested : Grammar where
  terminals := ⟨["(", ")"], by decide⟩
  nonterminals := ⟨["S"], by decide⟩
  productions := [⟨0, [.terminal 0, .nonterminal 0, .terminal 1]⟩, ⟨0, []⟩]
  productions_ne_nil := by decide

/-- The grammar of nested parentheses is what its two lines are read as. -/
theorem read_nested : read "S -> ( S )\nS ->" = .ok nested := by decide +kernel

end Grammar

/-! ## Augmenting -/

/-- Primes are put behind a name. -/
theorem toList_primed (name : String) (n : ℕ) :
    (primed name n).toList = name.toList ++ List.replicate n '\'' := by
  simp [primed]

/-- Among more primed names than used ones there is a new one, so the fresh name is new. -/
theorem freshName_notMem (used : List String) (name : String) : freshName used name ∉ used := by
  rw [freshName]
  set candidates := (List.range (used.length + 1)).map fun k => primed name (k + 1) with hcand
  cases hfind : candidates.find? (!used.contains ·) with
  | some a => simpa using List.find?_some hfind
  | none =>
    -- if all candidates were used there would be more used names than there are
    have hsub : candidates ⊆ used := by
      intro a ha
      simpa using List.find?_eq_none.1 hfind a ha
    have hnodup : candidates.Nodup := by
      refine List.nodup_range.map fun a b hab => ?_
      have := congrArg (fun t : String => t.toList.length) hab
      simpa [toList_primed] using this
    have hlen := (hnodup.subperm hsub).length_le
    rw [hcand, List.length_map, List.length_range] at hlen
    exact absurd hlen (Nat.not_succ_le_self _)

/-- The fresh name has as few primes as possible: with fewer of them it is used. -/
theorem exists_freshName_eq (used : List String) (name : String) :
    ∃ n, freshName used name = primed name (n + 1) ∧ ∀ m < n, primed name (m + 1) ∈ used := by
  rw [freshName, List.find?_map]
  cases hfind : (List.range (used.length + 1)).find?
      ((!used.contains ·) ∘ fun k => primed name (k + 1)) with
  | some n =>
    refine ⟨n, rfl, fun m hm => ?_⟩
    simpa using (List.find?_range_eq_some.1 hfind).2.2 m hm
  | none =>
    refine ⟨used.length + 1, rfl, fun m hm => ?_⟩
    simpa using List.find?_range_eq_none.1 hfind m hm

/-- A nonterminal with primes is named like a nonterminal. -/
theorem isNonterminal_primed {name : String} (h : Grammar.isNonterminal name = true) (n : ℕ) :
    Grammar.isNonterminal (primed name n) = true := by
  rw [Grammar.isNonterminal] at h ⊢
  rw [toList_primed]
  cases hname : name.toList with
  | nil => simp [hname] at h
  | cons c cs => simpa [hname] using h

/-- The productions, the start symbol and the end marker have numbers of the vocabularies. -/
structure Augmented.Indexed (g : Augmented) : Prop extends g.grammar.Indexed where
  start_lt : g.start < g.nonterminals.size
  endMarker_lt : g.endMarker < g.terminals.size

namespace Grammar

variable {g : Grammar} {s : Symbol}

/-- Augmenting a grammar puts the start production in front of the others. -/
theorem productions_augment (g : Grammar) :
    g.augment.productions = ⟨g.augment.start, [.nonterminal g.start]⟩ :: g.productions := rfl

/-- An augmented grammar has productions. -/
theorem productions_augment_ne_nil (g : Grammar) : g.augment.productions ≠ [] :=
  List.cons_ne_nil _ _

/-- Every production but the first was there before. -/
theorem mem_productions_of_augment {g : Grammar} {k : ℕ} {p : Production} (hk : k ≠ 0)
    (hp : g.augment.productions[k]? = some p) : p ∈ g.productions := by
  obtain ⟨k, rfl⟩ := Nat.exists_eq_succ_of_ne_zero hk
  exact List.mem_of_getElem? hp

/-- The name of the synthetic start symbol. -/
theorem freshName_notMem_nonterminals (g : Grammar) :
    freshName g.nonterminals.names (g.name (.nonterminal g.start)) ∉ g.nonterminals.names :=
  freshName_notMem _ _

/-- The new start symbol gets the first number that is free. -/
theorem start_augment (g : Grammar) : g.augment.start = g.nonterminals.size :=
  Vocabulary.idx_add_of_notMem g.freshName_notMem_nonterminals

/-- The new start symbol has a name that is not in use, and it is added last. -/
theorem nonterminals_augment (g : Grammar) : g.augment.nonterminals =
    g.nonterminals.add (freshName g.nonterminals.names (g.name (.nonterminal g.start))) := rfl

/-- The new start symbol has that name. -/
theorem name?_start_augment (g : Grammar) : g.augment.nonterminals.name? g.augment.start =
    some (freshName g.nonterminals.names (g.name (.nonterminal g.start))) :=
  Vocabulary.name?_idx (Vocabulary.mem_add.2 (.inr rfl))

/-- An augmented grammar has one nonterminal more. -/
theorem size_nonterminals_augment (g : Grammar) :
    g.augment.grammar.nonterminals.size = g.nonterminals.size + 1 :=
  Vocabulary.size_add_of_notMem g.freshName_notMem_nonterminals

/-- Older symbols are in range after augmenting as well. -/
theorem InRange.augment (h : g.InRange s) : g.augment.grammar.InRange s := by
  cases s with
  | terminal t => exact Nat.lt_of_lt_of_le h (Vocabulary.size_le_size_add _ _)
  | nonterminal n =>
    rw [InRange, size_nonterminals_augment]
    exact Nat.lt_succ_of_lt h

/-- Older symbols keep their names. -/
theorem name_augment (h : g.InRange s) : g.augment.name s = g.name s := by
  cases s with
  | terminal t => exact congrArg (·.getD "?") (Vocabulary.name?_add_of_lt h)
  | nonterminal n => exact congrArg (·.getD "?") (Vocabulary.name?_add_of_lt h)

/-- The end marker is a terminal of the augmented grammar. -/
theorem name?_endMarker (g : Grammar) :
    g.augment.terminals.name? g.augment.endMarker = some endMarker :=
  Vocabulary.name?_idx (Vocabulary.mem_add.2 (.inr rfl))

/-- The end marker is a terminal of the augmented grammar. -/
theorem endMarker_lt (g : Grammar) : g.augment.endMarker < g.augment.terminals.size :=
  Vocabulary.lt_size_of_name? g.name?_endMarker

/-- The end marker has its own name. -/
theorem name_endMarker (g : Grammar) : g.augment.name (.terminal g.augment.endMarker) = endMarker :=
  name_terminal_of_name? g.name?_endMarker

/-- No right-hand side mentions the synthetic start symbol. -/
theorem Indexed.start_notMem (hg : g.Indexed) {p : Production} (hp : p ∈ g.augment.productions) :
    Symbol.nonterminal g.augment.start ∉ p.rhs := by
  rw [start_augment]
  intro hmem
  rw [productions_augment] at hp
  rcases List.mem_cons.1 hp with rfl | hp
  · rw [List.mem_singleton] at hmem
    have := start_lt hg
    rw [← Symbol.nonterminal.inj hmem] at this
    exact Nat.lt_irrefl _ this
  · exact Nat.lt_irrefl _ (hg.rhs_inRange p hp _ hmem)

/-- The augmented grammar is well formed too. -/
theorem WellFormed.augment (hg : g.WellFormed) : g.augment.grammar.WellFormed := by
  have hstart : g.InRange (.nonterminal g.start) := start_lt hg.toIndexed
  have hfresh : isNonterminal (freshName g.nonterminals.names
      (g.name (.nonterminal g.start))) = true := by
    obtain ⟨n, hn, -⟩ := exists_freshName_eq g.nonterminals.names (g.name (.nonterminal g.start))
    rw [hn]
    refine isNonterminal_primed (hg.isNonterminal_nonterminal _ ?_) (n + 1)
    exact Vocabulary.mem_of_name? (name?_of_inRange_nonterminal hstart)
  refine ⟨⟨?_, ?_⟩, ?_, ?_⟩
  · intro p hp
    rw [size_nonterminals_augment]
    rcases List.mem_cons.1 hp with rfl | hp
    · exact Nat.lt_succ_of_le (Nat.le_of_eq (start_augment g))
    · exact Nat.lt_succ_of_lt (hg.lhs_lt p hp)
  · intro p hp s hs
    rcases List.mem_cons.1 hp with rfl | hp
    · rw [List.mem_singleton] at hs
      subst hs
      exact hstart.augment
    · exact (hg.rhs_inRange p hp s hs).augment
  · intro a ha
    rcases Vocabulary.mem_add.1 ha with ha | rfl
    · exact hg.isNonterminal_terminal a ha
    · decide
  · intro a ha
    rcases Vocabulary.mem_add.1 ha with ha | rfl
    · exact hg.isNonterminal_nonterminal a ha
    · exact hfresh

/-- The productions of an augmented grammar are over symbols that it has. -/
theorem WellFormed.indexed_augment (hg : g.WellFormed) : g.augment.Indexed where
  toIndexed := hg.augment.toIndexed
  start_lt := by
    rw [start_augment]
    exact (size_nonterminals_augment g).symm ▸ Nat.lt_succ_self _
  endMarker_lt := endMarker_lt g

end Grammar

end ShiftReduce
