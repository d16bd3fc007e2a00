import ShiftReduce.Proofs.Grammar.Naming

/-!
# Numbers and names of a grammar that was read

Later stages look productions up by the numbers of their nonterminals and write symbols by their
names, without a check. A grammar that was read gives no cause for one, before and after it is
augmented (`read_consistent`): all numbers are in range, numbers and names determine each other, and
every nonterminal has a production. The name of the new start symbol is found by putting primes
behind the old one, which ends because only so many names are used (`primes_freshName`).
-/

namespace ShiftReduce

namespace Vocabulary

/-- Numbers and names determine each other. -/
structure OneToOne (v : Vocabulary) : Prop where
  nodup : v.names.Nodup
  idx?_eq_iff : ∀ a i, v.idx? a = some i ↔ v.name? i = some a

/-- In every vocabulary numbers and names lead to each other. -/
theorem oneToOne (v : Vocabulary) : v.OneToOne := ⟨v.nodup, fun _ _ => idx?_eq_some_iff⟩

/-- The numbers of `v` have the same names in `v'`, and the names of `v` the same numbers. -/
structure Keeps (v v' : Vocabulary) : Prop where
  name?_eq : ∀ i < v.size, v'.name? i = v.name? i
  idx?_eq : ∀ a ∈ v.names, v'.idx? a = v.idx? a

/-- Adding a name keeps the numbers of the others. -/
theorem keeps_add (v : Vocabulary) (name : String) : v.Keeps (v.add name) where
  name?_eq _ hi := name?_add_of_lt hi
  idx?_eq := by
    intro a ha
    have hold : v.name? (v.idx a) = some a := name?_idx ha
    have hnew : (v.add name).name? (v.idx a) = some a := by
      rw [name?_add_of_lt (idx_lt_size ha), hold]
    rw [idx?_eq_some_iff.2 hold, idx?_eq_some_iff.2 hnew]

/-- What appears first has the number 0. -/
theorem idx_ofList_cons (a : String) (as : List String) : (ofList (a :: as)).idx a = 0 := by
  have hfirst := find?_names_ofList (fun _ => true) (a :: as)
  rw [idx]
  cases hnames : (ofList (a :: as)).names with
  | nil => simp [hnames] at hfirst
  | cons b bs =>
    obtain rfl : b = a := by simpa [hnames] using hfirst
    exact List.idxOf_cons_self

end Vocabulary

/-! ## The name of the new start symbol -/

/-- Without primes the name is what it was. -/
theorem primed_zero (name : String) : primed name 0 = name := by
  simp [primed]

/-- A prime of the name counts as one more prime. -/
theorem primed_prime (name : String) (n : ℕ) : primed (name ++ "'") n = primed name (n + 1) := by
  rw [← String.toList_inj, toList_primed, toList_primed, String.toList_append, List.replicate_succ]
  exact List.append_assoc _ _ _

/-- Primes are put behind a name for as long as it is used. -/
inductive Primes (used : List String) : String → String → Prop
  | new {a : String} (ha : a ∉ used) : Primes used a a
  | prime {a b : String} (ha : a ∈ used) (h : Primes used (a ++ "'") b) : Primes used a b

/-- The name with the first number of primes that is not in use is found by adding primes one by
one. -/
theorem primes_primed {used : List String} {name : String} {n : ℕ}
    (hused : ∀ m < n, primed name (m + 1) ∈ used) (hnew : primed name (n + 1) ∉ used) :
    Primes used (name ++ "'") (primed name (n + 1)) := by
  induction n generalizing name with
  | zero =>
    rw [← primed_prime, primed_zero] at hnew ⊢
    exact .new hnew
  | succ n ih =>
    have hfirst := hused 0 (Nat.succ_pos n)
    rw [← primed_prime, primed_zero] at hfirst
    rw [← primed_prime] at hnew ⊢
    refine .prime hfirst (ih (fun m hm => ?_) hnew)
    rw [primed_prime]
    exact hused (m + 1) (Nat.succ_lt_succ hm)

/-- Putting primes behind a name ends, with the fresh name. -/
theorem primes_freshName (used : List String) (name : String) :
    Primes used (name ++ "'") (freshName used name) := by
  obtain ⟨n, hn, hused⟩ := exists_freshName_eq used name
  have hnew := freshName_notMem used name
  rw [hn] at hnew ⊢
  exact primes_primed hused hnew

/-! ## Grammars as they are read -/

/-- Every number that occurs in a grammar stands for something, and every name for one thing. -/
structure Grammar.Consistent (g : Grammar) : Prop extends g.Indexed where
  terminals : g.terminals.OneToOne
  nonterminals : g.nonterminals.OneToOne
  /-- No name stands for a terminal and for a nonterminal. -/
  disjoint : ∀ a ∈ g.terminals.names, a ∉ g.nonterminals.names
  /-- Every nonterminal has a production. -/
  defined : ∀ n < g.nonterminals.size, ∃ p ∈ g.productions, p.lhs = n

/-- `g'` is `g` with a new start symbol, which its first production defines, and with the end
marker. -/
structure Augmented.Extends (g : Grammar) (g' : Augmented) : Prop where
  terminals : g.terminals.Keeps g'.terminals
  nonterminals : g.nonterminals.Keeps g'.nonterminals
  /-- Putting primes behind the name of the old start symbol ends with that of the new one. -/
  primes : Primes g.nonterminals.names (g.name (.nonterminal g.start) ++ "'")
    (g'.name (.nonterminal g'.start))
  name_start_notMem : g'.name (.nonterminal g'.start) ∉ g.nonterminals.names
  name?_start : g'.nonterminals.name? g'.start = some (g'.name (.nonterminal g'.start))
  name?_endMarker : g'.terminals.name? g'.endMarker = some ShiftReduce.endMarker
  production_zero : g'.productions[0]? = some ⟨g'.start, [.nonterminal g.start]⟩
  production_succ : ∀ i, g'.productions[i + 1]? = g.productions[i]?
  /-- The new start symbol is defined by the first production alone. -/
  lhs_eq_start_iff : ∀ i p, g'.productions[i]? = some p → (p.lhs = g'.start ↔ i = 0)
  start_notMem_rhs : ∀ p ∈ g'.productions, .nonterminal g'.start ∉ p.rhs

/-- Every symbol has a name of its own. -/
structure Augmented.NamesApart (g : Augmented) : Prop where
  name?_terminal : ∀ t < g.terminals.size, g.terminals.name? t = some (g.name (.terminal t))
  name?_nonterminal : ∀ n < g.nonterminals.size,
    g.nonterminals.name? n = some (g.name (.nonterminal n))
  name_injective :
    ∀ s s', g.grammar.InRange s → g.grammar.InRange s' → g.name s = g.name s' → s = s'

namespace Grammar

variable {g : Grammar} {rules : List NamedRule}

/-- Names tell terminals from nonterminals. -/
theorem WellFormed.consistent (hg : g.WellFormed)
    (hdefined : ∀ n < g.nonterminals.size, ∃ p ∈ g.productions, p.lhs = n) : g.Consistent where
  toIndexed := hg.toIndexed
  terminals := g.terminals.oneToOne
  nonterminals := g.nonterminals.oneToOne
  disjoint := by
    intro a ha ha'
    have hlower := hg.isNonterminal_terminal a ha
    rw [hg.isNonterminal_nonterminal a ha'] at hlower
    exact absurd hlower (by decide)
  defined := hdefined

/-- Names tell the symbols of the augmented grammar from each other. -/
theorem WellFormed.namesApart (hg : g.WellFormed) : g.augment.NamesApart where
  name?_terminal _ ht := name?_of_inRange_terminal ht
  name?_nonterminal _ hn := name?_of_inRange_nonterminal hn
  name_injective _ _ hs hs' h := hg.augment.name_injective hs hs' h

/-- Every nonterminal of a grammar has a production, since the written ones have. -/
theorem MadeFrom.exists_production (h : MadeFrom rules g) {n : ℕ} (hn : n < g.nonterminals.size) :
    ∃ p ∈ g.productions, p.lhs = n := by
  obtain ⟨a, ha⟩ := Vocabulary.exists_name?_of_lt hn
  obtain ⟨r, hr, hlhs⟩ := List.mem_map.1 (h.defined a (Vocabulary.mem_of_name? ha))
  rw [h.productions]
  refine ⟨_, List.mem_map_of_mem hr, ?_⟩
  dsimp only
  rw [hlhs, Vocabulary.idx_eq_of_name? ha]

/-- The left-hand side of the first production is the first nonterminal that is written. -/
theorem MadeFrom.start_eq_zero (h : MadeFrom rules g)
    (hrules : ∀ r ∈ rules, isNonterminal r.lhs = true) : g.start = 0 := by
  have hstart : g.productions.head?.map (·.lhs) = some g.start := by
    rw [List.head?_eq_some_head g.productions_ne_nil]
    rfl
  obtain ⟨r, rest, rfl⟩ := List.exists_cons_of_ne_nil h.ne_nil
  have hwritten : (writtenSymbols (r :: rest)).filter isNonterminal =
      r.lhs :: (r.rhs ++ writtenSymbols rest).filter isNonterminal := by
    rw [writtenSymbols, List.flatMap_cons, List.cons_append,
      List.filter_cons_of_pos (hrules r List.mem_cons_self)]
    rfl
  rw [h.productions, List.map_cons, List.head?_cons, Option.map_some, h.nonterminals, hwritten,
    Vocabulary.idx_ofList_cons] at hstart
  exact (Option.some.inj hstart).symm

/-! ## Augmenting -/

/-- The new start symbol has a production too. -/
theorem Consistent.augment_defined (hg : g.Consistent) {n : ℕ}
    (hn : n < g.augment.grammar.nonterminals.size) :
    ∃ p ∈ g.augment.grammar.productions, p.lhs = n := by
  rw [size_nonterminals_augment] at hn
  rcases Nat.lt_succ_iff_lt_or_eq.1 hn with hn | rfl
  · obtain ⟨p, hp, hlhs⟩ := hg.defined n hn
    exact ⟨p, List.mem_cons_of_mem _ hp, hlhs⟩
  · exact ⟨_, List.mem_cons_self, start_augment g⟩

/-- Only the start production is one of the new start symbol. -/
theorem Indexed.lhs_eq_start_iff (hg : g.Indexed) {i : ℕ} {p : Production}
    (hp : g.augment.productions[i]? = some p) : p.lhs = g.augment.start ↔ i = 0 := by
  constructor
  · intro hlhs
    by_contra hi
    have hlt := hg.lhs_lt p (mem_productions_of_augment hi hp)
    rw [hlhs, start_augment] at hlt
    exact Nat.lt_irrefl _ hlt
  · rintro rfl
    obtain rfl := Option.some.inj hp
    rfl

/-- Augmenting adds the start symbol and the end marker and changes nothing else. -/
theorem Indexed.augment_extends (hg : g.Indexed) : g.augment.Extends g := by
  have hname : g.augment.name (.nonterminal g.augment.start) =
      freshName g.nonterminals.names (g.name (.nonterminal g.start)) :=
    congrArg (·.getD "?") g.name?_start_augment
  exact {
    terminals := g.terminals.keeps_add _
    nonterminals := g.nonterminals.keeps_add _
    primes := by
      rw [hname]
      exact primes_freshName _ _
    name_start_notMem := by
      rw [hname]
      exact freshName_notMem _ _
    name?_start := by rw [hname, name?_start_augment]
    name?_endMarker := g.name?_endMarker
    production_zero := rfl
    production_succ := fun _ => rfl
    lhs_eq_start_iff := fun _ _ hp => hg.lhs_eq_start_iff hp
    start_notMem_rhs := fun _ hp => hg.start_notMem hp }

/-- A grammar that was read has consistent numbers and names, before and after it is augmented. -/
theorem read_consistent {text : String} (h : read text = .ok g) :
    g.Consistent ∧ g.start = 0 ∧ g.augment.grammar.Consistent ∧ g.augment.Extends g ∧
      g.augment.NamesApart := by
  obtain ⟨rules, hlines, hrules⟩ := exists_rules_of_read h
  have hmade := madeFrom_of_ofRules hrules
  have hlhs := isNonterminal_lhs_of_readLines hlines
  have hg : g.WellFormed := wellFormed_of_ofRules hlhs hrules
  have hconsistent : g.Consistent := hg.consistent fun _ hn => hmade.exists_production hn
  refine ⟨hconsistent, hmade.start_eq_zero hlhs, ?_, hg.augment_extends, hg.namesApart⟩
  exact hg.augment.consistent fun _ hn => hconsistent.augment_defined hn

/-- A grammar that uses primed names of its start symbol, the end marker and a question mark. -/
def taken : Grammar where
  terminals := ⟨["$", "?", "x"], by decide⟩
  nonterminals := ⟨["S", "S'", "S''", "Éa"], by decide⟩
  productions := [⟨0, [.nonterminal 1, .terminal 0, .terminal 1]⟩, ⟨1, [.nonterminal 2]⟩,
    ⟨2, [.nonterminal 3]⟩, ⟨3, [.nonterminal 0, .terminal 2]⟩, ⟨3, []⟩]
  productions_ne_nil := by decide

/-- The grammar is what its five lines are read as. -/
theorem read_taken : read "S -> S' $ ?\nS' -> S''\nS'' -> Éa\nÉa -> S x\nÉa ->" = .ok taken := by
  decide +kernel

/-- The new start symbol gets three primes, and the end marker keeps its number. -/
theorem read_consistent_taken :
    read "S -> S' $ ?\nS' -> S''\nS'' -> Éa\nÉa -> S x\nÉa ->" = .ok taken ∧
      (taken.Consistent ∧ taken.start = 0 ∧ taken.augment.grammar.Consistent ∧
        taken.augment.Extends taken ∧ taken.augment.NamesApart) ∧
      taken.augment.name (.nonterminal taken.augment.start) = "S'''" ∧
      taken.augment.endMarker = 0 :=
  ⟨read_taken, read_consistent read_taken, by decide +kernel, by decide +kernel⟩

end Grammar

end ShiftReduce
