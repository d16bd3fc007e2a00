import Mathlib.Data.List.DropRight
import ShiftReduce.Proofs.Automaton.Renumbering
import ShiftReduce.Proofs.Grammar.Naming
import ShiftReduce.Proofs.Tree.Derivation

/-!
# Reordering the lines of a grammar

The lines of a grammar that are not blank can come in any order behind the first one: the text stays
a grammar, with the same symbols and productions by name (`Grammar.Reordered.exists_read`). What
changes are the numbers, so the two augmented grammars are renumberings of each other
(`Grammar.Rearranged.nonempty_renumbering`), and they allow the same derivation trees.
-/

namespace ShiftReduce

/-! ## Places of a permuted list -/

/-- Zero stays, and the successors are permuted as their predecessors are. -/
def permSucc (σ : Equiv.Perm ℕ) : Equiv.Perm ℕ where
  toFun n := n.casesOn 0 fun n => σ n + 1
  invFun n := n.casesOn 0 fun n => σ.symm n + 1
  left_inv n := by cases n <;> simp
  right_inv n := by cases n <;> simp

@[simp] theorem permSucc_zero (σ : Equiv.Perm ℕ) : permSucc σ 0 = 0 := rfl

@[simp] theorem permSucc_succ (σ : Equiv.Perm ℕ) (n : ℕ) : permSucc σ (n + 1) = σ n + 1 := rfl

/-- A permutation of a list is one of its places. -/
theorem exists_perm_getElem? {α : Type} {l l' : List α} (h : l.Perm l') :
    ∃ σ : Equiv.Perm ℕ, ∀ n, l'[σ n]? = l[n]? := by
  induction h with
  | nil => exact ⟨Equiv.refl ℕ, fun _ => rfl⟩
  | cons x _ ih =>
    obtain ⟨σ, hσ⟩ := ih
    refine ⟨permSucc σ, fun n => ?_⟩
    cases n with
    | zero => rfl
    | succ n => simpa using hσ n
  | swap x y l =>
    refine ⟨Equiv.swap 0 1, fun n => ?_⟩
    match n with
    | 0 => rfl
    | 1 => rfl
    | n + 2 =>
      rw [Equiv.swap_apply_of_ne_of_ne (by omega) (by omega)]
      rfl
  | trans _ _ ih ih' =>
    obtain ⟨σ, hσ⟩ := ih
    obtain ⟨σ', hσ'⟩ := ih'
    exact ⟨σ.trans σ', fun n => (hσ' (σ n)).trans (hσ n)⟩

/-! ## Vocabularies of the same names -/

namespace Vocabulary

variable {v v' : Vocabulary}

/-- Vocabularies differ in the order of their names exactly if they have the same ones. -/
theorem perm_names_iff : v.names.Perm v'.names ↔ ∀ a, a ∈ v.names ↔ a ∈ v'.names :=
  List.perm_ext_iff_of_nodup v.nodup v'.nodup

/-- A name added to both keeps two vocabularies alike up to order. -/
theorem perm_names_add (h : v.names.Perm v'.names) (a : String) :
    (v.add a).names.Perm (v'.add a).names := by
  rw [perm_names_iff] at h ⊢
  simp only [mem_add, h, implies_true]

/-- Reordered names make vocabularies that are alike up to order. -/
theorem perm_names_ofList {names names' : List String} (h : names.Perm names') :
    (ofList names).names.Perm (ofList names').names := by
  rw [perm_names_iff]
  simp only [mem_ofList, h.mem_iff, implies_true]

end Vocabulary

/-- A fresh name does not depend on the order of the used ones. -/
theorem freshName_eq_of_perm {used used' : List String} (h : used.Perm used') (name : String) :
    freshName used name = freshName used' name := by
  have hcontains : ∀ a, used.contains a = used'.contains a := by
    intro a
    rw [Bool.eq_iff_iff, List.contains_iff_mem, List.contains_iff_mem, h.mem_iff]
  rw [freshName, freshName, h.length_eq]
  simp only [hcontains]

namespace Grammar

open Text

/-! ## Reading the lines in another order -/

/-- The lines of a text that are not blank, without the carriage returns at their ends. -/
def nonblankLines (text : String) : List (List Char) :=
  ((lines text.toList).filter fun cs => !cs.all isBlank).map (List.rdropWhile (· == '\r'))

/-- The second text has the lines of the first one that are not blank in another order, with the
first of them still in front. Blank lines may stand anywhere in either. -/
structure Reordered (text text' : String) : Prop where
  perm : (nonblankLines text).Perm (nonblankLines text')
  head?_eq : (nonblankLines text).head? = (nonblankLines text').head?

/-- A carriage return at the end of a line belongs to its right half. -/
theorem splitArrow_append_return (cs : List Char) : splitArrow (cs ++ ['\r']) =
    (splitArrow cs).map fun (left, right) => (left, right ++ ['\r']) := by
  induction cs with
  | nil => rfl
  | cons c cs ih =>
    have hhead : (cs ++ ['\r']).head? = some '>' ↔ cs.head? = some '>' := by
      cases cs <;> simp
    simp only [List.cons_append, splitArrow, hhead, ih]
    split
    · rename_i h
      cases cs with
      | nil => exact absurd h.2 (by simp)
      | cons d cs => rfl
    · cases splitArrow cs <;> rfl

/-- A carriage return at the end of a line is no part of a symbol. -/
theorem symbolsFrom_append_return (word cs : List Char) :
    symbolsFrom word (cs ++ ['\r']) = symbolsFrom word cs := by
  have hblank : isBlank '\r' = true := by decide
  have hgap : isGap '\r' = true := by decide
  induction cs generalizing word with
  | nil => simp [symbolsFrom, hblank, hgap, closeWord]
  | cons c cs ih => simp only [List.cons_append, symbolsFrom, ih]

/-- A carriage return at the end of a line says nothing. -/
theorem readLine_append_return (cs : List Char) : readLine (cs ++ ['\r']) = readLine cs := by
  rw [readLine, readLine, splitArrow_append_return]
  cases splitArrow cs with
  | none => rfl
  | some halves =>
    simp only [Option.map_some, bind, Option.bind_some, symbolsOf, symbolsFrom_append_return]

/-- Carriage returns at the end of a line do not matter. -/
theorem readLine_rdropWhile (cs : List Char) :
    readLine (cs.rdropWhile (· == '\r')) = readLine cs := by
  induction cs using List.reverseRecOn with
  | nil => rfl
  | append_singleton cs c ih =>
    rw [List.rdropWhile_concat]
    split
    · rename_i hc
      rw [ih, beq_iff_eq.1 hc, readLine_append_return]
    · rfl

/-- A text is read if each of its lines is, and it holds their productions. -/
theorem readLines_eq_ok_iff {ls : List (List Char)} {line : ℕ} {rules : List NamedRule} :
    readLines line ls = .ok rules ↔
      (∀ cs ∈ ls.filter fun cs => !cs.all isBlank, (readLine cs).isSome = true) ∧
        (ls.filter fun cs => !cs.all isBlank).filterMap readLine = rules := by
  induction ls generalizing line rules with
  | nil => simp [readLines]
  | cons cs ls ih =>
    rw [readLines, List.filter_cons]
    by_cases hblank : cs.all isBlank = true
    · simp only [hblank, if_true, Bool.not_true, Bool.false_eq_true, if_false]
      exact ih
    · simp only [hblank, if_false, Bool.not_false, if_true, List.forall_mem_cons,
        List.filterMap_cons, Bool.false_eq_true]
      cases hread : readLine cs with
      | none => simp
      | some r =>
        have hrest : ∀ rules, readLines (line + 1) ls = .ok rules ↔ _ := fun _ => ih
        cases hlater : readLines (line + 1) ls with
        | error e =>
          simp only [hlater, reduceCtorEq, false_iff, not_and] at hrest
          simp only [Except.map, reduceCtorEq, Option.isSome_some, true_and, false_iff, not_and]
          intro hall hrules
          exact hrest _ hall rfl
        | ok later =>
          simp only [hlater, Except.ok.injEq] at hrest
          obtain ⟨hall, rfl⟩ := (hrest later).1 rfl
          simp only [Except.map, Except.ok.injEq, Option.isSome_some, true_and]
          exact ⟨fun h => ⟨hall, h⟩, fun h => h.2⟩

/-- A text is read as a grammar exactly if its lines that are not blank are read as productions,
which make it. -/
theorem read_eq_ok_iff {text : String} {g : Grammar} : read text = .ok g ↔
    (∀ cs ∈ nonblankLines text, (readLine cs).isSome = true) ∧
      ofRules ((nonblankLines text).filterMap readLine) = .ok g := by
  have hstrip : readLine ∘ List.rdropWhile (· == '\r') = readLine := funext readLine_rdropWhile
  have hmem : (∀ cs ∈ nonblankLines text, (readLine cs).isSome = true) ↔
      ∀ cs ∈ (lines text.toList).filter fun cs => !cs.all isBlank, (readLine cs).isSome = true := by
    simp only [nonblankLines, List.forall_mem_map, readLine_rdropWhile]
  rw [hmem, nonblankLines, List.filterMap_map, hstrip, read]
  have hlines : ∀ rules, readLines 1 (lines text.toList) = .ok rules ↔ _ :=
    fun _ => readLines_eq_ok_iff
  cases hread : readLines 1 (lines text.toList) with
  | error e =>
    simp only [hread, reduceCtorEq, false_iff, not_and] at hlines
    simp only [bind, Except.bind, reduceCtorEq, false_iff, not_and]
    exact fun hall => absurd rfl (hlines _ hall)
  | ok rules =>
    obtain ⟨hall, hrules⟩ := (hlines rules).1 hread
    rw [hrules]
    exact ⟨fun h => ⟨hall, h⟩, fun h => h.2⟩

/-! ## Grammars that differ in their numbers -/

variable {g g' : Grammar} {rules rules' : List NamedRule} {p : Production}

/-- The start symbol is on the left of the first production. -/
theorem head?_map_named (g : Grammar) : ((g.productions.map g.named).head?).map (·.lhs) =
    some (g.name (.nonterminal g.start)) := by
  rw [List.head?_map, List.head?_eq_some_head g.productions_ne_nil]
  rfl

/-- Both grammars have the same symbols and productions by name, and the same start symbol. -/
structure Rearranged (g g' : Grammar) : Prop where
  terminals : g.terminals.names.Perm g'.terminals.names
  nonterminals : g.nonterminals.names.Perm g'.nonterminals.names
  productions : (g.productions.map g.named).Perm (g'.productions.map g'.named)
  start : g.name (.nonterminal g.start) = g'.name (.nonterminal g'.start)

/-- The order of productions can be changed back. -/
theorem Rearranged.symm (h : Rearranged g g') : Rearranged g' g where
  terminals := h.terminals.symm
  nonterminals := h.nonterminals.symm
  productions := h.productions.symm
  start := h.start.symm

/-- Productions in another order, the first one kept, make a grammar with other numbers. -/
theorem exists_rearranged (hlhs : ∀ r ∈ rules, isNonterminal r.lhs = true)
    (hperm : rules.Perm rules') (hhead : rules.head? = rules'.head?) (h : ofRules rules = .ok g) :
    ∃ g', ofRules rules' = .ok g' ∧ Rearranged g g' := by
  have hmade := madeFrom_of_ofRules h
  have hwritten : (writtenSymbols rules).Perm (writtenSymbols rules') := hperm.flatMap_right _
  have hne : rules' ≠ [] := fun hnil => hmade.ne_nil (List.perm_nil.1 (hnil ▸ hperm))
  have hdefined : ∀ a ∈ writtenSymbols rules', isNonterminal a = true →
      a ∈ rules'.map (·.lhs) := fun a ha hkind =>
    (hperm.map _).mem_iff.1 (hmade.mem_map_lhs (hwritten.mem_iff.2 ha) hkind)
  obtain ⟨g', h'⟩ := exists_ofRules hne hdefined
  have hmade' := madeFrom_of_ofRules h'
  have hnamed := hmade.map_named hlhs
  have hnamed' := hmade'.map_named fun r hr => hlhs r (hperm.mem_iff.2 hr)
  refine ⟨g', h', ?_, ?_, ?_, ?_⟩
  · rw [hmade.terminals, hmade'.terminals]
    exact Vocabulary.perm_names_ofList (hwritten.filter _)
  · rw [hmade.nonterminals, hmade'.nonterminals]
    exact Vocabulary.perm_names_ofList (hwritten.filter _)
  · rwa [hnamed, hnamed']
  · have hstart := head?_map_named g
    have hstart' := head?_map_named g'
    rw [hnamed, hhead] at hstart
    rw [hnamed', hstart] at hstart'
    exact Option.some.inj hstart'

/-- A text with its lines in another order is a grammar with other numbers. -/
theorem Reordered.exists_read {text text' : String} (h : Reordered text text')
    (hread : read text = .ok g) : ∃ g', read text' = .ok g' ∧ Rearranged g g' := by
  obtain ⟨hall, hrules⟩ := read_eq_ok_iff.1 hread
  have hlhs : ∀ r ∈ (nonblankLines text).filterMap readLine, isNonterminal r.lhs = true := by
    intro r hr
    obtain ⟨cs, -, hcs⟩ := List.mem_filterMap.1 hr
    exact isNonterminal_lhs_of_readLine hcs
  -- the first line holds a production, so the first production is that of the first line
  have hhead : ∀ {ls : List (List Char)}, (∀ cs ∈ ls, (readLine cs).isSome = true) →
      (ls.filterMap readLine).head? = ls.head?.bind readLine := by
    intro ls hls
    cases ls with
    | nil => rfl
    | cons cs ls =>
      obtain ⟨r, hr⟩ := Option.isSome_iff_exists.1 (hls cs List.mem_cons_self)
      simp [hr]
  have hall' : ∀ cs ∈ nonblankLines text', (readLine cs).isSome = true := fun cs hcs =>
    hall cs (h.perm.mem_iff.2 hcs)
  obtain ⟨g', hrules', hrearranged⟩ := exists_rearranged hlhs (h.perm.filterMap readLine)
    (by rw [hhead hall, hhead hall', h.head?_eq]) hrules
  exact ⟨g', read_eq_ok_iff.2 ⟨hall', hrules'⟩, hrearranged⟩

/-- The grammar of one word, from two nonterminals. -/
def pair : Grammar where
  terminals := ⟨["a", "b"], by decide⟩
  nonterminals := ⟨["S", "A", "B"], by decide⟩
  productions := [⟨0, [.nonterminal 1, .nonterminal 2]⟩, ⟨1, [.terminal 0]⟩, ⟨2, [.terminal 1]⟩]
  productions_ne_nil := by decide

/-- The grammar is what its three lines are read as. -/
theorem read_pair : read "S -> A B\nA -> a\nB -> b" = .ok pair := by decide +kernel

/-! ## Derivation trees -/

/-- Derivation trees speak of names, so the order of productions does not matter to them. -/
theorem Rearranged.isDerivation (h : Rearranged g g') {t : Tree} (ht : t.IsDerivation g) :
    t.IsDerivation g' := by
  induction ht with
  | leaf ha => exact .leaf (h.terminals.mem_iff.1 ha)
  | @node p cs hp hcs _ ih =>
    have hmem : g.named p ∈ g'.productions.map g'.named :=
      h.productions.mem_iff.1 (List.mem_map_of_mem hp)
    obtain ⟨p', hp', heq⟩ := List.mem_map.1 hmem
    obtain ⟨hlhs, hrhs⟩ := NamedRule.mk.inj heq
    rw [← hlhs]
    exact .node hp' (hcs.trans hrhs.symm) ih

/-- Both grammars have the same derivation trees for their start symbols. -/
theorem Rearranged.spells_start_iff (h : Rearranged g g') {t : Tree} :
    t.Spells g (.nonterminal g.start) ↔ t.Spells g' (.nonterminal g'.start) :=
  ⟨fun ht => ⟨ht.name_eq.trans h.start, h.isDerivation ht.isDerivation⟩,
    fun ht => ⟨ht.name_eq.trans h.start.symm, h.symm.isDerivation ht.isDerivation⟩⟩

/-! ## The renumbering -/

/-- The symbol of the same name has the new number. -/
theorem renumber_eq_of_name {g g' : Grammar} (hg' : g'.WellFormed) {σ τ : Equiv.Perm ℕ}
    (hσ : ∀ n, g'.terminals.names[σ n]? = g.terminals.names[n]?)
    (hτ : ∀ n, g'.nonterminals.names[τ n]? = g.nonterminals.names[n]?) {s s' : Symbol}
    (hs : g.InRange s) (hs' : g'.InRange s') (h : g.name s = g'.name s') :
    s.renumber σ τ = s' := by
  cases s with
  | terminal t =>
    have hname : g'.terminals.name? (σ t) = some (g.name (.terminal t)) :=
      (hσ t).trans (name?_of_inRange_terminal hs)
    refine hg'.name_injective (Vocabulary.lt_size_of_name? hname) hs' ?_
    rw [Symbol.renumber, name_terminal_of_name? hname, h]
  | nonterminal n =>
    have hname : g'.nonterminals.name? (τ n) = some (g.name (.nonterminal n)) :=
      (hτ n).trans (name?_of_inRange_nonterminal hs)
    refine hg'.name_injective (Vocabulary.lt_size_of_name? hname) hs' ?_
    rw [Symbol.renumber, ← h]
    simp [name, hname]

/-- The numbers of symbols are changed so that their names stay. -/
structure KeepsNames (g g' : Grammar) (σ τ : Equiv.Perm ℕ) : Prop where
  symbol : ∀ s s', g.InRange s → g'.InRange s' → g.name s = g'.name s' → s.renumber σ τ = s'
  start : τ g.augment.start = g'.augment.start
  endMarker : σ g.augment.endMarker = g'.augment.endMarker

/-- Two grammars with the same names have renumberings between them that keep the names. -/
theorem Rearranged.exists_keepsNames (hg' : g'.WellFormed) (h : Rearranged g g') :
    ∃ σ τ, KeepsNames g g' σ τ := by
  have hfresh : freshName g'.nonterminals.names (g'.name (.nonterminal g'.start)) =
      freshName g.nonterminals.names (g.name (.nonterminal g.start)) := by
    rw [← h.start, freshName_eq_of_perm h.nonterminals]
  have hnonterminals : g.augment.nonterminals.names.Perm g'.augment.nonterminals.names := by
    rw [nonterminals_augment, nonterminals_augment, hfresh]
    exact Vocabulary.perm_names_add h.nonterminals _
  obtain ⟨σ, hσ⟩ := exists_perm_getElem? (Vocabulary.perm_names_add h.terminals endMarker)
  obtain ⟨τ, hτ⟩ := exists_perm_getElem? hnonterminals
  refine ⟨σ, τ, ?_, ?_, ?_⟩
  · intro s s' hs hs' heq
    refine renumber_eq_of_name hg'.augment hσ hτ hs.augment hs'.augment ?_
    exact (name_augment hs).trans (heq.trans (name_augment hs').symm)
  · refine Vocabulary.name?_injective ((hτ _).trans g.name?_start_augment) ?_
    rw [name?_start_augment, hfresh]
  · exact Vocabulary.name?_injective ((hσ _).trans g.name?_endMarker) g'.name?_endMarker

/-- A production becomes the one with the same names. -/
theorem KeepsNames.production {σ τ : Equiv.Perm ℕ} (h : KeepsNames g g' σ τ) (hg : g.WellFormed)
    (hg' : g'.WellFormed) {p p' : Production} (hp : p ∈ g.productions) (hp' : p' ∈ g'.productions)
    (heq : g.named p = g'.named p') : p.renumber σ τ = p' := by
  obtain ⟨hlhs, hrhs⟩ := NamedRule.mk.inj heq
  have hlhs' : Symbol.nonterminal (τ p.lhs) = .nonterminal p'.lhs :=
    h.symbol (.nonterminal p.lhs) (.nonterminal p'.lhs) (hg.lhs_lt p hp) (hg'.lhs_lt p' hp') hlhs
  have hrhs' := map_eq_of_map_eq_map (fun s hs s' hs' =>
    h.symbol s s' (hg.rhs_inRange p hp s hs) (hg'.rhs_inRange p' hp' s' hs')) hrhs
  rw [Production.renumber, Symbol.nonterminal.inj hlhs', hrhs']

/-- The augmented grammars are the same but for their numbers. -/
theorem Rearranged.nonempty_renumbering (hg : g.WellFormed) (hg' : g'.WellFormed)
    (h : Rearranged g g') : Nonempty (Renumbering g.augment g'.augment) := by
  obtain ⟨σ, τ, hnames⟩ := h.exists_keepsNames hg'
  obtain ⟨π, hπ⟩ := exists_perm_getElem? h.productions
  refine ⟨⟨permSucc π, σ, τ, rfl, hnames.start, hnames.endMarker, fun n => ?_⟩⟩
  rw [productions_augment, productions_augment]
  cases n with
  | zero =>
    have hold :=
      hnames.symbol _ _ (start_inRange hg.toIndexed) (start_inRange hg'.toIndexed) h.start
    simp [Production.renumber, hnames.start, hold]
  | succ n =>
    have hn := hπ n
    rw [List.getElem?_map, List.getElem?_map] at hn
    rw [permSucc_succ, List.getElem?_cons_succ, List.getElem?_cons_succ]
    cases hp : g.productions[n]? with
    | none => simpa [hp] using hn
    | some p =>
      rw [hp, Option.map_some, Option.map_eq_some_iff] at hn
      obtain ⟨p', hp', heq⟩ := hn
      rw [hp', Option.map_some, hnames.production hg hg' (List.mem_of_getElem? hp)
        (List.mem_of_getElem? hp') heq.symm]

end Grammar

end ShiftReduce
