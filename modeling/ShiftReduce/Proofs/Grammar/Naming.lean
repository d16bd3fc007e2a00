import Mathlib.Data.List.Induction
import Mathlib.Data.List.Sort
import ShiftReduce.Proofs.Grammar.WellFormed

/-!
# Grammars by name

A grammar that is made from productions numbers their symbols, the terminals and the nonterminals
each by first appearance. What is numbered that way, and which productions the numbers stand for, is
said without the numbering itself (`ByAppearance`, `Numbers`), and determines the grammar
(`Numbers.unique`). Making a grammar fails where nothing is written or where a nonterminal is not
defined, and of those that are not defined it names the one that appears first
(`ofRules_eq_ok_iff`, `ofRules_eq_undefined_iff`).
-/

namespace ShiftReduce

/-- Lists are the same if their members are, as far as two functions tell them apart. -/
theorem map_eq_of_map_eq_map {α β γ : Type} {f : α → β} {u : α → γ} {v : β → γ} {as : List α}
    {bs : List β} (hf : ∀ a ∈ as, ∀ b ∈ bs, u a = v b → f a = b) (h : as.map u = bs.map v) :
    as.map f = bs := by
  induction as generalizing bs with
  | nil => exact (List.map_eq_nil_iff.1 h.symm).symm
  | cons a as ih =>
    cases bs with
    | nil => exact absurd h (by simp)
    | cons b bs =>
      obtain ⟨hhead, hrest⟩ := List.cons.inj h
      rw [List.map_cons, hf a List.mem_cons_self b List.mem_cons_self hhead]
      exact congrArg _ (ih (fun x hx y hy =>
        hf x (List.mem_cons_of_mem _ hx) y (List.mem_cons_of_mem _ hy)) hrest)

/-! ## Numbering by first appearance -/

/-- The names are those that are written, each once, in the order in which they first appear. -/
structure ByAppearance (written names : List String) : Prop where
  mem_iff : ∀ a, a ∈ names ↔ a ∈ written
  ascending : names.Pairwise fun a b => written.idxOf a < written.idxOf b

/-- First appearance leaves one order of the names. -/
theorem ByAppearance.unique {written names names' : List String} (h : ByAppearance written names)
    (h' : ByAppearance written names') : names = names' := by
  have hnodup : ∀ {l : List String}, ByAppearance written l → l.Nodup := by
    intro l hl
    apply hl.ascending.imp
    rintro a b hlt rfl
    exact Nat.lt_irrefl _ hlt
  have hperm : names.Perm names' := (List.perm_ext_iff_of_nodup (hnodup h) (hnodup h')).2
    fun a => (h.mem_iff a).trans (h'.mem_iff a).symm
  exact hperm.eq_of_pairwise (fun a b _ _ hab hba => absurd hba (Nat.lt_asymm hab)) h.ascending
    h'.ascending

namespace Vocabulary

variable {v : Vocabulary} {names : List String}

/-- A name that is written last is added last. -/
theorem ofList_concat (names : List String) (a : String) :
    ofList (names ++ [a]) = (ofList names).add a := by
  simp [ofList]

/-- A vocabulary numbers names by first appearance. -/
theorem byAppearance_ofList (names : List String) : ByAppearance names (ofList names).names := by
  induction names using List.reverseRecOn with
  | nil => exact ⟨fun a => Iff.rfl, .nil⟩
  | append_singleton names a ih =>
    have hbefore : ∀ b ∈ names, (names ++ [a]).idxOf b = names.idxOf b := fun b hb =>
      List.idxOf_append_of_mem hb
    -- the places of the earlier names stay, and a new name comes behind them
    have hascending : (ofList names).names.Pairwise fun b c =>
        (names ++ [a]).idxOf b < (names ++ [a]).idxOf c := by
      refine ih.ascending.imp_of_mem fun {b c} hb hc hlt => ?_
      rwa [hbefore b ((ih.mem_iff b).1 hb), hbefore c ((ih.mem_iff c).1 hc)]
    refine ⟨fun b => mem_ofList, ?_⟩
    rw [ofList_concat, names_add]
    split
    · exact hascending
    · rename_i hnew
      refine List.pairwise_append.2 ⟨hascending, List.pairwise_singleton _ _, fun b hb c hc => ?_⟩
      obtain rfl := List.mem_singleton.1 hc
      have hb' := (ih.mem_iff b).1 hb
      have hc' : c ∉ names := fun hmem => hnew ((ih.mem_iff c).2 hmem)
      rw [hbefore b hb', List.idxOf_append_of_notMem hc']
      exact Nat.lt_of_lt_of_le (List.idxOf_lt_length_of_mem hb') (Nat.le_add_right _ _)

/-- The vocabulary of a text is the one by first appearance. -/
theorem eq_ofList_iff : v = ofList names ↔ ByAppearance names v.names := by
  constructor
  · rintro rfl
    exact byAppearance_ofList names
  · intro h
    exact Vocabulary.ext (h.unique (byAppearance_ofList names))

/-- Of the names with some property, the first one in the vocabulary appears first. -/
theorem find?_names_ofList (p : String → Bool) (names : List String) :
    (ofList names).names.find? p = names.find? p := by
  induction names using List.reverseRecOn with
  | nil => rfl
  | append_singleton names a ih =>
    rw [ofList_concat, names_add, List.find?_append, ← ih]
    split
    · rename_i hmem
      cases hfind : (ofList names).names.find? p with
      | some b => rfl
      | none =>
        have ha : ¬ p a = true := List.find?_eq_none.1 hfind a hmem
        simp [ha]
    · exact List.find?_append

end Vocabulary

namespace Grammar

/-! ## The symbols and productions by name -/

/-- A production by the names of its symbols. -/
def named (g : Grammar) (p : Production) : NamedRule where
  lhs := g.name (.nonterminal p.lhs)
  rhs := p.rhs.map g.name

/-- What a grammar is made of when it is made from productions. -/
structure MadeFrom (rules : List NamedRule) (g : Grammar) : Prop where
  terminals : g.terminals = .ofList ((writtenSymbols rules).filter (!isNonterminal ·))
  nonterminals : g.nonterminals = .ofList ((writtenSymbols rules).filter isNonterminal)
  productions : g.productions = rules.map fun r =>
    ⟨g.nonterminals.idx r.lhs, r.rhs.map (number g.terminals g.nonterminals)⟩
  defined : ∀ a ∈ g.nonterminals.names, a ∈ rules.map (·.lhs)

variable {g g' : Grammar} {rules : List NamedRule}

/-- A grammar that productions lead to is made from them. -/
theorem madeFrom_of_ofRules (h : ofRules rules = .ok g) : MadeFrom rules g := by
  rw [ofRules] at h
  split at h
  · exact absurd h (by simp)
  split at h
  · exact absurd h (by simp)
  · rename_i hfind
    obtain rfl := Except.ok.inj h
    refine ⟨rfl, rfl, rfl, fun a ha => ?_⟩
    simpa using List.find?_eq_none.1 hfind a ha

/-- Productions that define what they use lead to a grammar. -/
theorem exists_ofRules (hne : rules ≠ [])
    (hdefined : ∀ a ∈ writtenSymbols rules, isNonterminal a = true → a ∈ rules.map (·.lhs)) :
    ∃ g, ofRules rules = .ok g := by
  rw [ofRules, dif_neg (by simpa using hne)]
  split
  · rename_i a hfind
    have ha := List.mem_of_find?_eq_some hfind
    rw [Vocabulary.mem_ofList, List.mem_filter] at ha
    have hundefined : a ∉ rules.map (·.lhs) := by simpa using List.find?_some hfind
    exact absurd (hdefined a ha.1 ha.2) hundefined
  · exact ⟨_, rfl⟩

/-- The name of the number of a written symbol is that symbol. -/
theorem MadeFrom.name_number (h : MadeFrom rules g) {a : String} (ha : a ∈ writtenSymbols rules) :
    g.name (number g.terminals g.nonterminals a) = a := by
  rw [number]
  split
  · rename_i hkind
    have hmem : a ∈ g.nonterminals.names := by
      rw [h.nonterminals, Vocabulary.mem_ofList, List.mem_filter]
      exact ⟨ha, hkind⟩
    simp [name, Vocabulary.name?_idx hmem]
  · rename_i hkind
    have hmem : a ∈ g.terminals.names := by
      rw [h.terminals, Vocabulary.mem_ofList, List.mem_filter]
      exact ⟨ha, by simpa using hkind⟩
    simp [name, Vocabulary.name?_idx hmem]

/-- The productions are by name what the grammar is made from. -/
theorem MadeFrom.map_named (h : MadeFrom rules g)
    (hrules : ∀ r ∈ rules, isNonterminal r.lhs = true) : g.productions.map g.named = rules := by
  have hname : ∀ r ∈ rules, (g.named ∘ fun r =>
      ⟨g.nonterminals.idx r.lhs, r.rhs.map (number g.terminals g.nonterminals)⟩) r = id r := by
    intro r hr
    have hwritten : ∀ a ∈ r.lhs :: r.rhs, a ∈ writtenSymbols rules := fun a ha =>
      List.mem_flatMap.2 ⟨r, hr, ha⟩
    have hlhs := h.name_number (hwritten r.lhs List.mem_cons_self)
    have hrhs : r.rhs.map (g.name ∘ number g.terminals g.nonterminals) = r.rhs.map id :=
      List.map_congr_left fun a ha => h.name_number (hwritten a (List.mem_cons_of_mem _ ha))
    rw [number, if_pos (hrules r hr)] at hlhs
    rw [Function.comp_apply, named, List.map_map, hrhs, hlhs, List.map_id, id]
  rw [h.productions, List.map_map, List.map_congr_left hname, List.map_id]

/-- A grammar is made from at least one production. -/
theorem MadeFrom.ne_nil (h : MadeFrom rules g) : rules ≠ [] := by
  rintro rfl
  exact g.productions_ne_nil h.productions

/-- Every nonterminal that is written stands on a left-hand side. -/
theorem MadeFrom.mem_map_lhs (h : MadeFrom rules g) {a : String} (ha : a ∈ writtenSymbols rules)
    (hkind : isNonterminal a = true) : a ∈ rules.map (·.lhs) := by
  apply h.defined
  rw [h.nonterminals, Vocabulary.mem_ofList, List.mem_filter]
  exact ⟨ha, hkind⟩

/-! ## Grammars with numbers by first appearance -/

/-- Names depend on the vocabularies alone. -/
theorem named_eq_named (ht : g.terminals = g'.terminals) (hn : g.nonterminals = g'.nonterminals) :
    g.named = g'.named := by
  have hname : g.name = g'.name := by
    funext s
    cases s <;> simp [name, ht, hn]
  funext p
  rw [named, named, hname]

/-- Productions of a grammar that are written alike are the same. -/
theorem WellFormed.named_injective {p p' : Production} (hg : g.WellFormed)
    (hp : g.InRange (.nonterminal p.lhs) ∧ ∀ s ∈ p.rhs, g.InRange s)
    (hp' : g.InRange (.nonterminal p'.lhs) ∧ ∀ s ∈ p'.rhs, g.InRange s)
    (h : g.named p = g.named p') : p = p' := by
  obtain ⟨hlhs, hrhs⟩ := NamedRule.mk.inj h
  have hlhs' := Symbol.nonterminal.inj (hg.name_injective hp.1 hp'.1 hlhs)
  have hrhs' : p.rhs.map id = p'.rhs := map_eq_of_map_eq_map
    (fun s hs s' hs' => hg.name_injective (hp.2 s hs) (hp'.2 s' hs')) hrhs
  rw [List.map_id] at hrhs'
  cases p
  cases p'
  simp_all

/-- The grammar has the productions, over symbols that are numbered by first appearance. -/
structure Numbers (rules : List NamedRule) (g : Grammar) : Prop where
  terminals : ByAppearance ((writtenSymbols rules).filter (!isNonterminal ·)) g.terminals.names
  nonterminals : ByAppearance ((writtenSymbols rules).filter isNonterminal) g.nonterminals.names
  indexed : g.Indexed
  productions : g.productions.map g.named = rules

/-- Numbers by first appearance make a grammar well-formed. -/
theorem Numbers.wellFormed (h : Numbers rules g) : g.WellFormed where
  toIndexed := h.indexed
  isNonterminal_terminal := by
    intro a ha
    simpa using (List.mem_filter.1 ((h.terminals.mem_iff a).1 ha)).2
  isNonterminal_nonterminal := by
    intro a ha
    exact (List.mem_filter.1 ((h.nonterminals.mem_iff a).1 ha)).2

/-- The productions determine the grammar. -/
theorem Numbers.unique (h : Numbers rules g) (h' : Numbers rules g') : g = g' := by
  have ht : g.terminals = g'.terminals := Vocabulary.ext (h.terminals.unique h'.terminals)
  have hn : g.nonterminals = g'.nonterminals :=
    Vocabulary.ext (h.nonterminals.unique h'.nonterminals)
  have hrange : ∀ s, g'.InRange s → g.InRange s := by
    intro s hs
    cases s <;> simpa [InRange, ht, hn] using hs
  have hnamed : g.productions.map g.named = g'.productions.map g.named := by
    rw [h.productions, named_eq_named ht hn, h'.productions]
  have hproductions : g.productions.map id = g'.productions := by
    refine map_eq_of_map_eq_map (fun p hp p' hp' => ?_) hnamed
    apply h.wellFormed.named_injective
    · exact ⟨h.indexed.lhs_lt p hp, h.indexed.rhs_inRange p hp⟩
    · exact ⟨hrange _ (h'.indexed.lhs_lt p' hp'),
        fun s hs => hrange s (h'.indexed.rhs_inRange p' hp' s hs)⟩
  rw [List.map_id] at hproductions
  cases g
  cases g'
  simp_all

/-- The grammar of productions numbers its symbols by first appearance. -/
theorem numbers_of_ofRules (hlhs : ∀ r ∈ rules, isNonterminal r.lhs = true)
    (h : ofRules rules = .ok g) : Numbers rules g where
  terminals := Vocabulary.eq_ofList_iff.1 (madeFrom_of_ofRules h).terminals
  nonterminals := Vocabulary.eq_ofList_iff.1 (madeFrom_of_ofRules h).nonterminals
  indexed := (wellFormed_of_ofRules hlhs h).toIndexed
  productions := (madeFrom_of_ofRules h).map_named hlhs

/-! ## When a grammar is made -/

/-- Every nonterminal that is written stands on a left-hand side. -/
def Defined (rules : List NamedRule) : Prop :=
  ∀ a ∈ writtenSymbols rules, isNonterminal a = true → a ∈ rules.map (·.lhs)

/-- The name is a nonterminal that no production defines, and in front of its first appearance there
is no other such name. -/
inductive FirstUndefined (rules : List NamedRule) : String → Prop
  | intro {a : String} {before after : List String}
      (hwritten : writtenSymbols rules = before ++ a :: after) (ha : isNonterminal a = true)
      (hundefined : a ∉ rules.map (·.lhs))
      (hbefore : ∀ b ∈ before, isNonterminal b = true → b ∈ rules.map (·.lhs)) :
      FirstUndefined rules a

/-- Productions lead to a grammar exactly if there are some and they define what they use, and it is
the one with numbers by first appearance. -/
theorem ofRules_eq_ok_iff (hlhs : ∀ r ∈ rules, isNonterminal r.lhs = true) :
    ofRules rules = .ok g ↔ rules ≠ [] ∧ Defined rules ∧ Numbers rules g := by
  constructor
  · intro h
    have hmade := madeFrom_of_ofRules h
    exact ⟨hmade.ne_nil, fun a ha hkind => hmade.mem_map_lhs ha hkind, numbers_of_ofRules hlhs h⟩
  · rintro ⟨hne, hdefined, hnumbers⟩
    obtain ⟨g', h'⟩ := exists_ofRules hne hdefined
    rwa [hnumbers.unique (numbers_of_ofRules hlhs h')]

/-- The error for an empty grammar means that there are no productions. -/
theorem ofRules_eq_empty_iff : ofRules rules = .error .empty ↔ rules = [] := by
  constructor
  · intro h
    by_contra hne
    rw [ofRules, dif_neg (by simpa using hne)] at h
    split at h <;> simp at h
  · rintro rfl
    rfl

/-- The error for an undefined nonterminal names the one that is written first. -/
theorem ofRules_eq_undefined_iff {a : String} :
    ofRules rules = .error (.undefined a) ↔ FirstUndefined rules a := by
  -- the search goes through the vocabulary, which is in the order of the writing
  have hsearch : ofRules rules = .error (.undefined a) ↔
      ((writtenSymbols rules).filter isNonterminal).find?
        (fun n => !(rules.map (·.lhs)).contains n) = some a := by
    by_cases hnil : rules = []
    · subst hnil
      simp [ofRules, writtenSymbols]
    rw [ofRules, dif_neg (by simpa using hnil)]
    split
    · rename_i b hfind
      rw [Vocabulary.find?_names_ofList] at hfind
      rw [hfind]
      simp
    · rename_i hfind
      rw [Vocabulary.find?_names_ofList] at hfind
      rw [hfind]
      simp
  rw [hsearch, List.find?_filter, List.find?_eq_some_iff_append]
  constructor
  · rintro ⟨ha, before, after, hwritten, hbefore⟩
    obtain ⟨hkind, hundefined⟩ : isNonterminal a = true ∧ a ∉ rules.map (·.lhs) := by
      simpa using ha
    refine .intro hwritten hkind hundefined fun b hb hbkind => ?_
    have hb' := hbefore b hb
    simp only [hbkind, true_and] at hb'
    simpa using hb'
  · rintro ⟨hwritten, ha, hundefined, hbefore⟩
    refine ⟨by simpa [ha] using hundefined, _, _, hwritten, fun b hb => ?_⟩
    by_cases hbkind : isNonterminal b = true
    · simpa [hbkind] using hbefore b hb hbkind
    · simp [hbkind]

end Grammar

end ShiftReduce
