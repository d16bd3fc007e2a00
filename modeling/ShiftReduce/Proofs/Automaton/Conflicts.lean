import ShiftReduce.Proofs.Table.Emission

/-!
# Conflicts are reported exactly

A cell of the table is a state with a terminal. Its candidates are read off the items of the state:
a shift of the terminal, the acceptance at the end marker, and the reductions by complete
productions whose left-hand side the terminal can follow. The cell holds the candidate of the first
item that has one (`action?_eq_some_iff`), and exactly the other candidates are reported as
conflicts (`mem_conflicts_iff`), so that a table without conflicts has left nothing out.
-/

namespace ShiftReduce

namespace Automaton

variable {g : Augmented} {sets : Sets} {q t k r : ℕ} {i : Item} {p : Production}

/-! ## The candidates of a cell -/

/-- A complete item of a state has its dot at the end, not beyond it. -/
theorem eq_of_next?_eq_none (hps : g.productions ≠ []) (hi : i ∈ (build g sets).itemsAt q)
    (hp : g.productions[i.production]? = some p) (hnext : i.next? g.productions = none) :
    i = ⟨i.production, p.rhs.length⟩ := by
  obtain ⟨k, hk, hi⟩ := mem_itemsAt.1 hi
  have hfits := (Kernel.fits_of_mem_collection hps (List.mem_of_getElem? hk) hi).2
  have hcomplete := Item.next?_eq_none_iff.1 hnext
  simp only [Item.isComplete, Item.rhs, hp, Option.map_some, Option.getD_some,
    decide_eq_true_eq] at hfits hcomplete
  exact Item.ext rfl (Nat.le_antisymm hfits hcomplete)

/-- Nothing stands behind a dot at the end of a production. -/
theorem next?_end (hp : g.productions[k]? = some p) :
    Item.next? g.productions ⟨k, p.rhs.length⟩ = none := by
  simp [Item.next?, Item.rhs, hp]

/-- A shift is a candidate where an item of the state waits for the terminal. -/
theorem candidate_shift_iff : Candidate g sets q t (.shift r) ↔
    (∃ i ∈ (build g sets).itemsAt q, i.next? g.productions = some (.terminal t)) ∧
      (build g sets).target? q (.terminal t) = some r := by
  constructor
  · rintro ⟨hi, hnext, hr⟩
    exact ⟨⟨_, hi, hnext⟩, hr⟩
  · rintro ⟨⟨i, hi, hnext⟩, hr⟩
    exact .shift hi hnext hr

/-- Acceptance is a candidate where the start production is complete, at the end marker. -/
theorem candidate_accept_iff (hp : g.productions[0]? = some p) :
    Candidate g sets q t .accept ↔
      ⟨0, p.rhs.length⟩ ∈ (build g sets).itemsAt q ∧ t = g.endMarker := by
  have hps : g.productions ≠ [] := List.ne_nil_of_mem (List.mem_of_getElem? hp)
  constructor
  · intro h
    cases h with
    | @accept i hi hnext hzero ht =>
      have heq := eq_of_next?_eq_none hps hi (hzero ▸ hp) hnext
      rw [hzero] at heq
      exact ⟨heq ▸ hi, ht⟩
  · rintro ⟨hi, ht⟩
    exact .accept hi (next?_end hp) rfl ht

/-- A reduction is a candidate where its production is complete, at what can follow its left-hand
side. -/
theorem candidate_reduce_iff (hps : g.productions ≠ []) :
    Candidate g sets q t (.reduce k) ↔ k ≠ 0 ∧ ∃ p, g.productions[k]? = some p ∧
      ⟨k, p.rhs.length⟩ ∈ (build g sets).itemsAt q ∧ t ∈ sets.followAt p.lhs := by
  constructor
  · intro h
    cases h with
    | @reduce i p hi hnext hzero hp ht =>
      exact ⟨hzero, p, hp, eq_of_next?_eq_none hps hi hp hnext ▸ hi, ht⟩
  · rintro ⟨hzero, p, hp, hi, ht⟩
    exact .reduce hi (next?_end hp) hzero hp ht

/-- Two actions for one cell do not both shift. -/
theorem Candidate.shift_unique {r' : ℕ} (h : Candidate g sets q t (.shift r))
    (h' : Candidate g sets q t (.shift r')) : r = r' :=
  Option.some.inj ((candidate_shift_iff.1 h).2.symm.trans (candidate_shift_iff.1 h').2)

/-! ## The conflicts of a cell -/

/-- No two candidates of a cell differ if there are no conflicts. -/
theorem conflicts_eq_nil_iff : (build g sets).conflicts = [] ↔
    ∀ q t act act', Candidate g sets q t act → Candidate g sets q t act' → act = act' := by
  constructor
  · intro hc q t act act' h h'
    exact Option.some.inj
      ((action?_of_candidate hc h).symm.trans (action?_of_candidate hc h'))
  · intro hunique
    refine List.eq_nil_iff_forall_not_mem.2 fun c hc => ?_
    obtain ⟨hact, hcandidate, hne⟩ := mem_conflicts_iff.1 hc
    exact hne (hunique _ _ _ _ hcandidate (candidate_of_action? hact))

/-- A conflict is a shift/reduce conflict exactly if one of its two actions shifts and the other
does not. -/
theorem kind_eq_shiftReduce_iff {c : Conflict} (hc : c ∈ (build g sets).conflicts) :
    c.kind = .shiftReduce ↔ Xor (c.kept.isShift = true) (c.rejected.isShift = true) := by
  obtain ⟨hact, hcandidate, hne⟩ := mem_conflicts_iff.1 hc
  -- the two are not both shifts, since then they would go to the same state
  have hnot : ¬ (c.kept.isShift = true ∧ c.rejected.isShift = true) := by
    rintro ⟨hkept, hrejected⟩
    obtain ⟨r, hr⟩ := Action.isShift_iff.1 hkept
    obtain ⟨r', hr'⟩ := Action.isShift_iff.1 hrejected
    rw [hr'] at hcandidate
    obtain rfl := hcandidate.shift_unique (hr ▸ candidate_of_action? hact)
    exact hne (hr'.trans hr.symm)
  unfold Conflict.kind Xor
  cases hkept : c.kept.isShift <;> cases hrejected : c.rejected.isShift <;> simp_all

/-- What an automaton does with the actions that its items ask for. -/
structure Settled (g : Grammar) : Prop where
  /-- Where an item has its dot before a terminal, there is a shift of the terminal. -/
  exists_shift : ∀ q t, (∃ i ∈ g.automaton.itemsAt q, i.next? g.augment.productions =
    some (.terminal t)) → ∃ r, Candidate g.augment (.solve g.augment) q t (.shift r)
  /-- A shift is asked for by such an item and goes to the target of the transition. -/
  shift_iff : ∀ q t r, Candidate g.augment (.solve g.augment) q t (.shift r) ↔
    (∃ i ∈ g.automaton.itemsAt q, i.next? g.augment.productions = some (.terminal t)) ∧
      g.automaton.target? q (.terminal t) = some r
  /-- The acceptance is asked for by the complete start production at the end marker. -/
  accept_iff : ∀ q t, Candidate g.augment (.solve g.augment) q t .accept ↔
    ⟨0, 1⟩ ∈ g.automaton.itemsAt q ∧ t = g.augment.endMarker
  /-- A reduction is asked for by another complete production, at what can follow it. -/
  reduce_iff : ∀ q t k, Candidate g.augment (.solve g.augment) q t (.reduce k) ↔
    k ≠ 0 ∧ ∃ p, g.augment.productions[k]? = some p ∧
      ⟨k, p.rhs.length⟩ ∈ g.automaton.itemsAt q ∧ t ∈ (Sets.solve g.augment).followAt p.lhs
  /-- A cell has an action if it has a candidate. -/
  exists_action_iff : ∀ q t, (∃ act, g.automaton.action? q t = some act) ↔
    ∃ act, Candidate g.augment (.solve g.augment) q t act
  /-- The action is what the first of the items asks for. -/
  action_iff : ∀ q t act, g.automaton.action? q t = some act ↔
    ∃ before i after, g.automaton.itemsAt q = before ++ i :: after ∧
      Asks g.augment (.solve g.augment) q t i act ∧
        ∀ j ∈ before, ∀ a, ¬ Asks g.augment (.solve g.augment) q t j a
  /-- The candidates are what the items ask for. -/
  candidate_iff : ∀ q t act, Candidate g.augment (.solve g.augment) q t act ↔
    ∃ i ∈ g.automaton.itemsAt q, Asks g.augment (.solve g.augment) q t i act
  /-- The conflicts are the candidates other than the action. -/
  conflict_iff : ∀ q t kept rejected, ⟨q, t, kept, rejected⟩ ∈ g.automaton.conflicts ↔
    g.automaton.action? q t = some kept ∧
      Candidate g.augment (.solve g.augment) q t rejected ∧ rejected ≠ kept
  /-- There are no conflicts if no cell has two candidates. -/
  conflicts_eq_nil_iff : g.automaton.conflicts = [] ↔ ∀ q t act act',
    Candidate g.augment (.solve g.augment) q t act →
      Candidate g.augment (.solve g.augment) q t act' → act = act'
  /-- A conflict is between a shift and another action, or between two others. -/
  kind_iff : ∀ c ∈ g.automaton.conflicts,
    c.kind = .shiftReduce ↔ Xor (c.kept.isShift = true) (c.rejected.isShift = true)

end Automaton

open Automaton in
/-- The automaton of a grammar gives every cell its first candidate and reports the others. -/
theorem Grammar.automaton_settled (g : Grammar) : Settled g where
  exists_shift := by
    rintro q t ⟨i, hi, hnext⟩
    obtain ⟨r, hr, -⟩ := exists_target? g.productions_augment_ne_nil hi hnext
    exact ⟨r, .shift hi hnext hr⟩
  shift_iff _ _ _ := candidate_shift_iff
  accept_iff _ _ := by
    have hp : g.augment.productions[0]? = some ⟨g.augment.start, [.nonterminal g.start]⟩ := rfl
    exact candidate_accept_iff hp
  reduce_iff _ _ _ := candidate_reduce_iff g.productions_augment_ne_nil
  exists_action_iff q t := by
    constructor
    · rintro ⟨act, hact⟩
      exact ⟨act, candidate_of_action? hact⟩
    · rintro ⟨act, hcandidate⟩
      exact exists_action?_of_candidate hcandidate
  action_iff _ _ _ := action?_eq_some_iff
  candidate_iff _ _ _ := candidate_iff
  conflict_iff _ _ _ _ := mem_conflicts_iff
  conflicts_eq_nil_iff := conflicts_eq_nil_iff
  kind_iff _ hc := kind_eq_shiftReduce_iff hc

end ShiftReduce
