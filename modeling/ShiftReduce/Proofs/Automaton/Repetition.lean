import Mathlib.Data.Finset.Card
import ShiftReduce.Proofs.Automaton.Conflicts

/-!
# How often a conflict is reported

Every item of a state makes its own requests, and a request is compared with the action that stands,
not with those that were rejected before it. So a rejected action is reported once for each item
that asks for it (`count_conflicts`). A complete production is one item of a state, so that a
reduction is asked for once on a terminal. But several items can wait for the same terminal, and
they all ask for the same shift: where another action stands, that conflict is reported once for
each of them (`Grammar.conflicts_counted`).
-/

namespace ShiftReduce

/-- The grammar of the sentences of an odd number of `a`. -/
def Grammar.odd : Grammar where
  terminals := ⟨["a"], List.nodup_singleton _⟩
  nonterminals := ⟨["S"], List.nodup_singleton _⟩
  productions := [⟨0, [.terminal 0, .nonterminal 0, .terminal 0]⟩, ⟨0, [.terminal 0]⟩]
  productions_ne_nil := by decide

/-- The grammar is what its two lines are read as. -/
theorem Grammar.read_odd : Grammar.read "S -> a S a\nS -> a" = .ok Grammar.odd := by
  decide +kernel

namespace Automaton

variable {g : Augmented} {sets : Sets} {q t : ℕ} {act : Action} {i j : Item}

/-- No item is listed twice in a state. -/
theorem nodup_itemsAt (g : Augmented) (sets : Sets) (q : ℕ) : ((build g sets).itemsAt q).Nodup := by
  rw [itemsAt, getElem?_states]
  cases (Kernel.collection g.productions)[q]? with
  | none => exact List.nodup_nil
  | some k => exact Kernel.nodup_closure g.productions k

/-- In a list without repetitions, at most one member has a property exactly if any two that have it
are the same. -/
theorem countP_le_one_iff {α : Type} [DecidableEq α] {p : α → Bool} {as : List α} (h : as.Nodup) :
    as.countP p ≤ 1 ↔ ∀ a ∈ as, p a = true → ∀ b ∈ as, p b = true → a = b := by
  rw [List.countP_eq_length_filter, ← List.toFinset_card_of_nodup (h.filter p), Finset.card_le_one]
  simp only [List.mem_toFinset, List.mem_filter, and_imp]

/-- What is not a shift is asked for by one item of a state. -/
theorem Asks.eq_of_isShift_eq_false (hps : g.productions ≠ []) (hact : act.isShift = false)
    (hi : i ∈ (build g sets).itemsAt q) (hj : j ∈ (build g sets).itemsAt q)
    (hasks : Asks g sets q t i act) (hasks' : Asks g sets q t j act) : i = j := by
  -- both items have their dots at the end of the same production
  have hsame : ∀ {p : Production}, g.productions[i.production]? = some p →
      i.next? g.productions = none → j.next? g.productions = none →
        j.production = i.production → i = j := by
    intro p hp hnext hnext' heq
    have hi' := eq_of_next?_eq_none hps hi hp hnext
    have hj' := eq_of_next?_eq_none hps hj (heq ▸ hp) hnext'
    rw [hi', hj', heq]
  cases act with
  | shift r => simp [Action.isShift] at hact
  | accept =>
    obtain ⟨hnext, hzero, -⟩ := asks_accept_iff.1 hasks
    obtain ⟨hnext', hzero', -⟩ := asks_accept_iff.1 hasks'
    obtain ⟨p, ps, hp⟩ := List.exists_cons_of_ne_nil hps
    exact hsame (p := p) (by rw [hzero, hp]; rfl) hnext hnext' (hzero'.trans hzero.symm)
  | reduce k =>
    obtain ⟨hnext, -, hk, p, hp, -⟩ := asks_reduce_iff.1 hasks
    obtain ⟨hnext', -, hk', -⟩ := asks_reduce_iff.1 hasks'
    exact hsame (hk ▸ hp) hnext hnext' (hk'.trans hk.symm)

/-- The number of the items of a state that wait for a terminal. -/
def waiting (g : Augmented) (a : Automaton) (q t : ℕ) : ℕ :=
  (a.itemsAt q).countP (·.next? g.productions = some (.terminal t))

/-- A shift is asked for by the items that wait for its terminal. -/
theorem countP_asks_shift {r : ℕ} (hr : (build g sets).target? q (.terminal t) = some r) :
    ((build g sets).itemsAt q).countP (Asks g sets q t · (.shift r)) =
      waiting g (build g sets) q t := by
  refine List.countP_congr fun i _ => ?_
  rw [decide_eq_true_eq, decide_eq_true_eq, asks_shift_iff, and_iff_left hr]

/-- A conflict that rejects a shift is reported once for each item that waits for the terminal, and
any other conflict once. -/
theorem count_of_mem_conflicts (hps : g.productions ≠ []) {c : Conflict}
    (hc : c ∈ (build g sets).conflicts) : (build g sets).conflicts.count c =
      if c.rejected.isShift then waiting g (build g sets) c.state c.terminal else 1 := by
  obtain ⟨hkept, hcandidate, hne⟩ := mem_conflicts_iff.1 hc
  have hcount := count_conflicts g sets c
  rw [if_pos ⟨hkept, hne⟩] at hcount
  split
  · rename_i hshift
    obtain ⟨r, hr⟩ := Action.isShift_iff.1 hshift
    rw [hr] at hcandidate hcount
    rw [hcount, countP_asks_shift (candidate_shift_iff.1 hcandidate).2]
  · rename_i hshift
    rw [Bool.not_eq_true] at hshift
    refine Nat.le_antisymm ?_ (List.count_pos_iff.2 hc)
    rw [hcount, countP_le_one_iff (nodup_itemsAt g sets c.state)]
    simp only [decide_eq_true_eq]
    exact fun i hi hasks j hj hasks' => hasks.eq_of_isShift_eq_false hps hshift hi hj hasks'

/-- No conflict is reported twice exactly if a shift stands wherever two items wait for the same
terminal. -/
theorem nodup_conflicts_iff (hps : g.productions ≠ []) : (build g sets).conflicts.Nodup ↔
    ∀ q t, 1 < waiting g (build g sets) q t →
      ∃ r, (build g sets).action? q t = some (.shift r) := by
  rw [List.nodup_iff_count_le_one]
  constructor
  · intro hcount q t hwaiting
    obtain ⟨i, hi, hnext⟩ := List.countP_pos_iff.1 (Nat.zero_lt_of_lt hwaiting)
    obtain ⟨r, hr, -⟩ := exists_target? hps hi (of_decide_eq_true hnext)
    have hshift : Candidate g sets q t (.shift r) := .shift hi (of_decide_eq_true hnext) hr
    obtain ⟨kept, hkept⟩ := exists_action?_of_candidate hshift
    by_contra hnot
    -- the shift is rejected, once for each of the items
    have hne : Action.shift r ≠ kept := fun heq => hnot ⟨r, heq ▸ hkept⟩
    have hc : (⟨q, t, kept, .shift r⟩ : Conflict) ∈ (build g sets).conflicts :=
      mem_conflicts_iff.2 ⟨hkept, hshift, hne⟩
    have hle := hcount ⟨q, t, kept, .shift r⟩
    rw [count_of_mem_conflicts hps hc] at hle
    exact absurd hle (Nat.not_le_of_gt hwaiting)
  · intro hshift c
    by_cases hc : c ∈ (build g sets).conflicts
    · rw [count_of_mem_conflicts hps hc]
      split
      · rename_i hrejected
        by_contra hwaiting
        obtain ⟨hkept, hcandidate, hne⟩ := mem_conflicts_iff.1 hc
        obtain ⟨r, hr⟩ := Action.isShift_iff.1 hrejected
        obtain ⟨r', hr'⟩ := hshift c.state c.terminal (Nat.lt_of_not_le hwaiting)
        -- the shift that stands is the one that is asked for
        rw [hr] at hcandidate
        obtain rfl := hcandidate.shift_unique (candidate_of_action? hr')
        exact hne (hr.trans (Option.some.inj (hr'.symm.trans hkept)))
      · exact Nat.le_refl 1
    · rw [List.count_eq_zero_of_not_mem hc]
      exact Nat.zero_le 1

end Automaton

namespace Grammar

open Automaton

/-- A conflict that rejects a shift is reported once for each item that waits for the terminal, and
any other conflict once, so that none is reported twice exactly if a shift stands wherever two items
wait for the same terminal. -/
theorem conflicts_counted (g : Grammar) :
    (∀ c ∈ g.automaton.conflicts, g.automaton.conflicts.count c =
      if c.rejected.isShift then waiting g.augment g.automaton c.state c.terminal else 1) ∧
    (g.automaton.conflicts.Nodup ↔ ∀ q t, 1 < waiting g.augment g.automaton q t →
      ∃ r, g.automaton.action? q t = some (.shift r)) :=
  ⟨fun _ hc => count_of_mem_conflicts g.productions_augment_ne_nil hc,
    nodup_conflicts_iff g.productions_augment_ne_nil⟩

/-- Behind an `a` two items wait for another one, where the reduction stands. -/
theorem conflicts_counted_odd :
    (⟨2, 0, .reduce 2, .shift 2⟩ : Conflict) ∈ Grammar.odd.automaton.conflicts ∧
    Grammar.odd.automaton.conflicts.count ⟨2, 0, .reduce 2, .shift 2⟩ =
      waiting Grammar.odd.augment Grammar.odd.automaton 2 0 := by
  have hc : (⟨2, 0, .reduce 2, .shift 2⟩ : Conflict) ∈ Grammar.odd.automaton.conflicts := by
    decide +kernel
  exact ⟨hc, (conflicts_counted Grammar.odd).1 _ hc⟩

/-- The conflicts of a grammar can have a repetition. -/
theorem not_nodup_conflicts_odd : ∃ g, Grammar.read "S -> a S a\nS -> a" = .ok g ∧
    g.automaton.conflicts = [⟨2, 0, .reduce 2, .shift 2⟩, ⟨2, 0, .reduce 2, .shift 2⟩] ∧
    ¬ g.automaton.conflicts.Nodup :=
  ⟨Grammar.odd, read_odd, by decide +kernel, by decide +kernel⟩

end Grammar

end ShiftReduce
