import Mathlib.Order.Bounds.Basic
import ShiftReduce.Proofs.Automaton.Closure

/-!
# A closure is the least set that predictions do not leave

Predictions lead from an item only to items that begin productions, and to which of them depends on
the nonterminals alone: from the one that the item waits for, through those that stand first on
right-hand sides (`transGen_predicts_iff`). So a closure lists its kernel and behind it the
beginnings of productions that can be reached in this way, and a kernel that predictions do not
leave is its own closure (`closure_eq_members`).
-/

namespace ShiftReduce

namespace Item

/-- The order of items is that of their productions and then of their dots. -/
theorem compare_eq_lt_iff {i j : Item} : compare i j = .lt ↔
    i.production < j.production ∨ i.production = j.production ∧ i.dot < j.dot := by
  have hcompare : compare i j =
      (compare i.production j.production).then (compare i.dot j.dot) := rfl
  rw [hcompare, Ordering.then_eq_lt, Nat.compare_eq_lt, Nat.compare_eq_eq, Nat.compare_eq_lt]

/-- The item that begins a production waits for the first symbol of the right-hand side. -/
theorem next?_start_eq {ps : List Production} {n : ℕ} {p : Production} (hp : ps[n]? = some p) :
    (start n).next? ps = p.rhs.head? := by
  rw [next?, rhs, production_start, hp, dot_start, List.head?_eq_getElem?]
  rfl

end Item

namespace Kernel

variable {ps : List Production} {k : Kernel} {i j : Item} {items : List Item}

/-! ## Predictions by nonterminals -/

/-- The nonterminal `m` stands first on a right-hand side of the nonterminal `n`. -/
def BeginsWith (ps : List Production) (n m : ℕ) : Prop :=
  ∃ p ∈ ps, p.lhs = n ∧ p.rhs.head? = some (.nonterminal m)

/-- Where a nonterminal can come to stand first, predictions lead to its productions. -/
theorem transGen_predicts_start {n m l : ℕ} {p : Production}
    (hi : i.next? ps = some (.nonterminal n)) (hn : Relation.ReflTransGen (BeginsWith ps) n m)
    (hp : ps[l]? = some p) (hlhs : p.lhs = m) :
    Relation.TransGen (Predicts ps) i (Item.start l) := by
  induction hn generalizing l p with
  | refl => exact .single (predicts_start (hlhs ▸ hi) hp)
  | tail _ hstep ih =>
    obtain ⟨q, hq, hqlhs, hhead⟩ := hstep
    obtain ⟨l', hq'⟩ := List.getElem?_of_mem hq
    have hnext : (Item.start l').next? ps = some (.nonterminal p.lhs) := by
      rw [Item.next?_start_eq hq', hhead, hlhs]
    exact (ih hq' hqlhs).tail (predicts_start hnext hp)

/-- Predictions, one after the other, lead to the items that begin productions of the nonterminals
that can come to stand first where the item waits. -/
theorem transGen_predicts_iff : Relation.TransGen (Predicts ps) i j ↔
    j.dot = 0 ∧ ∃ p, ps[j.production]? = some p ∧
      ∃ n, i.next? ps = some (.nonterminal n) ∧ Relation.ReflTransGen (BeginsWith ps) n p.lhs := by
  constructor
  · intro h
    induction h with
    | single h =>
      obtain ⟨p, hi, hp, hdot⟩ := predicts_iff.1 h
      exact ⟨hdot, p, hp, p.lhs, hi, .refl⟩
    | @tail b c _ hbc ih =>
      obtain ⟨hb, q, hq, n, hi, hn⟩ := ih
      obtain ⟨p, hnext, hp, hdot⟩ := predicts_iff.1 hbc
      -- the item in between begins a production, so what it waits for stands first there
      have hstart : b = Item.start b.production := Item.ext rfl hb
      rw [hstart, Item.next?_start_eq hq] at hnext
      exact ⟨hdot, p, hp, n, hi, hn.tail ⟨q, List.mem_of_getElem? hq, rfl, hnext⟩⟩
  · rintro ⟨hdot, p, hp, n, hi, hn⟩
    have hstart : j = Item.start j.production := Item.ext rfl hdot
    rw [hstart]
    exact transGen_predicts_start hi hn hp rfl

/-- An item that is not of the kernel is in the closure if predictions lead to it. -/
theorem mem_closure_iff_transGen (hj : j ∉ k) :
    j ∈ k.closure ps ↔ ∃ i ∈ k, Relation.TransGen (Predicts ps) i j := by
  rw [mem_closure_iff]
  constructor
  · rintro ⟨i, hi, hij⟩
    rcases Relation.reflTransGen_iff_eq_or_transGen.1 hij with rfl | hij
    · exact absurd hi hj
    · exact ⟨i, hi, hij⟩
  · rintro ⟨i, hi, hij⟩
    exact ⟨i, hi, hij.to_reflTransGen⟩

/-! ## Closed sets of items -/

/-- The items predict no others. -/
def ClosedUnderPrediction (ps : List Production) (S : Set Item) : Prop :=
  ∀ i ∈ S, ∀ j, Predicts ps i j → j ∈ S

/-- Of the sets that hold the kernel and that predictions do not leave, the closure is the least. -/
theorem isLeast_closure (ps : List Production) (k : Kernel) :
    IsLeast {S | (∀ i ∈ k, i ∈ S) ∧ ClosedUnderPrediction ps S} {i | i ∈ k.closure ps} := by
  refine ⟨⟨fun i hi => mem_closure_of_mem hi, fun i hi j hij => mem_closure_of_predicts hi hij⟩, ?_⟩
  rintro S ⟨hkernel, hclosed⟩ j hj
  obtain ⟨i, hi, hij⟩ := mem_closure_iff.1 hj
  induction hij with
  | refl => exact hkernel i hi
  | tail hib hbc ih => exact hclosed _ (ih (mem_closure_iff.2 ⟨i, hi, hib⟩)) _ hbc

/-- A kernel that predictions do not leave is its own closure. -/
theorem closure_eq_members (h : ClosedUnderPrediction ps {i | i ∈ k}) :
    k.closure ps = k.members := by
  have hsub : k.closure ps ⊆ k.members := (isLeast_closure ps k).2 ⟨fun _ hi => hi, h⟩
  have hlen : (k.closure ps).length ≤ k.members.length :=
    ((nodup_closure ps k).subperm hsub).length_le
  exact ((members_prefix_closure ps k).eq_of_length_le hlen).symm

/-- What a closure lists behind its kernel begins productions. -/
theorem exists_closure_eq (ps : List Production) (k : Kernel) :
    ∃ later, k.closure ps = k.members ++ later ∧ ∀ j ∈ later, j.dot = 0 := by
  obtain ⟨later, hlater⟩ := members_prefix_closure ps k
  refine ⟨later, hlater.symm, fun j hj => ?_⟩
  have hnodup := nodup_closure ps k
  rw [← hlater, List.nodup_append'] at hnodup
  have hmem : j ∈ k.closure ps := hlater ▸ List.mem_append_right _ hj
  rcases mem_or_predicted_of_mem_closure hmem with hk | ⟨i, -, hij⟩
  · exact absurd hj (hnodup.2.2 hk)
  · exact hij.dot_eq_zero

/-- The test for items in range is exact. -/
theorem inRange_iff : k.inRange ps = true ↔ ∀ i ∈ k, i.production < ps.length := by
  simp [inRange, OrderedSet.mem_def]

/-- What is predicted is in range, so the closure is if the kernel is. -/
theorem production_lt_of_mem_closure (h : ∀ i ∈ k, i.production < ps.length)
    (hj : j ∈ k.closure ps) : j.production < ps.length := by
  rcases mem_or_predicted_of_mem_closure hj with hj | ⟨i, -, hij⟩
  · exact h j hj
  · exact hij.production_lt

/-- The items are the least list of items that holds a kernel and what its items predict. -/
structure Saturates (ps : List Production) (k : Kernel) (items : List Item) : Prop where
  /-- Looking at the items one by one, from those of the kernel on, ends with the list. -/
  closes : Closes ps [] k.members items
  /-- The kernel comes first, in ascending order, and what follows begins productions. -/
  kernel_first : ∃ head later, items = head ++ later ∧ (∀ i, i ∈ head ↔ i ∈ k) ∧
    (head.Pairwise fun i j =>
      i.production < j.production ∨ i.production = j.production ∧ i.dot < j.dot) ∧
    ∀ j ∈ later, j.dot = 0
  nodup : items.Nodup
  isLeast : IsLeast {S | (∀ i ∈ k, i ∈ S) ∧ ClosedUnderPrediction ps S} {i | i ∈ items}
  /-- The other items begin the productions of what can come to stand first where an item of the
  kernel waits. -/
  mem_iff : ∀ j, j ∉ k → (j ∈ items ↔ j.dot = 0 ∧ ∃ p, ps[j.production]? = some p ∧
    ∃ i ∈ k, ∃ n, i.next? ps = some (.nonterminal n) ∧
      Relation.ReflTransGen (BeginsWith ps) n p.lhs)
  /-- Closing the set of the items once more adds nothing to it. -/
  closed : closure? ps (.ofList items) = some (OrderedSet.ofList items).members

/-- The closure of a kernel of existing productions is found, and it is the least list that holds
the kernel and what its items predict. -/
theorem closure_saturates (h : ∀ i ∈ k, i.production < ps.length) :
    ∃ items, k.closure? ps = some items ∧ Saturates ps k items := by
  refine ⟨k.closure ps, if_pos (inRange_iff.2 h), ?_⟩
  exact {
    closes := closes_closure ps k
    kernel_first := by
      obtain ⟨later, hlater, hdot⟩ := exists_closure_eq ps k
      exact ⟨k.members, later, hlater, fun _ => Iff.rfl,
        k.ascending.imp Item.compare_eq_lt_iff.1, hdot⟩
    nodup := nodup_closure ps k
    isLeast := isLeast_closure ps k
    mem_iff := by
      intro j hj
      simp only [mem_closure_iff_transGen hj, transGen_predicts_iff]
      constructor
      · rintro ⟨i, hi, hdot, p, hp, hn⟩
        exact ⟨hdot, p, hp, i, hi, hn⟩
      · rintro ⟨hdot, p, hp, i, hi, hn⟩
        exact ⟨i, hi, hdot, p, hp, hn⟩
    closed := by
      have hrange : ∀ i ∈ OrderedSet.ofList (k.closure ps), i.production < ps.length := by
        intro i hi
        exact production_lt_of_mem_closure h (OrderedSet.mem_ofList.1 hi)
      rw [closure?, if_pos (inRange_iff.2 hrange), closure_eq_members]
      intro i hi j hij
      exact OrderedSet.mem_ofList.2 (mem_closure_of_predicts (OrderedSet.mem_ofList.1 hi) hij) }

/-- `S' → S`, `S → S a`, `S → A`, `A → S b` and `A → ε`: the nonterminals begin with each other. -/
def recursive : List Production :=
  [⟨2, [.nonterminal 0]⟩, ⟨0, [.nonterminal 0, .terminal 0]⟩, ⟨0, [.nonterminal 1]⟩,
    ⟨1, [.nonterminal 0, .terminal 1]⟩, ⟨1, []⟩]

/-- A kernel that holds the beginning of a production, a complete item and a dot beyond the end. -/
def scattered : Kernel := .ofList [⟨3, 0⟩, ⟨4, 2⟩, ⟨1, 2⟩]

/-- Part of what the kernel predicts is in the kernel already. -/
theorem closure_saturates_scattered : (∀ i ∈ scattered, i.production < recursive.length) ∧
    scattered.closure? recursive = some [⟨1, 2⟩, ⟨3, 0⟩, ⟨4, 2⟩, ⟨1, 0⟩, ⟨2, 0⟩, ⟨4, 0⟩] ∧
    Saturates recursive scattered [⟨1, 2⟩, ⟨3, 0⟩, ⟨4, 2⟩, ⟨1, 0⟩, ⟨2, 0⟩, ⟨4, 0⟩] := by
  have hrange : ∀ i ∈ scattered, i.production < recursive.length := by
    simp [scattered, OrderedSet.mem_ofList, recursive]
  obtain ⟨items, hitems, hsaturates⟩ := closure_saturates hrange
  have hclosure : scattered.closure? recursive =
      some [⟨1, 2⟩, ⟨3, 0⟩, ⟨4, 2⟩, ⟨1, 0⟩, ⟨2, 0⟩, ⟨4, 0⟩] := by decide
  obtain rfl := Option.some.inj (hclosure.symm.trans hitems)
  exact ⟨hrange, hclosure, hsaturates⟩

end Kernel

end ShiftReduce
