import Mathlib.Data.List.Nodup
import Mathlib.Data.List.Perm.Subperm
import Mathlib.Logic.Relation
import Mathlib.Data.Nat.Notation
import ShiftReduce.Automaton.Item

/-!
# What a closure holds

An item predicts the items that begin the productions of the nonterminal after its dot.
`mem_closure_iff` says that the closure of a kernel holds exactly the items that predictions reach
from the kernel. Closing ends (`closes_closure`) because the work list is bounded by the items that
can ever be on it: those of the kernel and one for each production, which is the fuel of `closure`.
-/

namespace ShiftReduce

namespace Item

/-- An item whose dot is advanced is about the same production. -/
@[simp] theorem production_advance (i : Item) : i.advance.production = i.production := rfl

@[simp] theorem dot_advance (i : Item) : i.advance.dot = i.dot + 1 := rfl

@[simp] theorem production_start (n : ℕ) : (start n).production = n := rfl

@[simp] theorem dot_start (n : ℕ) : (start n).dot = 0 := rfl

@[simp] theorem rhs_advance (ps : List Production) (i : Item) : i.advance.rhs ps = i.rhs ps := rfl

/-- An item of a production with the dot in front of one of its symbols. -/
theorem next?_eq_some_iff {ps : List Production} {i : Item} {s : Symbol} :
    i.next? ps = some s ↔ ∃ p, ps[i.production]? = some p ∧ p.rhs[i.dot]? = some s := by
  rw [next?, rhs]
  cases ps[i.production]? <;> simp

/-- The dot of an item that waits for a symbol stands within the right-hand side. -/
theorem dot_lt_of_next? {ps : List Production} {i : Item} {s : Symbol}
    (h : i.next? ps = some s) : i.dot < (i.rhs ps).length :=
  (List.getElem?_eq_some_iff.1 h).1

end Item

namespace Kernel

variable {ps : List Production} {k : Kernel} {i j : Item}

/-- The item `i` predicts the item `j`. -/
def Predicts (ps : List Production) (i j : Item) : Prop := j ∈ predicted ps i

/-- A predicted item begins a production of the nonterminal that is waited for. -/
theorem predicts_iff : Predicts ps i j ↔
    ∃ p, i.next? ps = some (.nonterminal p.lhs) ∧ ps[j.production]? = some p ∧ j.dot = 0 := by
  rw [Predicts, predicted]
  cases h : i.next? ps with
  | none => simp
  | some s =>
    cases s with
    | terminal t => simp
    | nonterminal n =>
      simp only [List.mem_map, List.mem_filter, List.mem_range, Option.any_eq_true, beq_iff_eq,
        Option.some.injEq, Symbol.nonterminal.injEq]
      constructor
      · rintro ⟨m, ⟨-, p, hp, rfl⟩, rfl⟩
        exact ⟨p, rfl, hp, rfl⟩
      · rintro ⟨p, rfl, hp, hj⟩
        refine ⟨j.production, ⟨(List.getElem?_eq_some_iff.1 hp).1, p, hp, rfl⟩, ?_⟩
        exact Item.ext rfl hj.symm

/-- A predicted item begins its production. -/
theorem Predicts.dot_eq_zero (h : Predicts ps i j) : j.dot = 0 := by
  obtain ⟨p, -, -, hj⟩ := predicts_iff.1 h
  exact hj

/-- A predicted item is about a production that exists. -/
theorem Predicts.production_lt (h : Predicts ps i j) : j.production < ps.length := by
  obtain ⟨p, -, hp, -⟩ := predicts_iff.1 h
  exact (List.getElem?_eq_some_iff.1 hp).1

/-- An item that waits for the left-hand side of a production predicts its first item. -/
theorem predicts_start {n : ℕ} {p : Production} (hi : i.next? ps = some (.nonterminal p.lhs))
    (hp : ps[n]? = some p) : Predicts ps i (Item.start n) :=
  predicts_iff.2 ⟨p, hi, hp, rfl⟩

/-! ## The work list -/

/-- What holds of the work list while a kernel is being closed. -/
private structure Closing (ps : List Production) (k : Kernel) (done pending : List Item) :
    Prop where
  nodup : (done ++ pending).Nodup
  kernel_sub : ∀ i ∈ k, i ∈ done ++ pending
  closed : ∀ i ∈ done, ∀ j, Predicts ps i j → j ∈ done ++ pending
  origin : ∀ j ∈ done ++ pending, ∃ i ∈ k, Relation.ReflTransGen (Predicts ps) i j

/-- The work list starts with the kernel. -/
private theorem closing_kernel (ps : List Production) (k : Kernel) : Closing ps k [] k.members where
  nodup := k.members_nodup
  kernel_sub := fun _ hi => hi
  closed := by simp
  origin := fun j hj => ⟨j, hj, .refl⟩

/-- Looking at one item keeps the invariant. -/
private theorem Closing.step {done pending : List Item} (h : Closing ps k done (i :: pending)) :
    Closing ps k (done ++ [i])
      (pending ++ (predicted ps i).filter (!(done ++ i :: pending).contains ·)) := by
  set new := (predicted ps i).filter (!(done ++ i :: pending).contains ·) with hnew
  have mem_new : ∀ j, j ∈ new ↔ Predicts ps i j ∧ j ∉ done ++ i :: pending := by
    intro j
    simp [hnew, Predicts]
  -- looking at an item moves the border between the two parts, and `new` goes to the end
  have hlist : done ++ [i] ++ (pending ++ new) = done ++ i :: pending ++ new := by simp
  have nodup_new : new.Nodup := by
    apply List.Nodup.filter _
    unfold predicted
    split
    · apply (List.nodup_range.filter _).map
      intro a b hab
      exact congrArg Item.production hab
    · exact List.nodup_nil
  refine ⟨?_, ?_, ?_, ?_⟩
  · rw [hlist]
    apply h.nodup.append nodup_new
    intro j hj hj'
    exact ((mem_new j).1 hj').2 hj
  · intro j hj
    rw [hlist]
    exact List.mem_append_left _ (h.kernel_sub j hj)
  · intro a ha j hj
    rw [hlist, List.mem_append]
    -- only the item that is looked at can predict something that was not listed
    by_cases hmem : j ∈ done ++ i :: pending
    · exact .inl hmem
    · rcases List.mem_append.1 ha with ha | ha
      · exact .inl (h.closed a ha j hj)
      · rw [List.mem_singleton] at ha
        subst ha
        exact .inr ((mem_new j).2 ⟨hj, hmem⟩)
  · intro j hj
    rw [hlist, List.mem_append] at hj
    rcases hj with hj | hj
    · exact h.origin j hj
    · obtain ⟨a, ha, hai⟩ := h.origin i (by simp)
      exact ⟨a, ha, hai.tail ((mem_new j).1 hj).1⟩

/-- The items on the work list are those of the kernel and first items of productions. -/
private theorem Closing.length_le {done pending : List Item} (h : Closing ps k done pending) :
    (done ++ pending).length ≤ k.size + ps.length := by
  have hsub : done ++ pending ⊆ k.members ++ (List.range ps.length).map Item.start := by
    intro j hj
    obtain ⟨a, ha, haj⟩ := h.origin j hj
    rcases haj.cases_tail with rfl | ⟨b, -, hbj⟩
    · exact List.mem_append_left _ ha
    · refine List.mem_append_right _ (List.mem_map.2 ⟨j.production, ?_, ?_⟩)
      · exact List.mem_range.2 hbj.production_lt
      · exact Item.ext rfl hbj.dot_eq_zero.symm
  have := (h.nodup.subperm hsub).length_le
  simpa [OrderedSet.size] using this

/-- The work list when the items `done` have been looked at and those `pending` have not. It ends
where no item is left to be looked at. -/
inductive Closes (ps : List Production) : List Item → List Item → List Item → Prop
  | done {items : List Item} : Closes ps items [] items
  | look {done pending items : List Item} {i : Item}
      (h : Closes ps (done ++ [i])
        (pending ++ (predicted ps i).filter (!(done ++ i :: pending).contains ·)) items) :
      Closes ps done (i :: pending) items

/-- The fuel suffices for the work list to be emptied. -/
private theorem Closing.closes {fuel : ℕ} {done pending : List Item}
    (h : Closing ps k done pending) (hfuel : k.size + ps.length ≤ fuel + done.length) :
    Closes ps done pending (closeFrom ps fuel done pending) := by
  induction fuel generalizing done pending with
  | zero =>
    -- as many items are done as can be listed at all, so none is left
    have hlen := h.length_le
    rw [List.length_append] at hlen
    have : pending = [] := List.eq_nil_of_length_eq_zero (by omega)
    subst this
    rw [closeFrom, List.append_nil]
    exact .done
  | succ fuel ih =>
    cases pending with
    | nil => exact .done
    | cons i pending =>
      rw [closeFrom]
      refine .look (ih h.step ?_)
      rw [List.length_append, List.length_singleton]
      omega

/-- What is left when the work list is empty has been looked at. -/
private theorem Closing.of_closes {done pending items : List Item} (h : Closing ps k done pending)
    (hcloses : Closes ps done pending items) : Closing ps k items [] := by
  induction hcloses with
  | done => exact h
  | look _ ih => exact ih h.step

/-- Closing a kernel ends, with the closure. -/
theorem closes_closure (ps : List Production) (k : Kernel) :
    Closes ps [] k.members (k.closure ps) :=
  (closing_kernel ps k).closes (by simp)

/-- Once the closure is made, no item waits to be looked at. -/
private theorem closing_closure (ps : List Production) (k : Kernel) :
    Closing ps k (k.closure ps) [] :=
  (closing_kernel ps k).of_closes (closes_closure ps k)

/-! ## Membership -/

/-- A closure holds the items that predictions reach from its kernel, and no others. -/
theorem mem_closure_iff :
    j ∈ k.closure ps ↔ ∃ i ∈ k, Relation.ReflTransGen (Predicts ps) i j := by
  have h := closing_closure ps k
  constructor
  · intro hj
    exact h.origin j (by simpa using hj)
  · rintro ⟨i, hi, hij⟩
    induction hij with
    | refl => simpa using h.kernel_sub i hi
    | tail _ hbc ih => simpa using h.closed _ ih _ hbc

/-- The closure holds the kernel. -/
theorem mem_closure_of_mem (h : i ∈ k) : i ∈ k.closure ps :=
  mem_closure_iff.2 ⟨i, h, .refl⟩

/-- A closure is closed under prediction. -/
theorem mem_closure_of_predicts (hi : i ∈ k.closure ps) (hij : Predicts ps i j) :
    j ∈ k.closure ps := by
  obtain ⟨a, ha, hai⟩ := mem_closure_iff.1 hi
  exact mem_closure_iff.2 ⟨a, ha, hai.tail hij⟩

/-- An item of a closure belongs to the kernel or is predicted by another item of the closure. -/
theorem mem_or_predicted_of_mem_closure (h : j ∈ k.closure ps) :
    j ∈ k ∨ ∃ i ∈ k.closure ps, Predicts ps i j := by
  obtain ⟨a, ha, haj⟩ := mem_closure_iff.1 h
  rcases haj.cases_tail with rfl | ⟨b, hab, hbj⟩
  · exact .inl ha
  · exact .inr ⟨b, mem_closure_iff.2 ⟨a, ha, hab⟩, hbj⟩

/-- No item is listed twice. -/
theorem nodup_closure (ps : List Production) (k : Kernel) : (k.closure ps).Nodup := by
  simpa using (closing_closure ps k).nodup

/-- What has been listed stays where it is. -/
theorem prefix_closeFrom (fuel : ℕ) (done pending : List Item) :
    done ++ pending <+: closeFrom ps fuel done pending := by
  induction fuel generalizing done pending with
  | zero => exact List.prefix_rfl
  | succ fuel ih =>
    cases pending with
    | nil => simp [closeFrom]
    | cons i pending =>
      rw [closeFrom]
      refine List.IsPrefix.trans ?_ (ih _ _)
      rw [← List.append_assoc, List.append_assoc done, List.singleton_append]
      exact List.prefix_append _ _

/-- A closure lists its kernel first. -/
theorem members_prefix_closure (ps : List Production) (k : Kernel) :
    k.members <+: k.closure ps :=
  prefix_closeFrom _ [] k.members

/-- A transition holds the items that wait for its symbol, with their dots moved over it. -/
theorem mem_advance {items : List Item} {s : Symbol} :
    j ∈ advance ps items s ↔ ∃ i ∈ items, i.next? ps = some s ∧ i.advance = j := by
  rw [advance, OrderedSet.mem_ofList, List.mem_map]
  simp only [List.mem_filter, beq_iff_eq, and_assoc]

end Kernel

end ShiftReduce
