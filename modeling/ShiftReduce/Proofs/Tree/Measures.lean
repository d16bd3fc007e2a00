import Mathlib.Data.Nat.Notation
import ShiftReduce.Tree.Basic

/-!
# The room of a tree is measured by its levels and leaves

A node without children is a leaf and takes a column of its own, and the columns of a node with
children are those of the children side by side. So a tree is as wide as it has leaves and as high
as it is deep (`extent_eq`), and what holds of leaves and levels holds of the room: a child is no
wider than its parent and lower (`extent_measures`).
-/

namespace ShiftReduce

namespace Tree

variable {ts : List Tree} {t : Tree} {k : ℕ}

/-! ## Levels -/

/-- The depth of a forest bounds the depths of its trees, and nothing smaller does. -/
theorem forestDepth_le_iff : forestDepth ts ≤ k ↔ ∀ t ∈ ts, t.depth ≤ k := by
  induction ts with
  | nil => simp [forestDepth]
  | cons t ts ih => rw [forestDepth, Nat.max_le, ih, List.forall_mem_cons]

/-- Every tree has a level. -/
theorem depth_pos (t : Tree) : 0 < t.depth := by
  cases t
  rw [depth]
  exact Nat.lt_add_right _ Nat.zero_lt_one

/-- A child is a level below its parent. -/
theorem depth_lt_of_mem_children {c : Tree} (hc : c ∈ t.children) : c.depth < t.depth := by
  obtain ⟨n, cs⟩ := t
  have hle : c.depth ≤ forestDepth cs := forestDepth_le_iff.1 (Nat.le_refl _) c hc
  rw [depth, Nat.add_comm]
  exact Nat.lt_succ_of_le hle

/-! ## Leaves -/

/-- The leaves of a node with children are those of the children. -/
theorem leaves_node_of_ne_nil (n : String) {cs : List Tree} (h : cs ≠ []) :
    (node n cs).leaves = forestLeaves cs := by
  obtain ⟨c, cs, rfl⟩ := List.exists_cons_of_ne_nil h
  rw [leaves, forestLeaves]

/-- There is a leaf below every node, or the node is one. -/
theorem length_leaves_pos : ∀ t : Tree, 0 < t.leaves.length
  | node n [] => Nat.zero_lt_one
  | node n (c :: cs) => by
    rw [leaves, List.length_append]
    exact Nat.lt_add_right _ (length_leaves_pos c)

/-- A tree of a forest has no more leaves than the forest. -/
theorem length_leaves_le_of_mem (ht : t ∈ ts) : t.leaves.length ≤ (forestLeaves ts).length := by
  induction ts with
  | nil => exact absurd ht List.not_mem_nil
  | cons u us ih =>
    rw [forestLeaves, List.length_append]
    rcases List.mem_cons.1 ht with rfl | ht
    · exact Nat.le_add_right _ _
    · exact Nat.le_add_left_of_le (ih ht)

/-- The leaves of a child are leaves of its parent. -/
theorem length_leaves_le_of_mem_children {c : Tree} (hc : c ∈ t.children) :
    c.leaves.length ≤ t.leaves.length := by
  obtain ⟨n, cs⟩ := t
  rw [children] at hc
  rw [leaves_node_of_ne_nil n (List.ne_nil_of_mem hc)]
  exact length_leaves_le_of_mem hc

/-! ## The room -/

mutual

/-- A tree is as wide as it has leaves and as high as it is deep. -/
theorem extent_eq : ∀ t : Tree, t.extent = ⟨t.leaves.length, t.depth⟩
  | node n [] => rfl
  | node n (c :: cs) => by
    have hpos : 1 ≤ (node n (c :: cs)).leaves.length := length_leaves_pos _
    rw [leaves_node_of_ne_nil n (List.cons_ne_nil c cs)] at hpos ⊢
    -- with a leaf among the children the least width makes no difference
    rw [extent, forestExtent_eq (c :: cs), Nat.max_eq_right hpos, depth, Nat.add_comm]

/-- A forest is as wide as it has leaves and as high as its deepest tree. -/
theorem forestExtent_eq : ∀ ts : List Tree,
    forestExtent ts = ⟨(forestLeaves ts).length, forestDepth ts⟩
  | [] => rfl
  | t :: ts => by
    rw [forestExtent, extent_eq t, forestExtent_eq ts, forestLeaves, List.length_append,
      forestDepth]

end

/-- The room of a tree agrees with its levels and its leaves, it is never empty, and a child takes
no more columns than its parent and fewer levels. -/
theorem extent_measures (t : Tree) : t.extent.height = t.depth ∧
    t.extent.width = t.leaves.length ∧ 1 ≤ t.extent.height ∧ 1 ≤ t.extent.width ∧
    ∀ c ∈ t.children, c.extent.width ≤ t.extent.width ∧ c.extent.height < t.extent.height := by
  rw [extent_eq t]
  refine ⟨rfl, rfl, depth_pos t, length_leaves_pos t, fun c hc => ?_⟩
  rw [extent_eq c]
  exact ⟨length_leaves_le_of_mem_children hc, depth_lt_of_mem_children hc⟩

/-- A product of two factors; the empty node at its end counts as a leaf. -/
def product : Tree :=
  node "Factor" [leaf "id", node "Rest" [leaf "*", node "Term" [leaf "id"], node "Rest" []]]

/-- The second factor takes three of the four columns and of the four levels. -/
theorem extent_measures_product :
    node "Rest" [leaf "*", node "Term" [leaf "id"], node "Rest" []] ∈ product.children ∧
      product.extent = ⟨4, 4⟩ ∧
      (node "Rest" [leaf "*", node "Term" [leaf "id"], node "Rest" []]).extent.width ≤
        product.extent.width ∧
      (node "Rest" [leaf "*", node "Term" [leaf "id"], node "Rest" []]).extent.height <
        product.extent.height := by
  have hchild : node "Rest" [leaf "*", node "Term" [leaf "id"], node "Rest" []] ∈
      product.children := by decide
  exact ⟨hchild, by decide, (extent_measures product).2.2.2.2 _ hchild⟩

end Tree

end ShiftReduce
