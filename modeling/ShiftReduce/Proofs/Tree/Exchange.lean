import ShiftReduce.Proofs.Json.Nested
import ShiftReduce.Proofs.Tree.Measures
import ShiftReduce.Tree.Layout

/-!
# Exchanging trees

Each level of a tree puts an object and an array around what is below it, and reading goes at most
127 of them deep. A tree of at most 63 levels is therefore read back from its JSON, in either style,
and a deeper one is refused. `reads_writeAt` says so for any limit and at any level.
-/

namespace ShiftReduce

namespace Tree

open Json

/-! ## Forests level by level -/

/-- A forest fits into a depth exactly if all its trees do, two containers a level. -/
theorem two_mul_forestDepth_le_iff {ts : List Tree} {k : ℕ} :
    2 * forestDepth ts ≤ k ↔ ∀ t ∈ ts, 2 * t.depth ≤ k := by
  have hhalf : ∀ d, 2 * d ≤ k ↔ d ≤ k / 2 := fun d => by omega
  simp only [hhalf, forestDepth_le_iff]

/-- A forest is written tree by tree. -/
theorem writeForestAt_eq_map (style : Style) (level : ℕ) (ts : List Tree) :
    writeForestAt style level ts = ts.map (writeAt style level) := by
  induction ts with
  | nil => rfl
  | cons t ts ih => rw [writeForestAt, ih, List.map_cons]

/-! ## Reading a node -/

/-- A node is read as its children are. -/
theorem reads_node {child : Option (Reader Tree)} {written : List Char}
    {outcome : Except Fault (List Tree)} (h : Reads (list child) written outcome) (n : String)
    (style : Style) (level : ℕ) :
    Reads ((shape child).read true (leaf ""))
      (object style level [("name", string n), ("children", written)]) (outcome.map (node n)) := by
  have hname : Writes ⟨"name", true, text.map fun n t => node n (children t)⟩
      ⟨string n, .ok fun t => node n t.children⟩ := (reads_text n).writes
  have hchildren : Writes ⟨"children", false, (list child).map fun cs t => node (name t) cs⟩
      ⟨written, outcome.map fun cs t => node t.name cs⟩ :=
    h.map fun cs t => node (name t) cs
  have hkeys : ((shape child).fields.map (·.key)).Nodup := by simp [shape]
  have hread := (shape child).reads_object (.cons hname (.cons hchildren .nil)) (.all hkeys)
    (leaf "") style level
  cases outcome <;> exact hread

/-- A tree is read if two brackets a level may be nested that deep, else it is refused. -/
theorem reads_writeAt (style : Style) (limit level : ℕ) (t : Tree) :
    Reads (reader limit) (writeAt style level t)
      (if 2 * t.depth ≤ limit then .ok t else .error .malformed) := by
  induction limit using reader.induct generalizing level t with
  | case1 =>
    obtain ⟨n, cs⟩ := t
    rw [writeAt, Tree.depth, if_neg (by omega)]
    exact (shape none).reads_object_of_closed _ _ _ _
  | case2 =>
    obtain ⟨n, cs⟩ := t
    rw [writeAt, Tree.depth, if_neg (by omega)]
    exact reads_node (reads_array_of_none _ _ _) n style level
  | case3 limit ih =>
    obtain ⟨n, cs⟩ := t
    have hchildren := reads_array_ite (fun t (_ : t ∈ cs) => ih (level + 2) t) style (level + 1)
    have hnode := reads_node hchildren n style level
    have hiff : (∀ t ∈ cs, 2 * t.depth ≤ limit) ↔ 2 * (1 + forestDepth cs) ≤ limit + 2 := by
      rw [← two_mul_forestDepth_le_iff]
      omega
    rw [writeAt, writeForestAt_eq_map, Tree.depth, reader]
    rw [if_congr hiff rfl rfl, apply_ite (Except.map (node n))] at hnode
    exact hnode

/-- A tree of at most 63 levels is read back from its JSON; a deeper one is refused. -/
theorem ofJson_toJson_eq (style : Style) (t : Tree) :
    ofJson (t.toJson style) = if t.depth ≤ 63 then .ok t else .error .malformed := by
  have hiff : 2 * t.depth ≤ depthLimit ↔ t.depth ≤ 63 := by
    rw [depthLimit]
    omega
  rw [ofJson, toJson, decode_ofList (reads_writeAt style depthLimit 0 t), if_congr hiff rfl rfl]

/-! ## A tree that is not read back -/

/-- A tree of `n` levels above a leaf, one node each. -/
def chain : ℕ → Tree
  | 0 => leaf "x"
  | n + 1 => node "x" [chain n]

/-- A chain has its leaf and a level for each node above it. -/
theorem depth_chain (n : ℕ) : (chain n).depth = n + 1 := by
  induction n with
  | zero => rfl
  | succ n ih => simp [chain, Tree.depth, forestDepth, ih, Nat.add_comm]

/-- A chain of 64 levels is not read back. -/
theorem ofJson_toJson_chain_ne : ofJson ((chain 63).toJson .compact) ≠ .ok (chain 63) := by
  have hdeep : ¬ 2 * (chain 63).depth ≤ depthLimit := by
    rw [depth_chain]
    decide
  rw [ofJson, toJson, decode_ofList (reads_writeAt .compact depthLimit 0 _), if_neg hdeep]
  simp

end Tree

end ShiftReduce
