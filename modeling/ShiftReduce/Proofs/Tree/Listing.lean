import Mathlib.Data.List.Basic
import Mathlib.Data.Nat.Notation
import ShiftReduce.Tree.Basic

/-!
# The printed list of a forest can be read back

A forest is printed as the list of its nodes in preorder, a line for each, and only the indentation
tells where a node belongs. If no name holds a line feed or begins with a space, the lines give the
levels and the names of the nodes (`outlineLine_injective`), and these give the forest: the children
of a node are what is listed behind it up to the next node that is not deeper
(`forestOutline_append_inj`). So different forests are printed differently, also where trees are
printed one behind the other.
-/

namespace ShiftReduce

namespace Tree

variable {ts us : List Tree} {level : ℕ} {e e' : ℕ × String} {es es' rest : List (ℕ × String)}

/-! ## Outlines -/

mutual

/-- The nodes of a tree in preorder, each with its level. -/
def outline (level : ℕ) : Tree → List (ℕ × String)
  | node n cs => (level, n) :: forestOutline (level + 1) cs

/-- The nodes of the trees of a forest in preorder, each with its level. -/
def forestOutline (level : ℕ) : List Tree → List (ℕ × String)
  | [] => []
  | t :: ts => outline level t ++ forestOutline level ts

end

/-- The nodes of a forest are those of its trees. -/
theorem mem_forestOutline : e ∈ forestOutline level ts ↔ ∃ t ∈ ts, e ∈ outline level t := by
  induction ts with
  | nil => simp [forestOutline]
  | cons t ts ih => rw [forestOutline, List.mem_append, ih, List.exists_mem_cons_iff]

/-- The list of nodes begins above a level, or it is empty. -/
def Above (level : ℕ) (es : List (ℕ × String)) : Prop := ∀ e ∈ es.head?, e.1 < level

/-- The trees of one level end where something of a lower level begins. -/
theorem Above.forestOutline_append (h : Above level rest) (ts : List Tree) :
    Above (level + 1) (forestOutline level ts ++ rest) := by
  cases ts with
  | nil => exact fun e he => Nat.lt_succ_of_lt (h e he)
  | cons t ts =>
    obtain ⟨n, cs⟩ := t
    intro e he
    obtain rfl : (level, n) = e := Option.some.inj he
    exact Nat.lt_succ_self level

mutual

/-- The children of a node are what is listed behind it up to the next node that is not deeper. -/
theorem outline_append_inj {level : ℕ} {rest rest' : List (ℕ × String)} : ∀ {t u : Tree},
    Above (level + 1) rest → Above (level + 1) rest' →
      outline level t ++ rest = outline level u ++ rest' → t = u ∧ rest = rest'
  | node n cs, node m ds, hrest, hrest', h => by
    rw [outline, outline, List.cons_append, List.cons_append] at h
    obtain ⟨hroot, hchildren⟩ := List.cons.inj h
    obtain ⟨rfl, heq⟩ := forestOutline_append_inj hrest hrest' hchildren
    rw [(Prod.mk.inj hroot).2]
    exact ⟨rfl, heq⟩

/-- The trees of a forest are what is listed up to the next node that is above them. -/
theorem forestOutline_append_inj {level : ℕ} {rest rest' : List (ℕ × String)} :
    ∀ {ts us : List Tree}, Above level rest → Above level rest' →
      forestOutline level ts ++ rest = forestOutline level us ++ rest' → ts = us ∧ rest = rest'
  | [], [], _, _, h => ⟨rfl, h⟩
  | [], node m ds :: us, hrest, _, h => by
    have hlt : level < level := by
      refine hrest (level, m) ?_
      rw [forestOutline, List.nil_append] at h
      rw [h]
      rfl
    exact absurd hlt (Nat.lt_irrefl level)
  | node n cs :: ts, [], _, hrest', h => by
    have hlt : level < level := by
      refine hrest' (level, n) ?_
      rw [forestOutline.eq_1, List.nil_append] at h
      rw [← h]
      rfl
    exact absurd hlt (Nat.lt_irrefl level)
  | t :: ts, u :: us, hrest, hrest', h => by
    rw [forestOutline, forestOutline, List.append_assoc, List.append_assoc] at h
    obtain ⟨rfl, hforest⟩ := outline_append_inj (hrest.forestOutline_append ts)
      (hrest'.forestOutline_append us) h
    obtain ⟨rfl, heq⟩ := forestOutline_append_inj hrest hrest' hforest
    exact ⟨rfl, heq⟩

end

/-! ## Lines -/

/-- The name holds no line feed and does not begin with a space. -/
structure PlainName (n : String) : Prop where
  newline_notMem : '\n' ∉ n.toList
  head?_ne : n.toList.head? ≠ some ' '

/-- The line for a node, without its line feed. -/
def outlineLine (e : ℕ × String) : List Char := List.replicate (2 * e.1) ' ' ++ e.2.toList

mutual

/-- A tree is displayed as one line for each node of its outline. -/
theorem displayAt_eq (level : ℕ) : ∀ t : Tree,
    displayAt level t = (outline level t).flatMap fun e => outlineLine e ++ ['\n']
  | node n cs => by
    rw [displayAt, outline, List.flatMap_cons, displayForestAt_eq (level + 1) cs, outlineLine]
    simp

/-- A forest is displayed as one line for each node of its outline. -/
theorem displayForestAt_eq (level : ℕ) : ∀ ts : List Tree,
    displayForestAt level ts = (forestOutline level ts).flatMap fun e => outlineLine e ++ ['\n']
  | [] => rfl
  | t :: ts => by
    rw [displayForestAt, forestOutline, List.flatMap_append, displayAt_eq level t,
      displayForestAt_eq level ts]

end

/-- Where a property ends for the first time, a list is split in one way only. -/
theorem append_inj_of_head? {α : Type} {p : α → Bool} {front front' back back' : List α}
    (hfront : ∀ a ∈ front, p a = true) (hback : ∀ a ∈ back.head?, p a = false)
    (hfront' : ∀ a ∈ front', p a = true) (hback' : ∀ a ∈ back'.head?, p a = false)
    (h : front ++ back = front' ++ back') : front = front' ∧ back = back' := by
  have hsplit : ∀ {front back : List α}, (∀ a ∈ front, p a = true) →
      (∀ a ∈ back.head?, p a = false) → (front ++ back).takeWhile p = front := by
    intro front back hfront hback
    rw [List.takeWhile_append_of_pos hfront]
    cases back with
    | nil => exact List.append_nil front
    | cons a back => rw [List.takeWhile_cons_of_neg (by simp [hback a rfl]), List.append_nil]
  have heq : front = front' := by
    rw [← hsplit hfront hback, h, hsplit hfront' hback']
  subst heq
  exact ⟨rfl, List.append_cancel_left h⟩

/-- The indentation ends where the name begins, so that a line gives the level and the name. -/
theorem outlineLine_injective (he : PlainName e.2) (he' : PlainName e'.2)
    (h : outlineLine e = outlineLine e') : e = e' := by
  have hspace : ∀ k, ∀ c ∈ List.replicate k ' ', (c == ' ') = true := by simp
  have hname : ∀ {n : String}, PlainName n → ∀ c ∈ n.toList.head?, (c == ' ') = false := by
    intro n hn c hc
    rw [beq_eq_false_iff_ne]
    rintro rfl
    exact hn.head?_ne hc
  obtain ⟨hindent, hnames⟩ :=
    append_inj_of_head? (hspace _) (hname he) (hspace _) (hname he') h
  have hlevel := congrArg List.length hindent
  rw [List.length_replicate, List.length_replicate] at hlevel
  exact Prod.ext (Nat.eq_of_mul_eq_mul_left (by decide) hlevel) (String.toList_inj.1 hnames)

/-- With plain names no line of the outline is broken. -/
theorem newline_notMem_outlineLine (he : PlainName e.2) :
    ∀ c ∈ outlineLine e, (c != '\n') = true := by
  intro c hc
  rw [bne_iff_ne]
  rintro rfl
  rcases List.mem_append.1 hc with hc | hc
  · exact absurd (List.eq_of_mem_replicate hc) (by decide)
  · exact he.newline_notMem hc

/-- Lines end at their line feeds, so that the text gives the lines. -/
theorem flatMap_outlineLine_injective (hes : ∀ e ∈ es, PlainName e.2)
    (hes' : ∀ e ∈ es', PlainName e.2) (h : (es.flatMap fun e => outlineLine e ++ ['\n']) =
      es'.flatMap fun e => outlineLine e ++ ['\n']) : es = es' := by
  induction es generalizing es' with
  | nil => cases es' <;> simp_all
  | cons e es ih =>
    cases es' with
    | nil => simp at h
    | cons e' es' =>
      obtain ⟨he, hes⟩ := List.forall_mem_cons.1 hes
      obtain ⟨he', hes'⟩ := List.forall_mem_cons.1 hes'
      rw [List.flatMap_cons, List.flatMap_cons, List.append_assoc, List.append_assoc] at h
      have hfeed : ∀ (cs : List Char), ∀ c ∈ (['\n'] ++ cs).head?, (c != '\n') = false := by simp
      obtain ⟨hline, hrest⟩ := append_inj_of_head? (newline_notMem_outlineLine he) (hfeed _)
        (newline_notMem_outlineLine he') (hfeed _) h
      rw [outlineLine_injective he he' hline, ih hes hes' (List.append_cancel_left hrest)]

/-! ## The text of a forest -/

/-- All names in the tree are plain. -/
inductive Plain : Tree → Prop
  | node {n : String} {cs : List Tree} (hn : PlainName n) (hcs : ∀ c ∈ cs, Plain c) :
      Plain (node n cs)

/-- The names in the outline of a plain tree are plain. -/
theorem Plain.outline {t : Tree} (h : t.Plain) (level : ℕ) :
    ∀ e ∈ t.outline level, PlainName e.2 := by
  induction h generalizing level with
  | node hn _ ih =>
    intro e he
    rcases List.mem_cons.1 he with rfl | he
    · exact hn
    · obtain ⟨c, hc, he⟩ := mem_forestOutline.1 he
      exact ih c hc (level + 1) e he

/-- A forest is printed as its trees one behind the other. -/
theorem displayForest_eq_join (ts : List Tree) :
    displayForest ts = String.join (ts.map display) := by
  induction ts with
  | nil => rfl
  | cons t ts ih =>
    rw [List.map_cons, String.join_cons, ← ih, displayForest, displayForestAt, String.ofList_append]
    rfl

/-- If no name holds a line feed or begins with a space, different forests are printed
differently. -/
theorem join_display_inj (hts : ∀ t ∈ ts, t.Plain) (hus : ∀ u ∈ us, u.Plain) :
    String.join (ts.map display) = String.join (us.map display) ↔ ts = us := by
  refine ⟨fun h => ?_, fun h => h ▸ rfl⟩
  have hplain : ∀ {ts : List Tree}, (∀ t ∈ ts, t.Plain) →
      ∀ e ∈ forestOutline 0 ts, PlainName e.2 := by
    intro ts hts e he
    obtain ⟨t, ht, he⟩ := mem_forestOutline.1 he
    exact (hts t ht).outline 0 e he
  rw [← displayForest_eq_join, ← displayForest_eq_join, displayForest, displayForest,
    String.ofList_inj, displayForestAt_eq, displayForestAt_eq] at h
  have houtline := flatMap_outlineLine_injective (hplain hts) (hplain hus) h
  have htop : Above 0 [] := fun e he => absurd he (by simp)
  exact (forestOutline_append_inj htop htop (congrArg (· ++ []) houtline)).1

/-- The indentation of a line tells a child of the first tree from a second tree. -/
theorem join_display_inj_nested :
    String.join ([node "S" [leaf "x"], leaf "y"].map display) ≠
      String.join ([node "S" [leaf "x", leaf "y"]].map display) := by
  have hleaf : ∀ n ∈ ["x", "y"], (leaf n).Plain := by
    intro n hn
    simp only [List.mem_cons, List.not_mem_nil, or_false] at hn
    rcases hn with rfl | rfl
    · exact .node ⟨by decide, by decide⟩ (by simp)
    · exact .node ⟨by decide, by decide⟩ (by simp)
  have hx := hleaf "x" (by simp)
  have hy := hleaf "y" (by simp)
  have hroot : PlainName "S" := ⟨by decide, by decide⟩
  have hts : ∀ t ∈ [node "S" [leaf "x"], leaf "y"], t.Plain :=
    List.forall_mem_cons.2 ⟨.node hroot (List.forall_mem_singleton.2 hx),
      List.forall_mem_singleton.2 hy⟩
  have hus : ∀ u ∈ [node "S" [leaf "x", leaf "y"]], u.Plain :=
    List.forall_mem_singleton.2 (.node hroot
      (List.forall_mem_cons.2 ⟨hx, List.forall_mem_singleton.2 hy⟩))
  rw [ne_eq, join_display_inj hts hus]
  decide

end Tree

end ShiftReduce
