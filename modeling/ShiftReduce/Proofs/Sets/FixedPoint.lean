import Mathlib.Algebra.Order.BigOperators.Group.List
import Mathlib.Data.List.Perm.Subperm
import Mathlib.Logic.Function.Iterate
import Mathlib.Tactic.Ring
import ShiftReduce.Proofs.Grammar.WellFormed
import ShiftReduce.Sets

/-!
# The passes reach a fixed point

A pass only adds to the sets, and it reports growth exactly if the sets weigh more afterwards. Their
weight is bounded by the sizes of the vocabularies, so the passes of `Sets.solve` end with one that
changes nothing: `grow_solve`. How many there are at most is said in `passes_settle`. What such a
pass says about the productions is collected in `Sets.Closed`, the equations of FIRST and FOLLOW
read as inclusions.
-/

namespace ShiftReduce

namespace OrderedSet

variable {s t : OrderedSet ℕ}

/-- A subset is no larger. -/
theorem size_le_of_subset (h : ∀ a ∈ s, a ∈ t) : s.size ≤ t.size :=
  (s.members_nodup.subperm h).length_le

/-- A subset that is as large is the whole set. -/
theorem eq_of_subset_of_size_le (h : ∀ a ∈ s, a ∈ t) (hsize : t.size ≤ s.size) : s = t := by
  have hperm := (s.members_nodup.subperm h).perm_of_length_le hsize
  exact ext_mem fun a => hperm.mem_iff

/-- A union is no smaller than its parts. -/
theorem size_le_size_union (s t : OrderedSet ℕ) : s.size ≤ (s ∪ t).size :=
  size_le_of_subset fun _ ha => mem_union.2 (.inl ha)

/-- A union that is no larger adds nothing. -/
theorem union_eq_left_of_size_eq (h : s.size = (s ∪ t).size) : s ∪ t = s :=
  (eq_of_subset_of_size_le (fun _ ha => mem_union.2 (.inl ha)) (Nat.le_of_eq h.symm)).symm

/-- A set of numbers below a bound has at most so many members. -/
theorem size_le_of_forall_lt {n : ℕ} (h : ∀ a ∈ s, a < n) : s.size ≤ n := by
  have := (s.members_nodup.subperm fun a ha => List.mem_range.2 (h a ha)).length_le
  simpa [size] using this

end OrderedSet

namespace FirstSet

/-- The number of facts that the set states. -/
def weight (f : FirstSet) : ℕ := f.terminals.size + f.nullable.toNat

/-- Merging changes nothing where nothing is lacking. -/
theorem merge_eq_left_of_lacks_eq_false {s t : FirstSet} (h : s.lacks t = false) :
    s.merge t = s := by
  rw [lacks, Bool.or_eq_false_iff, bne_eq_false_iff_eq] at h
  apply FirstSet.ext (OrderedSet.union_eq_left_of_size_eq h.1)
  have := h.2
  unfold merge
  cases hs : s.nullable <;> cases ht : t.nullable <;> simp_all

/-- Merging adds weight where something is lacking. -/
theorem weight_lt_weight_merge {s t : FirstSet} (h : s.lacks t = true) :
    s.weight < (s.merge t).weight := by
  have hsize := OrderedSet.size_le_size_union s.terminals t.terminals
  rw [lacks, Bool.or_eq_true, bne_iff_ne, Bool.and_eq_true, Bool.not_eq_true'] at h
  simp only [weight, merge]
  -- either a terminal is new, or that the empty sequence can be derived is
  rcases h with h | ⟨ht, hs⟩
  · have hnull : s.nullable.toNat ≤ (s.nullable || t.nullable).toNat := by
      cases s.nullable <;> simp
    omega
  · simp only [hs, ht, Bool.false_or, Bool.toNat_false, Bool.toNat_true]
    omega

end FirstSet

/-- Replacing one entry of a list changes a sum over it by what the entries differ. -/
private theorem sum_map_set {α : Type} (f : α → ℕ) {l : List α} {n : ℕ} {a : α}
    (h : l[n]? = some a) (b : α) : ((l.set n b).map f).sum + f a = (l.map f).sum + f b := by
  induction l generalizing n with
  | nil => simp at h
  | cons x l ih =>
    cases n with
    | zero =>
      obtain rfl := Option.some.inj h
      simp only [List.set_cons_zero, List.map_cons, List.sum_cons]
      omega
    | succ n =>
      have := ih h
      simp only [List.set_cons_succ, List.map_cons, List.sum_cons]
      omega

/-- Writing what is there changes nothing. -/
private theorem set_eq_self {α : Type} {l : List α} {n : ℕ} {a : α} (h : l[n]? = some a) :
    l.set n a = l := by
  obtain ⟨hn, rfl⟩ := List.getElem?_eq_some_iff.1 h
  exact List.set_getElem_self hn

namespace Sets

variable {g : Augmented} {s s' : Sets} {p : Production} {n m : ℕ}

/-! ## Growing sets -/

/-- The sets `s` are contained in `s'`. -/
structure Le (s s' : Sets) : Prop where
  first : ∀ n, ∀ t ∈ (s.firstAt n).terminals, t ∈ (s'.firstAt n).terminals
  nullable : ∀ n, (s.firstAt n).nullable = true → (s'.firstAt n).nullable = true
  follow : ∀ n, ∀ t ∈ s.followAt n, t ∈ s'.followAt n

/-- Sets are no smaller than themselves. -/
theorem Le.refl (s : Sets) : s.Le s := ⟨fun _ _ h => h, fun _ h => h, fun _ _ h => h⟩

/-- Growing twice is growing. -/
theorem Le.trans {s₁ s₂ s₃ : Sets} (h : s₁.Le s₂) (h' : s₂.Le s₃) : s₁.Le s₃ :=
  ⟨fun n t ht => h'.first n t (h.first n t ht), fun n hn => h'.nullable n (h.nullable n hn),
    fun n t ht => h'.follow n t (h.follow n t ht)⟩

/-- The sets are those of the nonterminals of the grammar and hold terminals of it. -/
structure Fits (g : Augmented) (s : Sets) : Prop where
  length_first : s.first.length = g.nonterminals.size
  length_follow : s.follow.length = g.nonterminals.size
  first_lt : ∀ n, ∀ t ∈ (s.firstAt n).terminals, t < g.terminals.size
  follow_lt : ∀ n, ∀ t ∈ s.followAt n, t < g.terminals.size

/-- The number of facts that the sets state. -/
def weight (s : Sets) : ℕ :=
  (s.first.map FirstSet.weight).sum + (s.follow.map OrderedSet.size).sum

/-- Writing one FIRST set leaves the others. -/
theorem firstAt_set (h : n < s.first.length) (f : FirstSet) :
    ({ s with first := s.first.set n f } : Sets).firstAt m = if n = m then f else s.firstAt m := by
  by_cases hnm : n = m
  · subst hnm
    simp [firstAt, h]
  · simp [firstAt, hnm]

/-- Writing one FOLLOW set leaves the others. -/
theorem followAt_set (h : n < s.follow.length) (f : OrderedSet ℕ) :
    ({ s with follow := s.follow.set n f } : Sets).followAt m =
      if n = m then f else s.followAt m := by
  by_cases hnm : n = m
  · subst hnm
    simp [followAt, h]
  · simp [followAt, hnm]

/-- The FIRST sets in range are listed. -/
theorem getElem?_first (h : n < s.first.length) : s.first[n]? = some (s.firstAt n) := by
  rw [firstAt, List.getElem?_eq_getElem h]; rfl

/-- The FOLLOW sets in range are listed. -/
theorem getElem?_follow (h : n < s.follow.length) : s.follow[n]? = some (s.followAt n) := by
  rw [followAt, List.getElem?_eq_getElem h]; rfl

/-- A sequence of symbols of the grammar begins with terminals of the grammar. -/
theorem Fits.firstOf_lt (hs : Fits g s) {symbols : List Symbol}
    (h : ∀ x ∈ symbols, g.grammar.InRange x) :
    ∀ t ∈ (s.firstOf symbols).terminals, t < g.terminals.size := by
  induction symbols with
  | nil => simp [firstOf]
  | cons x rest ih =>
    have ih := ih fun y hy => h y (List.mem_cons_of_mem _ hy)
    intro t ht
    cases x with
    | terminal a =>
      rw [firstOf, OrderedSet.mem_singleton] at ht
      exact ht ▸ h _ List.mem_cons_self
    | nonterminal n =>
      rw [firstOf] at ht
      split at ht
      · rcases OrderedSet.mem_union.1 ht with ht | ht
        · exact hs.first_lt n t ht
        · exact ih t ht
      · exact hs.first_lt n t ht

/-- FIRST of a sequence of symbols of the grammar never asks for a nonterminal that is not there. -/
theorem Fits.covers (hs : Fits g s) {symbols : List Symbol}
    (h : ∀ x ∈ symbols, g.grammar.InRange x) : s.covers symbols = true := by
  induction symbols with
  | nil => rfl
  | cons x rest ih =>
    have ih := ih fun y hy => h y (List.mem_cons_of_mem _ hy)
    cases x with
    | terminal t => rfl
    | nonterminal n =>
      have hn : n < s.first.length := hs.length_first ▸ h _ List.mem_cons_self
      simp [Sets.covers, hn, ih]

/-- What one step from `s` may yield: larger sets that fit, with a flag that tells whether they
state more. -/
structure Grown (g : Augmented) (s : Sets) (r : Sets × Bool) : Prop where
  fits : Fits g r.1
  le : s.Le r.1
  eq_of_false : r.2 = false → r.1 = s
  weight_lt : r.2 = true → s.weight < r.1.weight

/-- A step that changes nothing has grown nothing. -/
theorem Grown.refl (hs : Fits g s) : Grown g s (s, false) :=
  ⟨hs, .refl s, fun _ => rfl, fun h => absurd h (by simp)⟩

/-- A step takes no weight away. -/
theorem Grown.weight_le {r : Sets × Bool} (h : Grown g s r) : s.weight ≤ r.1.weight := by
  cases hr : r.2 with
  | false => exact (h.eq_of_false hr).symm ▸ Nat.le_refl _
  | true => exact Nat.le_of_lt (h.weight_lt hr)

/-- The flag tells whether the sets are others afterwards. -/
theorem Grown.eq_false_iff {r : Sets × Bool} (h : Grown g s r) : r.2 = false ↔ r.1 = s := by
  refine ⟨h.eq_of_false, fun heq => ?_⟩
  by_contra hgrew
  have hlt := h.weight_lt (Bool.eq_true_of_not_eq_false hgrew)
  rw [heq] at hlt
  exact Nat.lt_irrefl _ hlt

/-- Two steps after each other grow the sets if one of them does. -/
theorem Grown.trans {s₁ s₂ : Sets} {b₁ b₂ : Bool} (h₁ : Grown g s (s₁, b₁))
    (h₂ : Grown g s₁ (s₂, b₂)) : Grown g s (s₂, b₁ || b₂) := by
  refine ⟨h₂.fits, h₁.le.trans h₂.le, ?_, ?_⟩
  · intro h
    obtain ⟨hb₁, hb₂⟩ := Bool.or_eq_false_iff.1 h
    exact (h₂.eq_of_false hb₂).trans (h₁.eq_of_false hb₁)
  · intro h
    rcases Bool.or_eq_true_iff.1 h with hb | hb
    · exact Nat.lt_of_lt_of_le (h₁.weight_lt hb) h₂.weight_le
    · exact Nat.lt_of_le_of_lt h₁.weight_le (h₂.weight_lt hb)

/-- The step for FIRST at one production. -/
theorem grown_growFirst (hg : g.Indexed) (hs : Fits g s) (hp : p ∈ g.productions) :
    Grown g s (growFirst s p) := by
  have hlt : p.lhs < s.first.length := hs.length_first ▸ hg.lhs_lt p hp
  have hat := fun m => firstAt_set (m := m) hlt ((s.firstAt p.lhs).merge (s.firstOf p.rhs))
  refine ⟨⟨?_, hs.length_follow, ?_, hs.follow_lt⟩, ⟨?_, ?_, fun _ _ h => h⟩, ?_, ?_⟩
  · rw [growFirst, List.length_set]
    exact hs.length_first
  · intro m t ht
    rw [growFirst, hat] at ht
    split at ht
    · rcases OrderedSet.mem_union.1 ht with ht | ht
      · exact hs.first_lt _ t ht
      · exact hs.firstOf_lt (hg.rhs_inRange p hp) t ht
    · exact hs.first_lt _ t ht
  · intro m t ht
    rw [growFirst, hat]
    split
    · rename_i h
      exact OrderedSet.mem_union.2 (.inl (h ▸ ht))
    · exact ht
  · intro m hm
    rw [growFirst, hat]
    split
    · rename_i h
      subst h
      rw [FirstSet.merge, hm]
      rfl
    · exact hm
  · intro h
    rw [growFirst] at h ⊢
    refine Sets.ext ?_ rfl
    dsimp only
    rw [FirstSet.merge_eq_left_of_lacks_eq_false h]
    exact set_eq_self (getElem?_first hlt)
  · intro h
    rw [growFirst] at h ⊢
    have hsum := sum_map_set FirstSet.weight (getElem?_first hlt)
      ((s.firstAt p.lhs).merge (s.firstOf p.rhs))
    have := FirstSet.weight_lt_weight_merge h
    simp only [weight]
    omega

/-- One more set added to FOLLOW of a nonterminal. -/
theorem grown_follow (hs : Fits g s) (hn : n < g.nonterminals.size) {added : OrderedSet ℕ}
    (hadded : ∀ t ∈ added, t < g.terminals.size) :
    Grown g s ({ s with follow := s.follow.set n (s.followAt n ∪ added) },
      (s.followAt n).size != (s.followAt n ∪ added).size) := by
  have hlt : n < s.follow.length := hs.length_follow ▸ hn
  have hat := fun m => followAt_set (m := m) hlt (s.followAt n ∪ added)
  refine ⟨⟨hs.length_first, ?_, hs.first_lt, ?_⟩, ⟨fun _ _ h => h, fun _ h => h, ?_⟩, ?_, ?_⟩
  · rw [List.length_set]
    exact hs.length_follow
  · intro m t ht
    rw [hat] at ht
    split at ht
    · rcases OrderedSet.mem_union.1 ht with ht | ht
      · exact hs.follow_lt _ t ht
      · exact hadded t ht
    · exact hs.follow_lt _ t ht
  · intro m t ht
    rw [hat]
    split
    · rename_i h
      exact OrderedSet.mem_union.2 (.inl (h ▸ ht))
    · exact ht
  · intro h
    refine Sets.ext rfl ?_
    dsimp only
    rw [OrderedSet.union_eq_left_of_size_eq (bne_eq_false_iff_eq.1 h)]
    exact set_eq_self (getElem?_follow hlt)
  · intro h
    -- a union of another size is a larger one, and no other summand of the weight changes
    have hsum := sum_map_set OrderedSet.size (getElem?_follow hlt) (s.followAt n ∪ added)
    have hle := OrderedSet.size_le_size_union (s.followAt n) added
    have hne := bne_iff_ne.1 h
    simp only [weight]
    omega

/-- What is added to FOLLOW of a nonterminal of a right-hand side of `lhs` for the symbols `rest`
behind it. -/
def added (s : Sets) (lhs : ℕ) (rest : List Symbol) : OrderedSet ℕ :=
  if (s.firstOf rest).nullable then (s.firstOf rest).terminals ∪ s.followAt lhs
  else (s.firstOf rest).terminals

/-- Added is what the symbols behind begin with and, if they can vanish, what follows the left-hand
side. -/
theorem mem_added {lhs t : ℕ} {rest : List Symbol} : t ∈ s.added lhs rest ↔
    t ∈ (s.firstOf rest).terminals ∨ (s.firstOf rest).nullable = true ∧ t ∈ s.followAt lhs := by
  unfold added
  split
  · rename_i h
    simp [OrderedSet.mem_union, h]
  · rename_i h
    simp [h]

/-- Only terminals of the grammar are added. -/
theorem Fits.added_lt (hs : Fits g s) (lhs : ℕ) {rest : List Symbol}
    (hrest : ∀ x ∈ rest, g.grammar.InRange x) : ∀ t ∈ s.added lhs rest, t < g.terminals.size := by
  intro t ht
  rw [added] at ht
  split at ht
  · rcases OrderedSet.mem_union.1 ht with ht | ht
    · exact hs.firstOf_lt hrest t ht
    · exact hs.follow_lt lhs t ht
  · exact hs.firstOf_lt hrest t ht

/-- At a nonterminal the FOLLOW set grows by what is added, and the rest is gone through after
that. -/
theorem growFollow_nonterminal (lhs n : ℕ) (s : Sets) (rest : List Symbol) :
    growFollow lhs s (.nonterminal n :: rest) =
      let old := s.followAt n
      let new := old ∪ s.added lhs rest
      let r := growFollow lhs { s with follow := s.follow.set n new } rest
      (r.1, old.size != new.size || r.2) := rfl

/-- The steps for FOLLOW at one right-hand side. -/
theorem grown_growFollow {lhs : ℕ} {rhs : List Symbol} (hs : Fits g s)
    (hrhs : ∀ x ∈ rhs, g.grammar.InRange x) : Grown g s (growFollow lhs s rhs) := by
  induction rhs generalizing s with
  | nil => exact .refl hs
  | cons x rest ih =>
    have hrest : ∀ y ∈ rest, g.grammar.InRange y := fun y hy => hrhs y (List.mem_cons_of_mem _ hy)
    cases x with
    | terminal t => exact ih hs hrest
    | nonterminal n =>
      rw [growFollow_nonterminal]
      have hstep := grown_follow hs (hrhs _ List.mem_cons_self) (hs.added_lt lhs hrest)
      exact hstep.trans (ih hstep.fits hrest)

/-- The steps at the productions of a list, if each of them grows the sets. -/
theorem grown_sweep {step : Sets → Production → Sets × Bool} {ps : List Production}
    (hstep : ∀ p ∈ ps, ∀ s, Fits g s → Grown g s (step s p)) (hs : Fits g s) :
    Grown g s (sweep step s ps) := by
  induction ps generalizing s with
  | nil => exact .refl hs
  | cons p ps ih =>
    have h := hstep p List.mem_cons_self s hs
    exact h.trans (ih (fun q hq => hstep q (List.mem_cons_of_mem _ hq)) h.fits)

/-- Steps that report no growth all stand at the sets where they began. -/
theorem step_eq_false_of_sweep_eq_false {step : Sets → Production → Sets × Bool}
    {ps : List Production} (hstep : ∀ p ∈ ps, ∀ s, Fits g s → Grown g s (step s p))
    (hs : Fits g s) (h : (sweep step s ps).2 = false) : ∀ p ∈ ps, (step s p).2 = false := by
  induction ps with
  | nil => simp
  | cons p ps ih =>
    obtain ⟨hfirst, hlater⟩ := Bool.or_eq_false_iff.1 h
    -- the first step stands still, so the later ones start where it did
    have heq := (hstep p List.mem_cons_self s hs).eq_of_false hfirst
    rw [heq] at hlater
    intro q hq
    rcases List.mem_cons.1 hq with rfl | hq
    · exact hfirst
    · exact ih (fun q hq => hstep q (List.mem_cons_of_mem _ hq)) hlater q hq

/-! ## One pass -/

/-- The sweep over FIRST grows the sets or says that it has not. -/
private theorem grown_first (hg : g.Indexed) (hs : Fits g s) :
    Grown g s (sweep growFirst s g.productions) :=
  grown_sweep (fun _ hp _ hs => grown_growFirst hg hs hp) hs

/-- So does the sweep over FOLLOW. -/
private theorem grown_followSweep (hg : g.Indexed) (hs : Fits g s) :
    Grown g s (sweep (fun s p => growFollow p.lhs s p.rhs) s g.productions) :=
  grown_sweep (fun _ hp _ hs => grown_growFollow hs (hg.rhs_inRange _ hp)) hs

/-- A pass grows the sets, and tells whether it did. -/
theorem grown_grow (hg : g.Indexed) (hs : Fits g s) : Grown g s (grow g s) := by
  have h := grown_first hg hs
  exact h.trans (grown_followSweep hg h.fits)

/-- The sets satisfy the equations of FIRST and FOLLOW, read as inclusions. -/
structure Closed (ps : List Production) (s : Sets) : Prop where
  first : ∀ p ∈ ps, ∀ t ∈ (s.firstOf p.rhs).terminals, t ∈ (s.firstAt p.lhs).terminals
  nullable : ∀ p ∈ ps, (s.firstOf p.rhs).nullable = true → (s.firstAt p.lhs).nullable = true
  follow : ∀ p ∈ ps, ∀ before n after, p.rhs = before ++ .nonterminal n :: after →
    ∀ t ∈ s.added p.lhs after, t ∈ s.followAt n

/-- Where going through a right-hand side grows nothing, everything to be added is there. -/
private theorem added_subset_of_growFollow_eq_false {lhs : ℕ} {rhs : List Symbol} (hs : Fits g s)
    (hrhs : ∀ x ∈ rhs, g.grammar.InRange x) (h : (growFollow lhs s rhs).2 = false)
    {before after : List Symbol} (heq : rhs = before ++ .nonterminal n :: after) :
    ∀ t ∈ s.added lhs after, t ∈ s.followAt n := by
  -- the nonterminal is met by walking along the right-hand side, and nothing grows on the way
  induction rhs generalizing before with
  | nil => simp at heq
  | cons x rest ih =>
    have hrest : ∀ y ∈ rest, g.grammar.InRange y := fun y hy => hrhs y (List.mem_cons_of_mem _ hy)
    cases before with
    | nil =>
      obtain ⟨rfl, rfl⟩ := List.cons.inj heq
      rw [growFollow_nonterminal, Bool.or_eq_false_iff, bne_eq_false_iff_eq] at h
      intro t ht
      rw [← OrderedSet.union_eq_left_of_size_eq h.1]
      exact OrderedSet.mem_union.2 (.inr ht)
    | cons y before =>
      obtain ⟨rfl, htail⟩ := List.cons.inj heq
      cases x with
      | terminal t => exact ih hrest h htail
      | nonterminal m =>
        rw [growFollow_nonterminal, Bool.or_eq_false_iff] at h
        have hsame := (grown_follow hs (hrhs _ List.mem_cons_self)
          (hs.added_lt lhs hrest)).eq_of_false h.1
        dsimp only at hsame h
        rw [hsame] at h
        exact ih hrest h.2 htail

/-- A pass that reports no growth leaves the sets alone, and they are closed. -/
theorem closed_of_grow_eq_false (hg : g.Indexed) (hs : Fits g s) (h : (grow g s).2 = false) :
    Closed g.productions s := by
  obtain ⟨hfirst, hfollow⟩ := Bool.or_eq_false_iff.1 h
  rw [(grown_first hg hs).eq_of_false hfirst] at hfollow
  have first :=
    step_eq_false_of_sweep_eq_false (fun _ hp _ hs => grown_growFirst hg hs hp) hs hfirst
  have follow := step_eq_false_of_sweep_eq_false
    (fun _ hp _ hs => grown_growFollow hs (hg.rhs_inRange _ hp)) hs hfollow
  -- both sweeps stood still, so what they would have added at a production was there before
  have merged : ∀ p ∈ g.productions,
      (s.firstAt p.lhs).merge (s.firstOf p.rhs) = s.firstAt p.lhs := fun p hp =>
    FirstSet.merge_eq_left_of_lacks_eq_false (first p hp)
  refine ⟨?_, ?_, ?_⟩
  · intro p hp t ht
    rw [← merged p hp]
    exact OrderedSet.mem_union.2 (.inr ht)
  · intro p hp hnull
    rw [← merged p hp]
    exact Bool.or_eq_true_iff.2 (.inr hnull)
  · intro p hp before n after heq
    exact added_subset_of_growFollow_eq_false hs (hg.rhs_inRange p hp) (follow p hp) heq

/-! ## All passes -/

/-- The sets of a grammar state no more facts than there are pairs of a nonterminal and a fact. -/
theorem Fits.weight_le (hs : Fits g s) :
    s.weight ≤ g.nonterminals.size * (2 * g.terminals.size + 1) := by
  have hfirst : (s.first.map FirstSet.weight).sum ≤
      g.nonterminals.size * (g.terminals.size + 1) := by
    rw [← hs.length_first, ← List.length_map FirstSet.weight]
    refine List.sum_le_card_nsmul _ _ fun w hw => ?_
    obtain ⟨f, hf, rfl⟩ := List.mem_map.1 hw
    obtain ⟨n, hn, rfl⟩ := List.getElem_of_mem hf
    refine Nat.add_le_add (OrderedSet.size_le_of_forall_lt ?_) (Bool.toNat_le _)
    have hat : s.firstAt n = s.first[n] := by simp [firstAt, hn]
    exact hat ▸ hs.first_lt n
  have hfollow : (s.follow.map OrderedSet.size).sum ≤ g.nonterminals.size * g.terminals.size := by
    rw [← hs.length_follow, ← List.length_map OrderedSet.size]
    refine List.sum_le_card_nsmul _ _ fun w hw => ?_
    obtain ⟨f, hf, rfl⟩ := List.mem_map.1 hw
    obtain ⟨n, hn, rfl⟩ := List.getElem_of_mem hf
    apply OrderedSet.size_le_of_forall_lt
    have hat : s.followAt n = s.follow[n] := by simp [followAt, hn]
    exact hat ▸ hs.follow_lt n
  calc s.weight ≤ g.nonterminals.size * (g.terminals.size + 1) +
        g.nonterminals.size * g.terminals.size := Nat.add_le_add hfirst hfollow
    _ = g.nonterminals.size * (2 * g.terminals.size + 1) := by ring

/-- The sets after so many passes. -/
def afterPasses (g : Augmented) (s : Sets) (k : ℕ) : Sets := (fun s => (grow g s).1)^[k] s

/-- One more pass comes behind the others. -/
theorem afterPasses_succ (g : Augmented) (s : Sets) (k : ℕ) :
    afterPasses g s (k + 1) = (grow g (afterPasses g s k)).1 :=
  Function.iterate_succ_apply' _ _ _

/-- All passes keep the sets within the grammar. -/
theorem fits_afterPasses (hg : g.Indexed) (hs : Fits g s) (k : ℕ) :
    Fits g (afterPasses g s k) := by
  induction k with
  | zero => exact hs
  | succ k ih =>
    rw [afterPasses_succ]
    exact (grown_grow hg ih).fits

/-- Passes only add. -/
theorem le_afterPasses (hg : g.Indexed) (hs : Fits g s) (k : ℕ) : s.Le (afterPasses g s k) := by
  induction k with
  | zero => exact .refl s
  | succ k ih =>
    rw [afterPasses_succ]
    exact ih.trans (grown_grow hg (fits_afterPasses hg hs k)).le

/-- The first `k` passes report growth, and the one behind them does not. -/
structure Settles (g : Augmented) (s : Sets) (k : ℕ) : Prop where
  grows : ∀ i < k, (grow g (afterPasses g s i)).2 = true
  stands : (grow g (afterPasses g s k)).2 = false

/-- Every pass that reports growth raises the weight. -/
theorem weight_add_le (hg : g.Indexed) (hs : Fits g s) {k : ℕ}
    (hgrows : ∀ i < k, (grow g (afterPasses g s i)).2 = true) :
    s.weight + k ≤ (afterPasses g s k).weight := by
  induction k with
  | zero => exact Nat.le_refl _
  | succ k ih =>
    have hlt := (grown_grow hg (fits_afterPasses hg hs k)).weight_lt (hgrows k (Nat.lt_succ_self k))
    rw [← afterPasses_succ] at hlt
    have := ih fun i hi => hgrows i (Nat.lt_succ_of_lt hi)
    omega

/-- The passes that report growth are no more than the facts that are still missing. -/
theorem exists_settles (hg : g.Indexed) (hs : Fits g s) :
    ∃ k, s.weight + k ≤ g.nonterminals.size * (2 * g.terminals.size + 1) ∧ Settles g s k := by
  have hbound : ∀ k, (∀ i < k, (grow g (afterPasses g s i)).2 = true) →
      s.weight + k ≤ g.nonterminals.size * (2 * g.terminals.size + 1) := fun k hgrows =>
    Nat.le_trans (weight_add_le hg hs hgrows) (fits_afterPasses hg hs k).weight_le
  have hstop : ∃ k, (grow g (afterPasses g s k)).2 = false := by
    by_contra hnever
    have hgrows : ∀ k, (grow g (afterPasses g s k)).2 = true := fun k =>
      Bool.eq_true_of_not_eq_false fun hstands => hnever ⟨k, hstands⟩
    have := hbound (g.nonterminals.size * (2 * g.terminals.size + 1) + 1) fun i _ => hgrows i
    omega
  have hgrows : ∀ i < Nat.find hstop, (grow g (afterPasses g s i)).2 = true := fun i hi =>
    Bool.eq_true_of_not_eq_false (Nat.find_min hstop hi)
  exact ⟨Nat.find hstop, hbound _ hgrows, hgrows, Nat.find_spec hstop⟩

/-- The list of passes goes on as long as they grow something. -/
theorem passesFrom_succ (g : Augmented) (fuel : ℕ) (s : Sets) :
    passesFrom g (fuel + 1) s =
      grow g s :: if (grow g s).2 then passesFrom g fuel (grow g s).1 else [] := rfl

/-- With fuel for one pass more than grow the sets, the passes are those and one more. -/
theorem passesFrom_eq {k fuel : ℕ} (h : Settles g s k) (hfuel : k < fuel) :
    passesFrom g fuel s =
      ((List.range k).map fun i => (afterPasses g s (i + 1), true)) ++
        [(afterPasses g s (k + 1), false)] := by
  induction k generalizing s fuel with
  | zero =>
    obtain ⟨fuel, rfl⟩ := Nat.exists_eq_add_of_lt hfuel
    have hstands : grow g s = (afterPasses g s 1, false) := Prod.ext rfl h.stands
    rw [passesFrom_succ, hstands]
    rfl
  | succ k ih =>
    obtain ⟨fuel, rfl⟩ := Nat.exists_eq_add_of_lt hfuel
    have hgrew : grow g s = (afterPasses g s 1, true) := Prod.ext rfl (h.grows 0 (Nat.succ_pos k))
    -- the passes behind the first one are those from the sets that it leaves
    have hrest : Settles g (afterPasses g s 1) k :=
      ⟨fun i hi => h.grows (i + 1) (Nat.succ_lt_succ hi), h.stands⟩
    rw [passesFrom_succ, hgrew, if_pos rfl, ih hrest (by omega), List.range_succ_eq_map,
      List.map_cons, List.map_map]
    rfl

/-- No FIRST set holds anything at the start. -/
theorem firstAt_initial (g : Augmented) (n : ℕ) : (initial g).firstAt n = ∅ := by
  rw [firstAt, initial, List.getElem?_replicate]
  split <;> rfl

/-- At the start only the end marker is listed, behind the start symbol. -/
theorem mem_followAt_initial (hg : g.Indexed) {n t : ℕ} :
    t ∈ (initial g).followAt n ↔ n = g.start ∧ t = g.endMarker := by
  rw [followAt, initial]
  by_cases h : g.start = n
  · subst h
    simp [hg.start_lt]
  · have hempty : ((List.replicate g.nonterminals.size ∅)[n]?.getD ∅ : OrderedSet ℕ) = ∅ := by
      rw [List.getElem?_replicate]
      split <;> rfl
    rw [List.getElem?_set_ne h, hempty]
    exact ⟨fun ht => absurd ht (OrderedSet.notMem_empty t), fun ht => absurd ht.1.symm h⟩

/-- The initial sets are within the grammar. -/
theorem fits_initial (hg : g.Indexed) : Fits g (initial g) := by
  refine ⟨by simp [initial], by simp [initial], ?_, ?_⟩
  · intro n t ht
    rw [firstAt_initial] at ht
    exact absurd ht (OrderedSet.notMem_empty t)
  · intro n t ht
    exact ((mem_followAt_initial hg).1 ht).2 ▸ hg.endMarker_lt

/-- Solving makes passes until one reports no growth. -/
theorem exists_solve_eq (hg : g.Indexed) :
    ∃ k ≤ g.nonterminals.size * (2 * g.terminals.size + 1),
      Settles g (initial g) k ∧ solve g = afterPasses g (initial g) k := by
  obtain ⟨k, hk, hsettles⟩ := exists_settles hg (fits_initial hg)
  have hfuel : k < passBound g := by
    rw [passBound]
    omega
  have hgrown := grown_grow hg (fits_afterPasses hg (fits_initial hg) k)
  refine ⟨k, by omega, hsettles, ?_⟩
  rw [solve, passes, passesFrom_eq hsettles hfuel, List.getLast?_concat, Option.map_some,
    Option.getD_some, afterPasses_succ, hgrown.eq_of_false hsettles.stands]

/-- Another pass leaves the solved sets alone. -/
theorem grow_solve (hg : g.Indexed) : grow g (solve g) = (solve g, false) := by
  obtain ⟨k, -, hsettles, hsolve⟩ := exists_solve_eq hg
  rw [hsolve]
  have hgrown := grown_grow hg (fits_afterPasses hg (fits_initial hg) k)
  exact Prod.ext (hgrown.eq_of_false hsettles.stands) hsettles.stands

/-- The solution is within the grammar. -/
theorem fits_solve (hg : g.Indexed) : Fits g (solve g) := by
  obtain ⟨k, -, -, hsolve⟩ := exists_solve_eq hg
  exact hsolve ▸ fits_afterPasses hg (fits_initial hg) k

/-- The solution satisfies the equations. -/
theorem closed_solve (hg : g.Indexed) : Closed g.productions (solve g) :=
  closed_of_grow_eq_false hg (fits_solve hg) (by rw [grow_solve hg])

/-- The end marker follows the synthetic start symbol. -/
theorem endMarker_mem_solve (hg : g.Indexed) : g.endMarker ∈ (solve g).followAt g.start := by
  obtain ⟨k, -, -, hsolve⟩ := exists_solve_eq hg
  have hinitial : g.endMarker ∈ (initial g).followAt g.start :=
    (mem_followAt_initial hg).2 ⟨rfl, rfl⟩
  rw [hsolve]
  exact (le_afterPasses hg (fits_initial hg) k).follow _ _ hinitial

end Sets

namespace Grammar

open Sets

/-- The passes over a grammar that was read end: no more of them report growth than there are pairs
of a nonterminal and a fact about it, and solving stops at the first that does not. Each pass only
adds to the sets and reports exactly whether it did, and a pass over the solved sets adds
nothing. -/
theorem passes_settle {g : Grammar} {text : String} (h : read text = .ok g) :
    ∃ k ≤ g.augment.nonterminals.size * (2 * g.augment.terminals.size + 1),
      Settles g.augment (initial g.augment) k ∧
      solve g.augment = afterPasses g.augment (initial g.augment) k ∧
      grow g.augment (solve g.augment) = (solve g.augment, false) ∧
      ∀ i s, s = afterPasses g.augment (initial g.augment) i →
        s.Le (grow g.augment s).1 ∧ ((grow g.augment s).2 = false ↔ (grow g.augment s).1 = s) := by
  have hg := (wellFormed_of_read h).indexed_augment
  obtain ⟨k, hk, hsettles, hsolve⟩ := exists_solve_eq hg
  refine ⟨k, hk, hsettles, hsolve, grow_solve hg, ?_⟩
  rintro i s rfl
  have hgrown := grown_grow hg (fits_afterPasses hg (fits_initial hg) i)
  exact ⟨hgrown.le, hgrown.eq_false_iff⟩

/-- Two nonterminals and three terminals leave room for fourteen passes that grow the sets. -/
theorem passes_settle_nested : read "S -> ( S )\nS ->" = .ok nested ∧
    ∃ k ≤ 14, Settles nested.augment (initial nested.augment) k ∧
      solve nested.augment = afterPasses nested.augment (initial nested.augment) k := by
  obtain ⟨k, hk, hsettles, hsolve, -⟩ := passes_settle read_nested
  exact ⟨read_nested, k, hk, hsettles, hsolve⟩

end Grammar

end ShiftReduce
