import ShiftReduce.Proofs.Grammar.Completion

/-!
# Productive symbols

A symbol is productive if a derivation tree derives something from it. A stack is viable with
symbols still to come; if these are productive, terminals can come instead (`Viable.completable`).
How a stack can be completed does not depend on its trees.
-/

namespace ShiftReduce

namespace Grammar

/-- The nonterminal occurs in something that the start symbol derives. -/
inductive Reachable (g : Grammar) : ℕ → Prop
  | start : Reachable g g.start
  | step {p : Production} {n : ℕ} (hp : p ∈ g.productions) (h : Reachable g p.lhs)
      (hn : .nonterminal n ∈ p.rhs) : Reachable g n

/-- The symbol derives some terminals, or the empty sequence. -/
def Productive (g : Grammar) (s : Symbol) : Prop := ∃ t : Tree, t.Spells g s

variable {g : Grammar} {s : Symbol}

/-- What occurs in something that the start symbol derives is a nonterminal of the grammar. -/
theorem Reachable.inRange {n : ℕ} (hg : g.WellFormed) (h : g.Reachable n) :
    g.InRange (.nonterminal n) := by
  cases h with
  | start => exact start_inRange hg.toIndexed
  | step hp _ hn => exact hg.rhs_inRange _ hp _ hn

/-- A terminal derives itself. -/
theorem productive_terminal {t : ℕ} (h : g.InRange (.terminal t)) : g.Productive (.terminal t) :=
  ⟨_, Tree.spells_leaf h⟩

/-- If every reachable nonterminal is productive, what the start symbol derives is made of
productive symbols. -/
theorem productive_of_derives (hg : g.WellFormed)
    (hproductive : ∀ n, g.Reachable n → g.Productive (.nonterminal n)) {ψ : List Symbol}
    (h : Derives g.productions [.nonterminal g.start] ψ) :
    ∀ s ∈ ψ, g.InRange s ∧ g.Productive s := by
  -- nonterminals are productive because they are reachable
  suffices hform : ∀ s ∈ ψ, g.InRange s ∧ ∀ n, s = .nonterminal n → g.Reachable n by
    intro s hs
    obtain ⟨hrange, hreach⟩ := hform s hs
    refine ⟨hrange, ?_⟩
    cases s with
    | terminal t => exact productive_terminal hrange
    | nonterminal n => exact hproductive n (hreach n rfl)
  induction h with
  | refl =>
    intro s hs
    obtain rfl := List.mem_singleton.1 hs
    refine ⟨start_inRange hg.toIndexed, ?_⟩
    rintro n ⟨⟩
    exact .start
  | tail _ hstep ih =>
    obtain @⟨p, hp, before, after⟩ := hstep
    intro s hs
    have hlhs := (ih (.nonterminal p.lhs) (by simp)).2 _ rfl
    simp only [List.mem_append] at hs
    rcases hs with hs | hs | hs
    · exact ih s (by simp [hs])
    · exact ⟨hg.rhs_inRange p hp s hs, fun n hn => .step hp hlhs (hn ▸ hs)⟩
    · exact ih s (by simp [hs])

end Grammar

/-- Reading `rest` completes the stack, whatever its trees are. -/
def Completable (g : Grammar) (symbols : List Symbol) (rest : List ℕ) : Prop :=
  ∃ n, ∀ trees : List Tree, trees.length = symbols.length → ∃ T, Completes g T n symbols trees rest

section Completable

variable {g : Grammar} {s : Symbol} {p : Production} {symbols : List Symbol} {rest : List ℕ}

/-- The start symbol alone is complete. -/
theorem completable_start (g : Grammar) : Completable g [.nonterminal g.start] [] := by
  refine ⟨0, fun trees hlen => ?_⟩
  obtain ⟨T, rfl⟩ := List.length_eq_one_iff.1 hlen
  exact ⟨T, .whole⟩

/-- A right-hand side stands for its left-hand side. -/
theorem Completable.reduce (hp : p ∈ g.productions)
    (h : Completable g (.nonterminal p.lhs :: symbols) rest) :
    Completable g (p.rhs.reverse ++ symbols) rest := by
  obtain ⟨n, h⟩ := h
  refine ⟨n + 1, fun trees hlen => ?_⟩
  rw [List.length_append, List.length_reverse] at hlen
  obtain ⟨children, trees', hchildren, rfl⟩ :=
    Tree.exists_children (n := p.rhs.length) trees (by omega)
  rw [List.length_append, List.length_reverse, hchildren, Nat.add_left_cancel_iff] at hlen
  obtain ⟨T, hT⟩ := h (.node (g.name (.nonterminal p.lhs)) children :: trees') (by simp [hlen])
  exact ⟨T, hT.reduce hp hchildren⟩

/-- A productive symbol can still be to read. -/
theorem Completable.tail (hg : g.WellFormed) (hs : g.InRange s) (hproductive : g.Productive s)
    (h : Completable g (s :: symbols) rest) : ∃ rest', Completable g symbols rest' := by
  obtain ⟨t, ht⟩ := hproductive
  obtain ⟨v, m, -, hunread⟩ := exists_unread hg ht.isDerivation hs ht.name_eq
  -- put a derivation tree on the stack for the symbol, then take it off by reading its terminals
  obtain ⟨n, h⟩ := h
  refine ⟨v ++ rest, n + m, fun trees hlen => ?_⟩
  obtain ⟨T, hT⟩ := h (t :: trees) (by simp [hlen])
  exact ⟨T, hunread _ _ symbols trees _ hT⟩

/-- What is still to come can be replaced by terminals. -/
theorem Viable.completable {rest : List Symbol} (hg : g.WellFormed)
    (hproductive : ∀ n, g.Reachable n → g.Productive (.nonterminal n))
    (h : Viable g symbols rest) : ∃ rest', Completable g symbols rest' := by
  induction h with
  | whole => exact ⟨[], completable_start g⟩
  | @shift s symbols rest h ih =>
    obtain ⟨rest', hrest'⟩ := ih
    obtain ⟨hs, hproductive⟩ := Grammar.productive_of_derives hg hproductive h.derives s (by simp)
    exact hrest'.tail hg hs hproductive
  | reduce hp _ ih =>
    obtain ⟨rest', hrest'⟩ := ih
    exact ⟨rest', hrest'.reduce hp⟩

end Completable

end ShiftReduce
