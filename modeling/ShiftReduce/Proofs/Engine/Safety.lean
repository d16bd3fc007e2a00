import ShiftReduce.Proofs.Engine.Invariant

/-!
# Generated tables are safe

However a parse on a generated table is driven, by phases, by instructions or by runs, its stack
follows the transitions of the automaton, and what fails fails because of the input: no rule, state
or target is missing, and no right-hand side is missing from the stack.
-/

namespace ShiftReduce

namespace Context

/-- The contexts that calls lead to from a context, failed calls included. -/
inductive Driven (c₀ : Context) : Context → Prop
  | fresh : Driven c₀ c₀
  | tick {c : Context} (h : Driven c₀ c) : Driven c₀ c.tick.2
  | step {c : Context} (h : Driven c₀ c) : Driven c₀ c.step.2
  | run {c : Context} {fuel : ℕ} {outcome : Outcome Unit} (h : Driven c₀ c)
      (hrun : c.runWithin fuel = some outcome) : Driven c₀ outcome.2

variable {g : Grammar} {name : Option String} {ts : List String} {c c₀ : Context}
  {symbols : List Symbol} {p q : ℕ} {x : StackSymbol}

/-- Every call keeps the invariant. -/
theorem Driven.upheld (hg : g.WellFormed) (h : Driven c₀ c) (h₀ : Upheld g name ts c₀) :
    Upheld g name ts c := by
  induction h with
  | fresh => exact h₀
  | tick _ ih => exact (ih.tick hg).upheld
  | step _ ih => exact (ih.step hg).1
  | run _ hrun ih => exact (ih.runsTo hg (runsTo_of_runWithin hrun)).1

/-! ## Consecutive entries of the stack -/

/-- The entries of a stack from the top down. -/
def descending (frames : List Frame) : List StackElement :=
  (frames.flatMap fun f => [.state f.state, .symbol f.symbol]) ++ [.state 0]

/-- From the top down the stack shows each state before the symbol below it. -/
theorem reverse_elements (c : Context) : c.elements.reverse = descending c.frames := by
  have hframes : ∀ frames : List Frame,
      (frames.reverse.flatMap fun f => [StackElement.symbol f.symbol, .state f.state]).reverse =
        frames.flatMap fun f => [.state f.state, .symbol f.symbol] := by
    intro frames
    induction frames with
    | nil => rfl
    | cons f frames ih => simp [ih]
  rw [elements, List.reverse_cons, hframes, descending]

/-- From the top down the stack begins with the state on top. -/
theorem exists_descending_eq (frames : List Frame) :
    ∃ rest, descending frames = .state (topOf frames) :: rest := by
  cases frames with
  | nil => exact ⟨[], rfl⟩
  | cons f frames => exact ⟨_, rfl⟩

/-- A symbol on a path stands between a state and the target of the transition on it. -/
theorem target?_of_infix_descending (hg : g.WellFormed) {frames : List Frame}
    (h : Path g symbols frames)
    (hsub : [.state q, .symbol x, .state p] <:+: descending frames) :
    ∃ s, g.augment.symbolOf? x = some s ∧ g.automaton.target? p s = some q := by
  induction h with
  | nil => exact absurd hsub.length_le (by simp [descending])
  | @cons _ frames s r h hr ih =>
    obtain ⟨rest, hrest⟩ := exists_descending_eq frames
    have hcons : descending (⟨g.augment.stackSymbol s, r⟩ :: frames) =
        .state r :: .symbol (g.augment.stackSymbol s) :: descending frames := rfl
    -- the three entries are the topmost ones, or begin with a symbol, or lie further down
    rw [hcons, List.infix_cons_iff, List.infix_cons_iff] at hsub
    rcases hsub with hsub | hsub | hsub
    · rw [hrest] at hsub
      simp only [List.cons_prefix_cons, StackElement.state.injEq, StackElement.symbol.injEq] at hsub
      obtain ⟨rfl, rfl, rfl, -⟩ := hsub
      exact ⟨s, Augmented.symbolOf?_stackSymbol (Build.inRange_of_target? hg hr).augment, hr⟩
    · simp [List.cons_prefix_cons] at hsub
    · exact ih hsub

/-- A symbol of the stack stands between a state and the target of the transition on it. -/
theorem target?_of_infix_elements (hg : g.WellFormed) (h : Path g symbols c.frames)
    (hsub : [.state p, .symbol x, .state q] <:+: c.elements) :
    ∃ s, g.augment.symbolOf? x = some s ∧ g.automaton.target? p s = some q := by
  refine target?_of_infix_descending hg h ?_
  rw [← reverse_elements, ← List.reverse_infix]
  simpa using hsub

end Context

namespace Build

open Context

/-- On a generated table every symbol of the stack stands between a state and the target of the
state's transition on it, and no call fails otherwise than by refusing the input. -/
theorem driven_safe {text : String} {name : Option String} {b : Build} {ts : List String}
    {c : Context} (hb : ofText text name = .ok b) (hc : Driven (.new b.table ts) c) :
    (∀ p x q, [.state p, .symbol x, .state q] <:+: c.elements →
      ∃ s, b.grammar.symbolOf? x = some s ∧ b.automaton.target? p s = some q) ∧
    (∀ e, c.tick.1 = .error e → e.Refusal) ∧
    (∀ e, c.step.1 = .error e → e.Refusal) ∧
    ∀ fuel outcome, c.runWithin fuel = some outcome →
      ∀ e, outcome.1 = .error e → e.Refusal := by
  obtain ⟨g, hread, rfl⟩ := ofText_eq_ok_iff.1 hb
  have hg := Grammar.wellFormed_of_read hread
  have hc := hc.upheld hg ⟨_, _, _, invariant_new g name ts⟩
  refine ⟨?_, (hc.tick hg).refusal, (hc.step hg).2, ?_⟩
  · intro p x q hsub
    obtain ⟨symbols, _, _, h⟩ := hc
    exact target?_of_infix_elements hg h.path hsub
  · intro fuel outcome hrun
    exact (hc.runsTo hg (runsTo_of_runWithin hrun)).2

/-- An opening parenthesis that is not closed is refused. -/
theorem driven_safe_unclosed : ∃ b c, ofText "S -> ( S )\nS ->" none = .ok b ∧
    Driven (.new b.table ["(", "$"]) c ∧
    c.elements = [.state 0, .symbol (.token "("), .state 2] ∧
    (∃ s, b.grammar.symbolOf? (.token "(") = some s ∧ b.automaton.target? 0 s = some 2) ∧
    ∀ e, c.tick.1 = .error e → e.Refusal := by
  set c := (Context.new (ofGrammar Grammar.nested none).table ["(", "$"]).step.2 with hc
  have hdriven : Driven (.new (ofGrammar Grammar.nested none).table ["(", "$"]) c := .step .fresh
  have helements : c.elements = [.state 0, .symbol (.token "("), .state 2] := by decide +kernel
  obtain ⟨hsub, htick, -⟩ := driven_safe ofText_nested hdriven
  refine ⟨_, c, ofText_nested, hdriven, helements, hsub 0 _ 2 ?_, htick⟩
  rw [helements]

end Build

end ShiftReduce
