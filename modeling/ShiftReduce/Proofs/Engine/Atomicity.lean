import ShiftReduce.Proofs.Engine.Alignment

/-!
# What a failed instruction leaves behind

The caller may choose an instruction itself, and it may fail on any table. A shift checks everything
before it changes anything. A reduction checks the rule and the whole right-hand side before it pops
anything, but looks for the target only once the right-hand side is gone: when there is no target,
the context awaits the next instruction without the right-hand side and with a tree for a symbol
that is not on the stack (`reduce_error_cases`), where a `tick` would have stayed within the
reduction.
-/

namespace ShiftReduce

/-- The error of a reduction that found no state to go to. -/
inductive ParseError.LacksTarget : ParseError → Prop
  | unresolvedGoto (state : ℕ) (symbol : String) : LacksTarget (.unresolvedGoto state symbol)
  | invalidState (state count : ℕ) : LacksTarget (.invalidState state count)

namespace Context

variable {table : Table} {tokens : List String} {c c' : Context} {k : ℕ} {e : ParseError}

/-- What the search for a target finds out when the rule is there. -/
theorem Targetless.lacksTarget {p : ℕ} {r : Rule} (h : Targetless table p k e)
    (hrule : table.rule? k = some r) : e.LacksTarget := by
  cases h with
  | noRule hnone => exact absurd (hrule.symm.trans hnone) (by simp)
  | unresolvedGoto => exact .unresolvedGoto _ _
  | noState => exact .invalidState _ _

/-- A right-hand side that cannot be popped is another fault than a missing target. -/
theorem Mismatch.not_lacksTarget (h : Mismatch table k e) : ¬ e.LacksTarget := by
  intro htarget
  cases htarget <;> cases h

/-- To pop a right-hand side and to build its tree is a change, even if there is nothing to pop. -/
theorem Matches.ne (h : Matches c k c') : c' ≠ c := by
  obtain @⟨r, above, below, children, trees, hrule, hframes, hnames, htrees, hlen⟩ := h
  intro heq
  have hbelow : below.length = c.frames.length := congrArg (fun c => c.frames.length) heq
  have htop : trees.length + 1 = c.subtrees.length := congrArg (fun c => c.subtrees.length) heq
  -- a stack that keeps its height lost no symbol, but then there is one more tree
  have habove : above.length = r.rhs.length := by
    rw [← List.length_map (f := fun f : Frame => f.symbol.name), hnames, List.length_reverse]
  rw [hframes, List.length_append] at hbelow
  rw [htrees, List.length_append, List.length_reverse] at htop
  omega

/-- A reduction that fails leaves the context as it is, or the right-hand side popped. -/
theorem reduce_error_cases (h : c.reduce k = (.error e, c')) :
    (c' = c ∧ ¬ e.LacksTarget) ∨
      (e.LacksTarget ∧ c.phase = .awaiting ∧ Matches c k c') := by
  rcases reduce_cases c k with ⟨popped, target, pushed, -, -, -, heq⟩ | ⟨e', heq, hcause⟩ |
    ⟨e', popped, heq, hphase, hmatch, htarget⟩
  · exact absurd (h.symm.trans heq) (by simp)
  · obtain ⟨he, rfl⟩ := Prod.mk.inj (h.symm.trans heq)
    obtain rfl := Except.error.inj he
    refine .inl ⟨rfl, ?_⟩
    rcases hcause with rfl | rfl | hmismatch
    · exact fun h => nomatch h
    · exact fun h => nomatch h
    · exact hmismatch.not_lacksTarget
  · obtain ⟨he, rfl⟩ := Prod.mk.inj (h.symm.trans heq)
    obtain rfl := Except.error.inj he
    have hrule : ∃ r, c'.table.rule? k = some r := by
      cases hmatch with
      | intro hrule => exact ⟨_, hrule⟩
    obtain ⟨r, hrule⟩ := hrule
    exact .inr ⟨htarget.lacksTarget hrule, hphase, hmatch⟩

/-- A shift that fails changes nothing, and neither does a reduction that fails, unless it fails for
want of a target: then the right-hand side is popped, its tree is built, and the context is taken
to be between two instructions. -/
theorem instruction_error (c : Context) :
    (∀ q e c', c.shift q = (.error e, c') → c' = c) ∧
    ∀ k e c', c.reduce k = (.error e, c') →
      (c' = c ↔ ¬ e.LacksTarget) ∧
        (e.LacksTarget → Matches c k c' ∧ c'.phase = .awaiting) := by
  constructor
  · intro q e c' h
    rcases shift_cases c q with ⟨c₁, heq, -⟩ | ⟨e', heq⟩
    · exact absurd (h.symm.trans heq) (by simp)
    · exact (Prod.mk.inj (h.symm.trans heq)).2
  · intro k e c' h
    rcases reduce_error_cases h with ⟨heq, hne⟩ | ⟨he, hphase, hmatch⟩
    · exact ⟨iff_of_true heq hne, fun he => absurd he hne⟩
    · refine ⟨iff_of_false hmatch.ne (not_not_intro he), fun _ => ⟨hmatch, ?_⟩⟩
      cases hmatch
      exact hphase

/-- A rule that does not exist is refused without a trace. -/
theorem instruction_error_adrift : ∃ c, (new .adrift ["x"]).shift 1 = (.ok (), c) ∧
    c.shift 1 = (.error .inputExhausted, c) ∧
    ∃ c', c.reduce 2 = (.error (.invalidRule 2 1), c') ∧ c' = c := by
  refine ⟨_, rfl, rfl, _, rfl, ?_⟩
  exact ((instruction_error _).2 2 (.invalidRule 2 1) _ rfl).1.2 (fun h => nomatch h)

/-- A reduction that fails with its right-hand side popped. -/
theorem reduce_error_adrift : ∃ c c', (new .adrift ["x"]).shift 1 = (.ok (), c) ∧
    c.reduce 1 = (.error (.unresolvedGoto 0 "S"), c') ∧
    c.elements = [.state 0, .symbol (.token "x"), .state 1] ∧ c'.elements = [.state 0] ∧
    c.forest = [.leaf "x"] ∧ c'.forest = [.node "S" [.leaf "x"]] ∧
    c'.isIdle = true ∧ c' ≠ c := by
  refine ⟨_, _, rfl, rfl, ?_⟩
  decide +kernel

end Context

end ShiftReduce
