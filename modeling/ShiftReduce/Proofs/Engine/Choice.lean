import ShiftReduce.Proofs.Engine.Atomicity
import ShiftReduce.Proofs.Engine.Lookahead

/-!
# The caller's choice and the table's

A caller may ask for the very instruction that the table would choose. A shift is then the same
call either way. A reduction is not: the table carries it out in three phases, the caller in one go,
and the tests stand in different places. But the parts that both are made of look neither at the
input nor at the phase (`matchRule_with`, `resolveGoto_with`), so that both meet the same error at
the same part, and leave the same stack, trees, tokens and counts (`step_alike`). What is left of
the difference is the mark on the lookahead, which the table's choice sets, and the phase where a
reduction finds no target: the phases stay within the reduction, where the call awaits the next
instruction.
-/

namespace ShiftReduce

namespace Context

variable {c popped : Context} {t : InputToken} {rest : List InputToken} {act : Action} {k q : ℕ}
  {called : Outcome Unit}

/-! ## The parts of a reduction -/

/-- What is popped depends neither on the input nor on the phase. -/
theorem matchRule_with (c : Context) (input : List InputToken) (phase : Phase) (k : ℕ) :
    ({ c with input, phase } : Context).matchRule k =
      (c.matchRule k).map fun popped => { popped with input, phase } := by
  unfold matchRule
  cases c.table.rule? k with
  | none => rfl
  | some r =>
    cases hpop : popSymbols k r.rhs.reverse c.frames with
    | error e => simp only [hpop, Except.map]
    | ok below =>
      by_cases hshort : c.subtrees.length < r.rhs.length
      · simp only [hpop, if_pos hshort, Except.map]
      · simp only [hpop, if_neg hshort, Except.map]

/-- What is pushed depends neither on the input nor on the phase. -/
theorem resolveGoto_with (c : Context) (input : List InputToken) (phase : Phase) (k : ℕ) :
    ({ c with input, phase } : Context).resolveGoto k =
      (c.resolveGoto k).map fun pushed => (pushed.1, { pushed.2 with input, phase }) := by
  have htop : ({ c with input, phase } : Context).top = c.top := rfl
  unfold resolveGoto
  rw [htop]
  cases c.table.rule? k with
  | none => rfl
  | some r =>
    cases hgoto : c.table.goto? c.top r.lhs with
    | none => simp only [hgoto, Except.map]
    | some q =>
      cases hrow : c.table.row? q with
      | none => simp only [hgoto, hrow, Except.map]
      | some row => simp only [hgoto, hrow, Except.map]

/-- Popping concerns the stack and the trees alone. -/
theorem Matches.unchanged (h : Matches c k popped) :
    popped.table = c.table ∧ popped.input = c.input ∧ popped.phase = c.phase := by
  cases h
  exact ⟨rfl, rfl, rfl⟩

/-- Pushing concerns the stack alone. -/
theorem Resolves.unchanged {target : String × ℕ} {pushed : Context}
    (h : Resolves c k target pushed) :
    pushed.input = c.input ∧ pushed.phase = c.phase := by
  cases h
  exact ⟨rfl, rfl⟩

/-! ## Two ways to one instruction -/

/-- The call that asks for an instruction. Nothing asks for acceptance. -/
inductive Asks (c : Context) : Action → Outcome Unit → Prop
  | shift (q : ℕ) : Asks c (.shift q) (c.shift q)
  | reduce (k : ℕ) : Asks c (.reduce k) (c.reduce k)

/-- An instruction that the table chose and a call that asked for it end alike. -/
structure Alike (act : Action) (stepped : Outcome Action) (called : Outcome Unit) : Prop where
  /-- Both succeed, or both fail with one error. -/
  outcome_eq : stepped.1 = called.1.map fun _ => act
  /-- The contexts are the same up to their phases and the mark on the next token. -/
  looked : Looked { called.2 with phase := stepped.2.phase } stepped.2
  /-- The phases are the same unless a reduction found no target. -/
  phase_cases : stepped.2.phase = called.2.phase ∨ ∃ k e, act = .reduce k ∧
    called.1 = .error e ∧ e.LacksTarget ∧ stepped.2.phase = .resolving k ∧
      called.2.phase = .awaiting

/-- A shift that the table asks for does the same when the caller chooses it. -/
theorem shift_alike (hphase : c.phase = .awaiting) (hinput : c.input = t :: rest)
    (hact : c.table.action? c.top t.symbol = some (.shift q)) :
    Alike (.shift q) c.step (c.shift q) := by
  cases hrow : c.table.row? q with
  | none =>
    have hcall : c.shift q = (.error (noState c.table q), c) := by
      simp only [shift, ensureAwaiting, hphase, pushToken, hrow]
    have hstep : c.step = (.error (noState c.table q), _) :=
      stepWithin_of_halts (.noState hphase hinput hact hrow)
    rw [hcall, hstep]
    exact ⟨rfl, .marked hinput, .inl rfl⟩
  | some row =>
    obtain ⟨pushed, hshift⟩ : ∃ pushed, Shifts c q pushed := ⟨_, .intro hrow hinput⟩
    have hcall : c.shift q = (.ok (), pushed) := by
      simp only [shift, ensureAwaiting, hphase, pushToken_eq_ok_iff.2 hshift]
    rw [hcall, (Executes.shift hinput hact hshift).step_eq hphase]
    exact ⟨rfl, .same, .inl rfl⟩

/-- Once the right-hand side is popped, both ways look for the target of the same rule in the same
state. -/
theorem reduce_alike_of_matchRule (hphase : c.phase = .awaiting) (hinput : c.input = t :: rest)
    {r : Rule} (hrule : c.table.rule? k = some r) (hmatch : c.matchRule k = .ok popped) :
    Alike (.reduce k)
      (stepWithin 1
        { popped with input := { t with inspected := true } :: rest, phase := .resolving k })
      (c.reduce k) := by
  obtain ⟨htable, hinput', hphase'⟩ := (matchRule_eq_ok_iff.1 hmatch).unchanged
  have hphases := resolveGoto_with popped ({ t with inspected := true } :: rest) (.resolving k) k
  cases hresolve : popped.resolveGoto k with
  | error e =>
    have hcall : c.reduce k = (.error e, popped) := by
      simp only [reduce, ensureAwaiting, hphase, hmatch, hresolve]
    have htarget : e.LacksTarget :=
      (targetless_of_resolveGoto hresolve).lacksTarget (by rw [htable, hrule])
    rw [hresolve] at hphases
    rw [hcall, stepWithin_of_halts (.unresolved rfl hphases)]
    exact ⟨rfl, .marked (hinput'.trans hinput),
      .inr ⟨k, e, rfl, rfl, htarget, rfl, hphase'.trans hphase⟩⟩
  | ok target =>
    obtain ⟨hinput'', hphase''⟩ := (resolveGoto_eq_ok_iff.1 hresolve).unchanged
    have hcall : c.reduce k =
        (.ok (), { target.2 with stats := countReduction target.2.stats }) := by
      simp only [reduce, ensureAwaiting, hphase, hmatch, hresolve]
    rw [hresolve] at hphases
    rw [hcall, stepWithin_of_completed (.reduced rfl (resolveGoto_eq_ok_iff.1 hphases)) rfl]
    exact ⟨rfl, .marked (hinput''.trans (hinput'.trans hinput)),
      .inl (hphase''.trans (hphase'.trans hphase)).symm⟩

/-- A reduction that the table asks for does the same when the caller chooses it, up to the place
where it may stop. -/
theorem reduce_alike (hphase : c.phase = .awaiting) (hinput : c.input = t :: rest)
    (hact : c.table.action? c.top t.symbol = some (.reduce k)) :
    Alike (.reduce k) c.step (c.reduce k) := by
  cases hrule : c.table.rule? k with
  | none =>
    have hcall : c.reduce k = (.error (noRule c.table k), c) := by
      simp only [reduce, ensureAwaiting, hphase, matchRule, hrule]
    have hstep : c.step = (.error (noRule c.table k), _) :=
      stepWithin_of_halts (.noRule hphase hinput hact hrule)
    rw [hcall, hstep]
    exact ⟨rfl, .marked hinput, .inl rfl⟩
  | some r =>
    have hstep : c.step = _ :=
      stepWithin_of_pending (.reduceStarted hphase hinput hact hrule) rfl
    have hphases := matchRule_with c ({ t with inspected := true } :: rest) (.matching k) k
    rw [hstep]
    cases hmatch : c.matchRule k with
    | error e =>
      have hcall : c.reduce k = (.error e, c) := by
        simp only [reduce, ensureAwaiting, hphase, hmatch]
      rw [hmatch] at hphases
      rw [hcall, stepWithin_of_halts (.unmatched rfl hphases)]
      exact ⟨rfl, .marked hinput, .inl hphase.symm⟩
    | ok popped =>
      rw [hmatch] at hphases
      have halike := reduce_alike_of_matchRule hphase hinput hrule hmatch
      rw [stepWithin_of_pending (.matched rfl (matchRule_eq_ok_iff.1 hphases)) rfl]
      exact halike

/-- On any table, a context that awaits an instruction carries it out in the same way whether the
table chooses it or the caller asks for it. -/
theorem step_alike (hphase : c.phase = .awaiting) (hinput : c.input = t :: rest)
    (hact : c.table.action? c.top t.symbol = some act) (hcall : Asks c act called) :
    Alike act c.step called := by
  cases hcall with
  | shift q => exact shift_alike hphase hinput hact
  | reduce k => exact reduce_alike hphase hinput hact

/-- A shift that succeeds either way, and behind it a reduction without a target, which stops in two
places. -/
theorem step_alike_adrift : ∃ c, (new .adrift ["x", "$"]).shift 1 = (.ok (), c) ∧
    Alike (.shift 1) (new .adrift ["x", "$"]).step ((new .adrift ["x", "$"]).shift 1) ∧
    Alike (.reduce 1) c.step (c.reduce 1) ∧
    (c.reduce 1).1 = .error (.unresolvedGoto 0 "S") ∧
    c.step.2.phase = .resolving 1 ∧ (c.reduce 1).2.phase = .awaiting := by
  refine ⟨_, rfl, ?_, ?_, rfl, rfl, rfl⟩
  · exact step_alike (t := ⟨"x", false⟩) rfl rfl rfl (.shift 1)
  · exact step_alike (t := ⟨"$", false⟩) rfl rfl rfl (.reduce 1)

end Context

end ShiftReduce
