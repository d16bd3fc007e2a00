import ShiftReduce.Proofs.Engine.Execution
import ShiftReduce.Proofs.Engine.Runs

/-!
# One token of lookahead

An instruction looks at the next token and at none behind it, on any table, as long as it does not
accept: acceptance has to know that the token is the last one. So a run that ends because there is
no action on its lookahead ends in the same way whatever comes behind the lookahead
(`RunsTo.lookahead`), and a run that accepts goes the same way without its last token until it looks
for it (`RunsTo.exhausted`). That a token has been looked at is marked on it, and the mark makes no
difference to what is carried out (`Looked.executes`).
-/

namespace ShiftReduce

namespace Context

variable {b c c' : Context} {act : Action} {e : ParseError} {u r : List InputToken}

/-! ## The mark on the lookahead -/

/-- The second context is the first one, but that its next token may have been looked at since. -/
inductive Looked (b : Context) : Context → Prop
  | same : Looked b b
  | marked {t : InputToken} {rest : List InputToken} (hinput : b.input = t :: rest) :
      Looked b { b with input := { t with inspected := true } :: rest }

/-- To look at a token once more leaves no other mark. -/
theorem Looked.trans (h : Looked b c) (h' : Looked c c') : Looked b c' := by
  cases h' with
  | same => exact h
  | marked hinput' =>
    cases h with
    | same => exact .marked hinput'
    | marked hinput =>
      obtain ⟨rfl, rfl⟩ := List.cons.inj hinput'
      have hmarked := Looked.marked hinput
      exact hmarked

/-- Looking at the lookahead keeps the phase. -/
theorem Looked.phase_eq (h : Looked b c) : c.phase = b.phase := by
  cases h <;> rfl

/-- Looking at the lookahead does not begin an instruction. -/
theorem Looked.isIdle_eq (h : Looked b c) : c.isIdle = b.isIdle := by
  rw [isIdle, isIdle, h.phase_eq]

/-- The first phase of an instruction changes nothing if it fails, but for the mark. -/
theorem Halts.looked (hidle : c.isIdle = true) (h : Halts c e c') : Looked c c' := by
  cases h with
  | finished | astray | inputExhausted => exact .same
  | unresolvedAction _ _ hinput | trailingInput _ hinput | noState _ hinput | noRule _ hinput =>
    exact .marked hinput
  | unmatched hphase | unresolved hphase =>
    rw [isIdle, hphase] at hidle
    exact absurd hidle (by simp)

/-- A shift takes the lookahead away, and the mark with it. -/
theorem Looked.shifts {q : ℕ} (h : Looked b c) (hshift : Shifts c q c') : Shifts b q c' := by
  cases h with
  | same => exact hshift
  | marked hinput =>
    obtain ⟨hrow, hinput'⟩ := hshift
    obtain ⟨rfl, rfl⟩ := List.cons.inj hinput'
    have hunmarked : Shifts b q _ := .intro hrow hinput
    exact hunmarked

/-- The mark makes no difference to an instruction. -/
theorem Looked.executes (h : Looked b c) (hexec : Executes c act c') : Executes b act c' := by
  cases h with
  | same => exact hexec
  | marked hinput =>
    cases hexec with
    | accept hinput' hact =>
      obtain ⟨rfl, rfl⟩ := List.cons.inj hinput'
      exact .accept hinput hact
    | shift hinput' hact hshift =>
      obtain ⟨rfl, rfl⟩ := List.cons.inj hinput'
      exact .shift hinput hact ((Looked.marked hinput).shifts hshift)
    | reduce hinput' hact hrule hframes hnames htrees hlen hgoto hrow =>
      obtain ⟨rfl, rfl⟩ := List.cons.inj hinput'
      have hunmarked : Executes b (.reduce _) _ :=
        .reduce hinput hact hrule hframes hnames htrees hlen hgoto hrow
      exact hunmarked

/-! ## The tokens behind the lookahead -/

/-- Only acceptance leads to the end of a parse. -/
theorem Executes.phase_eq (hphase : c.phase = .awaiting) (h : Executes c act c')
    (hact : act ≠ .accept) : c'.phase = .awaiting := by
  cases h with
  | accept => exact absurd rfl hact
  | shift _ _ hshift =>
    cases hshift
    exact hphase
  | reduce => rfl

/-- Nothing comes after acceptance. -/
theorem Executes.phase_eq_done (h : Executes c .accept c') : c'.phase = .done := by
  cases h
  rfl

/-- An instruction that leaves some tokens and `r` behind them is carried out in the same way on any
other tokens in place of `r`. -/
theorem Executes.lookahead (h : Executes c act c') (hact : act ≠ .accept) (hu : u ≠ [])
    (hinput : c'.input = u ++ r) :
    ∃ v, u.map (·.symbol) <:+ v.map (·.symbol) ∧ c.input = v ++ r ∧
      ∀ r', Executes { c with input := v ++ r' } act { c' with input := u ++ r' } := by
  cases h with
  | accept => exact absurd rfl hact
  | @shift t rest q _ hinput₀ htable hshift =>
    obtain ⟨hrow, hinput₁⟩ := hshift
    obtain ⟨rfl, rfl⟩ := List.cons.inj (hinput₀.symm.trans hinput₁)
    obtain rfl : rest = u ++ r := hinput
    exact ⟨t :: u, List.suffix_cons _ _, hinput₀, fun r' => .shift rfl htable (.intro hrow rfl)⟩
  | @reduce t rest k q _ _ _ _ _ _ hinput₀ htable hrule hframes hnames htrees hlen hgoto hrow =>
    -- the lookahead stays where it is, so it is the first of the tokens in front of `r`
    obtain ⟨t', u, rfl⟩ := List.exists_cons_of_ne_nil hu
    obtain ⟨rfl, rfl⟩ := List.cons.inj hinput
    exact ⟨t :: u, List.suffix_rfl, hinput₀, fun r' =>
      .reduce rfl htable hrule hframes hnames htrees hlen hgoto hrow⟩

/-- Without an action the context stays as it is, but for the lookahead. -/
theorem exists_lookahead_of_step {q : ℕ} {a : String} {expected : List String}
    (hphase : c.phase = .awaiting)
    (h : c.step = (.error (.unresolvedAction q a expected), c')) :
    ∃ t r, t.symbol = a ∧ c.input = t :: r ∧
      c' = { c with input := { t with inspected := true } :: r } ∧
      ∀ r', ({ c with input := t :: r' } : Context).step = (.error (.unresolvedAction q a expected),
        { c' with input := { t with inspected := true } :: r' }) := by
  have hhalt := halts_of_step_unresolvedAction hphase h
  generalize he : ParseError.unresolvedAction q a expected = e at hhalt
  cases hhalt with
  | @unresolvedAction t r row _ hrow hinput hact =>
    obtain ⟨rfl, rfl, rfl⟩ := ParseError.unresolvedAction.inj he
    exact ⟨t, r, rfl, hinput, rfl, fun r' =>
      stepWithin_of_halts (.unresolvedAction hphase hrow rfl hact)⟩
  | unmatched hphase' | unresolved hphase' => exact absurd (hphase.symm.trans hphase') (by simp)
  | finished | astray | inputExhausted | trailingInput | noState | noRule =>
    exact absurd he (by simp [noState, noRule])

/-- A run that ends without an action on its lookahead ends in the same way on other tokens behind
the lookahead. -/
theorem RunsTo.lookahead {q : ℕ} {a : String} {expected : List String}
    (hrun : RunsTo c (.error (.unresolvedAction q a expected), c'))
    (hphase : c.phase = .awaiting) :
    c'.phase = .awaiting ∧
    ∃ u t r, [a] <:+ u.map (·.symbol) ∧ c.input = u ++ r ∧ t.symbol = a ∧ c'.input = t :: r ∧
      ∀ r', RunsTo { c with input := u ++ r' }
        (.error (.unresolvedAction q a expected), { c' with input := t :: r' }) := by
  generalize houtcome : (Except.error (ParseError.unresolvedAction q a expected), c') = outcome
    at hrun
  induction hrun with
  | done => simp at houtcome
  | @failed c c₁ e hne hstep =>
    obtain ⟨he, rfl⟩ := Prod.mk.inj houtcome
    obtain rfl := Except.error.inj he
    obtain ⟨t, r, hsymbol, hinput, rfl, hsame⟩ := exists_lookahead_of_step hphase hstep
    have hlast : [a] <:+ [t].map (·.symbol) := ⟨[], by simp [hsymbol]⟩
    exact ⟨hphase, [t], { t with inspected := true }, r, hlast, hinput, hsymbol, rfl,
      fun r' => .failed hne (hsame r')⟩
  | @step c c₁ act outcome hne hstep hrun ih =>
    have hexec := executes_of_step hphase hstep
    have hact : act ≠ .accept := by
      rintro rfl
      have hdone := (RunsTo.done hexec.phase_eq_done).unique hrun
      rw [← houtcome] at hdone
      exact absurd hdone (by simp)
    obtain ⟨hphase', u, t, r, hlast, hinput, hsymbol, hinput', hsame⟩ :=
      ih (hexec.phase_eq hphase hact) houtcome
    have hu : u ≠ [] := by
      rintro rfl
      exact absurd (List.suffix_nil.1 hlast) (by simp)
    obtain ⟨v, hv, hinput₀, hexec'⟩ := hexec.lookahead hact hu hinput
    refine ⟨hphase', v, t, r, hlast.trans hv, hinput₀, hsymbol, hinput', fun r' => ?_⟩
    exact .step hne ((hexec' r').step_eq hphase) (hsame r')

/-- The tokens up to a lookahead without an action decide that the run ends there. -/
theorem RunsTo.exists_prefix {table : Table} {ts : List String} {q : ℕ} {a : String}
    {expected : List String}
    (hrun : RunsTo (.new table ts) (.error (.unresolvedAction q a expected), c)) :
    c.phase = .awaiting ∧ ∃ x r, ts = x ++ a :: r ∧ c.remaining = a :: r ∧ ∀ r', ∃ c',
      RunsTo (.new table (x ++ a :: r')) (.error (.unresolvedAction q a expected), c') := by
  obtain ⟨hphase, u, t, r, ⟨x, hx⟩, hinput, rfl, hinput', hsame⟩ := hrun.lookahead rfl
  obtain ⟨read, unread, rfl, rfl, rfl⟩ := List.map_eq_append_iff.1 hinput
  obtain rfl : x ++ [t.symbol] = read := by simpa [Function.comp_def] using hx
  refine ⟨hphase, x, unread, by simp, by simp [remaining, hinput', Function.comp_def], fun r' => ?_⟩
  have hother := hsame (r'.map (⟨·, false⟩))
  have happend : x ++ [t.symbol] ++ r' = x ++ t.symbol :: r' := by simp
  rw [← List.map_append, happend] at hother
  exact ⟨_, hother⟩

/-- Without a lookahead there is no instruction. -/
theorem runsTo_inputExhausted {a : String} (hphase : c.phase = .awaiting) (hinput : c.input = [])
    (hact : c.table.action? c.top a = some act) : RunsTo c (.error .inputExhausted, c) := by
  obtain ⟨row, hrow⟩ := exists_row?_of_action? hact
  have hne : c.phase ≠ .done := by simp [hphase]
  exact .failed hne (stepWithin_of_halts (.inputExhausted hphase hrow hinput))

/-- An input that is accepted runs out if its last token is missing. -/
theorem RunsTo.exhausted (hrun : RunsTo c (.ok (), c')) (hphase : c.phase = .awaiting) :
    ∃ v t c'', c.input = v ++ [t] ∧
      RunsTo { c with input := v } (.error .inputExhausted, c'') := by
  generalize houtcome : (Except.ok (), c') = outcome at hrun
  induction hrun with
  | done hdone => exact absurd (hphase.symm.trans hdone) (by simp)
  | failed => simp at houtcome
  | @step c c₁ act outcome hne hstep hrun ih =>
    have hexec := executes_of_step hphase hstep
    by_cases hact : act = .accept
    · subst hact
      cases hexec with
      | @accept t hinput htable =>
        exact ⟨[], t, _, hinput, runsTo_inputExhausted hphase rfl htable⟩
    obtain ⟨v, t, c'', hinput, hrest⟩ := ih (hexec.phase_eq hphase hact) houtcome
    cases v with
    | cons u v =>
      obtain ⟨v', -, hinput₀, hsame⟩ := hexec.lookahead hact (List.cons_ne_nil u v) hinput
      have hexec' := hsame []
      rw [List.append_nil, List.append_nil] at hexec'
      exact ⟨v', t, c'', hinput₀, .step hne (hexec'.step_eq hphase) hrest⟩
    | nil =>
      -- the last token is the next lookahead, and only a reduction has looked at it already
      cases hexec with
      | accept => exact absurd rfl hact
      | @shift t₀ rest q _ hinput₀ htable hshift =>
        obtain ⟨hrow, hinput₁⟩ := hshift
        obtain ⟨rfl, rfl⟩ := List.cons.inj (hinput₀.symm.trans hinput₁)
        obtain rfl : rest = [t] := hinput
        have hexec' : Executes { c with input := [t₀] } (.shift q) _ :=
          .shift rfl htable (.intro hrow rfl)
        exact ⟨[t₀], t, c'', hinput₀, .step hne (hexec'.step_eq hphase) hrest⟩
      | @reduce t₀ rest _ _ _ _ _ _ _ _ hinput₀ htable =>
        obtain ⟨-, rfl⟩ := List.cons.inj hinput
        exact ⟨[], t₀, _, hinput₀, runsTo_inputExhausted hphase rfl htable⟩

end Context

end ShiftReduce
