import Mathlib.Data.Nat.Notation
import ShiftReduce.Engine.Instruction

/-!
# Runs

A run carries out instructions until one fails or the input is accepted. How many are allowed does
not matter as long as they suffice, so a run has one outcome (`runWithin_unique`).
-/

namespace ShiftReduce

namespace Context

variable {c c' : Context} {act : Action} {fuel m : ℕ} {outcome outcome' : Outcome Unit}

/-- The parse is finished when the input has been accepted. -/
theorem isFinished_iff : c.isFinished = true ↔ c.phase = .done := by
  rw [isFinished, beq_iff_eq]

/-- In any other phase it is not. -/
theorem not_isFinished (hphase : c.phase ≠ .done) : ¬ c.isFinished = true :=
  fun h => hphase (isFinished_iff.1 h)

/-- A run that has accepted its input ends, however many instructions are allowed. -/
theorem runWithin_of_done (hphase : c.phase = .done) (fuel : ℕ) :
    c.runWithin fuel = some (.ok (), c) := by
  have hfinished := isFinished_iff.2 hphase
  cases fuel <;> rw [runWithin, if_pos hfinished]

/-- Without instructions a run ends only if it has accepted its input. -/
theorem runWithin_zero (hphase : c.phase ≠ .done) : c.runWithin 0 = none := by
  rw [runWithin, if_neg (not_isFinished hphase)]

/-- A run goes on behind an instruction that succeeds. -/
theorem runWithin_of_step (hphase : c.phase ≠ .done) (hstep : c.step = (.ok act, c')) :
    c.runWithin (fuel + 1) = c'.runWithin fuel := by
  rw [runWithin, if_neg (not_isFinished hphase), hstep]

/-- A run ends with an instruction that fails. -/
theorem runWithin_of_step_error {e : ParseError} (hphase : c.phase ≠ .done)
    (hstep : c.step = (.error e, c')) : c.runWithin (fuel + 1) = some (.error e, c') := by
  rw [runWithin, if_neg (not_isFinished hphase), hstep]

/-- The run from a context ends with an outcome. -/
inductive RunsTo : Context → Outcome Unit → Prop
  | done {c : Context} (hphase : c.phase = .done) : RunsTo c (.ok (), c)
  | failed {c c' : Context} {e : ParseError} (hphase : c.phase ≠ .done)
      (hstep : c.step = (.error e, c')) : RunsTo c (.error e, c')
  | step {c c' : Context} {act : Action} {outcome : Outcome Unit} (hphase : c.phase ≠ .done)
      (hstep : c.step = (.ok act, c')) (h : RunsTo c' outcome) : RunsTo c outcome

/-- If a number of instructions suffices, the run ends with the outcome. -/
theorem runsTo_of_runWithin (h : c.runWithin fuel = some outcome) : RunsTo c outcome := by
  induction fuel generalizing c with
  | zero =>
    rw [runWithin] at h
    split at h
    · rename_i hfinished
      obtain rfl := Option.some.inj h
      exact .done (isFinished_iff.1 hfinished)
    · exact absurd h (by simp)
  | succ fuel ih =>
    rw [runWithin] at h
    split at h
    · rename_i hfinished
      obtain rfl := Option.some.inj h
      exact .done (isFinished_iff.1 hfinished)
    · rename_i hfinished
      rw [isFinished_iff] at hfinished
      split at h
      · rename_i e c' hstep
        obtain rfl := Option.some.inj h
        exact .failed hfinished hstep
      · rename_i act c' hstep
        exact .step hfinished hstep (ih h)

/-- What every instruction keeps, so does every run. -/
theorem RunsTo.keeps {P : Context → Prop} (hstep : ∀ c, P c → P c.step.2)
    (hrun : RunsTo c outcome) (h : P c) : P outcome.2 := by
  induction hrun with
  | done => exact h
  | @failed c _ _ _ herror =>
    have hkept := hstep c h
    rwa [herror] at hkept
  | @step c _ _ _ _ hok _ ih =>
    have hkept := hstep c h
    rw [hok] at hkept
    exact ih hkept

/-- If the run ends, some number of instructions suffices. -/
theorem RunsTo.exists_runWithin (h : RunsTo c outcome) :
    ∃ fuel, c.runWithin fuel = some outcome := by
  induction h with
  | done hphase => exact ⟨0, runWithin_of_done hphase 0⟩
  | failed hphase hstep => exact ⟨1, runWithin_of_step_error hphase hstep⟩
  | step hphase hstep _ ih =>
    obtain ⟨fuel, hfuel⟩ := ih
    exact ⟨fuel + 1, (runWithin_of_step hphase hstep).trans hfuel⟩

/-- Runs end where some number of instructions suffices. -/
theorem exists_runWithin_iff : (∃ fuel, c.runWithin fuel = some outcome) ↔ RunsTo c outcome := by
  constructor
  · rintro ⟨fuel, h⟩
    exact runsTo_of_runWithin h
  · exact RunsTo.exists_runWithin

/-- A run ends with one outcome. -/
theorem RunsTo.unique (h : RunsTo c outcome) (h' : RunsTo c outcome') : outcome = outcome' := by
  induction h with
  | done hphase =>
    cases h' with
    | done => rfl
    | failed hphase' => exact absurd hphase hphase'
    | step hphase' => exact absurd hphase hphase'
  | failed hphase hstep =>
    cases h' with
    | done hphase' => exact absurd hphase' hphase
    | failed _ hstep' =>
      obtain ⟨he, rfl⟩ := Prod.mk.inj (hstep.symm.trans hstep')
      rw [Except.error.inj he]
    | step _ hstep' => simp [hstep] at hstep'
  | step hphase hstep _ ih =>
    cases h' with
    | done hphase' => exact absurd hphase' hphase
    | failed _ hstep' => simp [hstep] at hstep'
    | step _ hstep' h' =>
      obtain ⟨-, rfl⟩ := Prod.mk.inj (hstep.symm.trans hstep')
      exact ih h'

/-- A run has one outcome. -/
theorem runWithin_unique (h : c.runWithin fuel = some outcome)
    (h' : c.runWithin m = some outcome') : outcome = outcome' :=
  (runsTo_of_runWithin h).unique (runsTo_of_runWithin h')

/-- A run that ends without an error ends with the acceptance of the input. -/
theorem RunsTo.phase_eq (h : RunsTo c outcome) (hok : outcome.1 = .ok ()) :
    outcome.2.phase = .done := by
  induction h with
  | done hphase => exact hphase
  | failed => simp at hok
  | step _ _ _ ih => exact ih hok

end Context

end ShiftReduce
