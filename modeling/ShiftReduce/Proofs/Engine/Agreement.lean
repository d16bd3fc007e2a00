import Mathlib.Tactic.TFAE
import ShiftReduce.Proofs.Engine.Sessions

/-!
# All ways of driving a parse agree

A parse can be driven by phases, by instructions, by runs and by a session. A phase completes an
instruction exactly if it leads to a place between two instructions (`Advances.isIdle_eq`), and one
that does not complete it leaves the rest of the same instruction to be carried out
(`step_of_pending`). So calls that succeed lead along the one run of a context in whatever order
they are made (`Counted.stands`), and to repeat them until the input is accepted or a call fails has
the same outcome for all of them and leaves the same context.
-/

namespace ShiftReduce

/-- A table that reduces nothing to `S` and accepts it. -/
def Table.hollow : Table where
  name := none
  terminals := ["$"]
  nonterminals := ["S"]
  rules := [⟨[], "S"⟩]
  states := [⟨.ofList [("$", .reduce 1)], .ofList [("S", 1)]⟩, ⟨.ofList [("$", .accept)], ∅⟩]

/-- The greatest number of phases that the rest of an instruction takes. -/
def Phase.left : Phase → ℕ
  | awaiting => 3
  | matching _ => 2
  | resolving _ => 1
  | done => 1

/-- A phase is left wherever a context stands. -/
theorem Phase.left_pos (phase : Phase) : 0 < phase.left := by
  cases phase <;> simp [left]

/-- No instruction has more than three phases. -/
theorem Phase.left_le (phase : Phase) : phase.left ≤ 3 := by
  cases phase <;> simp [left]

namespace Context

variable {c c' c₀ : Context} {act : Action} {p : Progress} {e : ParseError} {n m k : ℕ}
  {outcome : Outcome Unit}

/-! ## The phases of an instruction -/

/-- A phase completes an instruction exactly if it leads to a place between two instructions. -/
theorem Advances.isIdle_eq (h : Advances c p c') : c'.isIdle = p.completed.isSome := by
  cases h with
  | accepted | reduceStarted | matched | reduced => rfl
  | shifted hphase _ _ hshift =>
    cases hshift
    exact isIdle_iff.2 (.inl hphase)

/-- A phase that does not complete its instruction leaves fewer phases. -/
theorem Advances.left_lt (h : Advances c p c') (hp : p.completed = none) :
    c'.phase.left < c.phase.left := by
  cases h with
  | accepted | shifted | reduced => exact absurd hp (by simp [Progress.completed])
  | reduceStarted hphase | matched hphase =>
    rw [hphase]
    exact Nat.lt_succ_self _

/-- Nothing succeeds once the input is accepted. -/
theorem Advances.phase_ne (h : Advances c p c') : c.phase ≠ .done := by
  cases h with
  | accepted hphase | shifted hphase | reduceStarted hphase | matched hphase | reduced hphase =>
    simp [hphase]

/-- So many phases carry out the rest of an instruction: all but the last one succeed without
completing it, and the last one completes it or fails. -/
inductive CarriesOut : Context → ℕ → Outcome Action → Prop
  | failed {c c' : Context} {e : ParseError} (htick : c.tick = (.error e, c')) :
      CarriesOut c 1 (.error e, c')
  | completed {c c' : Context} {p : Progress} {act : Action} (htick : c.tick = (.ok p, c'))
      (hp : p.completed = some act) : CarriesOut c 1 (.ok act, c')
  | pending {c c' : Context} {p : Progress} {n : ℕ} {outcome : Outcome Action}
      (htick : c.tick = (.ok p, c')) (hp : p.completed = none) (h : CarriesOut c' n outcome) :
      CarriesOut c (n + 1) outcome

/-- With as many phases as may be left the rest of an instruction is carried out. -/
theorem carriesOut_stepWithin (hn : c.phase.left ≤ n) :
    ∃ m ≤ c.phase.left, CarriesOut c m (c.stepWithin n) := by
  induction n generalizing c with
  | zero =>
    have := c.phase.left_pos
    omega
  | succ n ih =>
    rcases advances_or_halts c with ⟨p, c', hadv⟩ | ⟨e, c', hhalt⟩
    · cases hp : p.completed with
      | some act =>
        rw [stepWithin_of_completed hadv hp]
        exact ⟨1, c.phase.left_pos, .completed hadv.tick_eq hp⟩
      | none =>
        have hless := hadv.left_lt hp
        obtain ⟨m, hm, h⟩ := ih (c := c') (by omega)
        rw [stepWithin_of_pending hadv hp]
        exact ⟨m + 1, by omega, .pending hadv.tick_eq hp h⟩
    · rw [stepWithin_of_halts hhalt]
      exact ⟨1, c.phase.left_pos, .failed hhalt.tick_eq⟩

/-- Three phases carry out an instruction, or what is left of one. -/
theorem exists_carriesOut_step (c : Context) : ∃ m ≤ 3, CarriesOut c m c.step := by
  obtain ⟨m, hm, h⟩ := carriesOut_stepWithin c.phase.left_le
  exact ⟨m, Nat.le_trans hm c.phase.left_le, h⟩

/-- To allow for more phases than may be left makes no difference. -/
theorem stepWithin_eq_stepWithin (hn : c.phase.left ≤ n) (hm : c.phase.left ≤ m) :
    c.stepWithin n = c.stepWithin m := by
  have hpos := c.phase.left_pos
  induction n generalizing c m with
  | zero => omega
  | succ n ih =>
    obtain ⟨m, rfl⟩ := Nat.exists_eq_add_of_lt (Nat.lt_of_lt_of_le hpos hm)
    rw [Nat.zero_add] at hm ⊢
    rcases advances_or_halts c with ⟨p, c', hadv⟩ | ⟨e, c', hhalt⟩
    · cases hp : p.completed with
      | some act => rw [stepWithin_of_completed hadv hp, stepWithin_of_completed hadv hp]
      | none =>
        have hless := hadv.left_lt hp
        rw [stepWithin_of_pending hadv hp, stepWithin_of_pending hadv hp]
        exact ih (by omega) (by omega) c'.phase.left_pos
    · rw [stepWithin_of_halts hhalt, stepWithin_of_halts hhalt]

/-- A phase that does not complete its instruction leaves the rest of it. -/
theorem step_of_pending (h : Advances c p c') (hp : p.completed = none) : c.step = c'.step := by
  have hless := h.left_lt hp
  have hle := c.phase.left_le
  rw [step, stepWithin_of_pending h hp]
  exact stepWithin_eq_stepWithin (by omega) c'.phase.left_le

/-! ## Calls that succeed -/

/-- The contexts that phases and instructions which succeed lead to, in whatever order they are
called, with the number of instructions that they completed. -/
inductive Counted (c₀ : Context) : ℕ → Context → Prop
  | fresh : Counted c₀ 0 c₀
  | tick {k : ℕ} {c c' : Context} {p : Progress} (h : Counted c₀ k c)
      (htick : c.tick = (.ok p, c')) : Counted c₀ (k + p.completed.isSome.toNat) c'
  | step {k : ℕ} {c c' : Context} {act : Action} (h : Counted c₀ k c)
      (hstep : c.step = (.ok act, c')) : Counted c₀ (k + 1) c'

/-- The context is what the instructions led to, or stands within the one that comes next. -/
structure Stands (d c : Context) : Prop where
  eq_of_isIdle : c.isIdle = true → c = d
  step_eq : c.step = d.step

/-- A context stands where it is. -/
theorem stands_self (c : Context) : Stands c c := ⟨fun _ => rfl, rfl⟩

/-- What completes an instruction leads to the next place between two instructions. -/
theorem Stands.afterSteps_succ (h : Stands (c₀.afterSteps k) c) (hstep : c.step = (.ok act, c')) :
    c₀.afterSteps (k + 1) = c' ∧ (c₀.afterSteps k).step.1 = .ok act := by
  rw [Context.afterSteps_succ, ← h.step_eq, hstep]
  exact ⟨rfl, rfl⟩

/-- A phase that succeeds leads on within an instruction or to its end. -/
theorem Stands.tick (h : Stands (c₀.afterSteps k) c) (hadv : Advances c p c') :
    Stands (c₀.afterSteps (k + p.completed.isSome.toNat)) c' ∧
      ∀ act, p.completed = some act → (c₀.afterSteps k).step.1 = .ok act := by
  cases hp : p.completed with
  | none =>
    refine ⟨⟨fun hidle => ?_, ?_⟩, by simp⟩
    · rw [hadv.isIdle_eq, hp] at hidle
      exact absurd hidle (by simp)
    · rw [← step_of_pending hadv hp]
      exact h.step_eq
  | some act =>
    have hstep : c.step = (.ok act, c') := stepWithin_of_completed hadv hp
    obtain ⟨hafter, hok⟩ := h.afterSteps_succ hstep
    refine ⟨?_, fun act' hact => ?_⟩
    · show Stands (c₀.afterSteps (k + 1)) c'
      rw [hafter]
      exact stands_self c'
    · rw [← Option.some.inj hact]
      exact hok

/-- Calls that succeed lead along the run, each instruction of which succeeds. -/
theorem Counted.stands (h : Counted c₀ k c) :
    Stands (c₀.afterSteps k) c ∧ ∀ i < k, ∃ act, (c₀.afterSteps i).step.1 = .ok act := by
  induction h with
  | fresh => exact ⟨stands_self c₀, fun i hi => absurd hi (Nat.not_lt_zero i)⟩
  | @tick k c c' p _ htick ih =>
    obtain ⟨hstands, hok⟩ := ih.1.tick (tick_eq_ok_iff.1 htick)
    refine ⟨hstands, fun i hi => ?_⟩
    cases hp : p.completed with
    | none =>
      rw [hp] at hi
      exact ih.2 i hi
    | some act =>
      rw [hp] at hi
      rcases Nat.lt_succ_iff_lt_or_eq.1 hi with hi | rfl
      · exact ih.2 i hi
      · exact ⟨act, hok act hp⟩
  | @step k c c' act _ hstep ih =>
    obtain ⟨hafter, hok⟩ := ih.1.afterSteps_succ hstep
    refine ⟨hafter ▸ stands_self c', fun i hi => ?_⟩
    rcases Nat.lt_succ_iff_lt_or_eq.1 hi with hi | rfl
    · exact ih.2 i hi
    · exact ⟨act, hok⟩

/-! ## Calls that are repeated -/

/-- A call is repeated until it fails or the input is accepted. -/
inductive Repeats {α : Type} (call : Context → Outcome α) : Context → Outcome Unit → Prop
  | done {c : Context} (hphase : c.phase = .done) : Repeats call c (.ok (), c)
  | failed {c c' : Context} {e : ParseError} (hphase : c.phase ≠ .done)
      (hcall : call c = (.error e, c')) : Repeats call c (.error e, c')
  | next {c c' : Context} {a : α} {outcome : Outcome Unit} (hphase : c.phase ≠ .done)
      (hcall : call c = (.ok a, c')) (h : Repeats call c' outcome) : Repeats call c outcome

/-- A run repeats instructions. -/
theorem repeats_step_iff : Repeats step c outcome ↔ RunsTo c outcome := by
  constructor
  · intro h
    induction h with
    | done hphase => exact .done hphase
    | failed hphase hcall => exact .failed hphase hcall
    | next hphase hcall _ ih => exact .step hphase hcall ih
  · intro h
    induction h with
    | done hphase => exact .done hphase
    | failed hphase hstep => exact .failed hphase hstep
    | step hphase hstep _ ih => exact .next hphase hstep ih

/-- A run from within an instruction is the run from where the instruction was begun. -/
theorem RunsTo.of_pending (hadv : Advances c p c') (hp : p.completed = none)
    (h : RunsTo c' outcome) : RunsTo c outcome := by
  have hstep := step_of_pending hadv hp
  cases h with
  | done hphase =>
    have hidle := isIdle_iff.2 (.inr hphase)
    rw [hadv.isIdle_eq, hp] at hidle
    exact absurd hidle (by simp)
  | failed _ hstep' => exact .failed hadv.phase_ne (hstep.trans hstep')
  | step _ hstep' h => exact .step hadv.phase_ne (hstep.trans hstep') h

/-- The phases of an instruction that fails are the last ones. -/
theorem CarriesOut.repeats_of_error (hphase : c.phase ≠ .done)
    (h : CarriesOut c n (.error e, c')) : Repeats tick c (.error e, c') := by
  generalize houtcome : (Except.error e, c') = outcome at h
  induction h with
  | failed htick =>
    obtain ⟨he, rfl⟩ := Prod.mk.inj houtcome
    obtain rfl := Except.error.inj he
    exact .failed hphase htick
  | completed => exact absurd houtcome (by simp)
  | pending htick hp _ ih =>
    refine .next hphase htick (ih (fun hdone => ?_) houtcome)
    have hidle := isIdle_iff.2 (.inr hdone)
    rw [(tick_eq_ok_iff.1 htick).isIdle_eq, hp] at hidle
    exact absurd hidle (by simp)

/-- The phases of an instruction that succeeds go before those of the next one. -/
theorem CarriesOut.repeats_of_ok (h : CarriesOut c n (.ok act, c'))
    (hrest : Repeats tick c' outcome) : Repeats tick c outcome := by
  generalize houtcome : (Except.ok act, c') = carried at h
  induction h with
  | failed => exact absurd houtcome (by simp)
  | completed htick =>
    obtain ⟨-, rfl⟩ := Prod.mk.inj houtcome
    exact .next (tick_eq_ok_iff.1 htick).phase_ne htick hrest
  | pending htick _ _ ih => exact .next (tick_eq_ok_iff.1 htick).phase_ne htick (ih houtcome)

/-- To repeat phases is to repeat instructions. -/
theorem repeats_tick_iff : Repeats tick c outcome ↔ RunsTo c outcome := by
  constructor
  · intro h
    induction h with
    | done hphase => exact .done hphase
    | failed hphase hcall =>
      exact .failed hphase (stepWithin_of_halts (tick_eq_error_iff.1 hcall))
    | @next c c' p outcome hphase hcall _ ih =>
      have hadv := tick_eq_ok_iff.1 hcall
      cases hp : p.completed with
      | none => exact ih.of_pending hadv hp
      | some act => exact .step hphase (stepWithin_of_completed hadv hp) ih
  · intro h
    induction h with
    | done hphase => exact .done hphase
    | @failed c c' e hphase hstep =>
      obtain ⟨m, -, hcarries⟩ := exists_carriesOut_step c
      rw [hstep] at hcarries
      exact hcarries.repeats_of_error hphase
    | @step c c' act outcome _ hstep _ ih =>
      obtain ⟨m, -, hcarries⟩ := exists_carriesOut_step c
      rw [hstep] at hcarries
      exact hcarries.repeats_of_ok ih

/-- On any table, phases and instructions that succeed lead to what as many instructions lead to as
they completed; runs, repeated instructions, repeated phases and sessions end with the same outcome
and the same context, or none of them ends; and three phases carry out an instruction. -/
theorem drives_agree (table : Table) (tokens : List String) :
    (∀ k c, Counted (.new table tokens) k c → c.isIdle = true →
      c = (Context.new table tokens).afterSteps k ∧
        ∀ i < k, ∃ act, ((Context.new table tokens).afterSteps i).step.1 = .ok act) ∧
    (∀ outcome : Outcome Unit, [
      ∃ fuel, (Context.new table tokens).runWithin fuel = some outcome,
      Repeats step (.new table tokens) outcome,
      Repeats tick (.new table tokens) outcome,
      ∃ fuel result s, ((Session.new table).start tokens).runWithin fuel = some (result, s) ∧
        s.context = some outcome.2 ∧ result.map (fun _ => ()) = outcome.1].TFAE) ∧
    ∀ c : Context, ∃ m ≤ 3, CarriesOut c m c.step := by
  refine ⟨fun k c h hidle => ?_, fun outcome => ?_, exists_carriesOut_step⟩
  · exact ⟨h.stands.1.eq_of_isIdle hidle, h.stands.2⟩
  · tfae_have 1 ↔ 2 := exists_runWithin_iff.trans repeats_step_iff.symm
    tfae_have 2 ↔ 3 := repeats_step_iff.trans repeats_tick_iff.symm
    tfae_have 1 → 4 := by
      rintro ⟨fuel, hrun⟩
      exact Session.exists_runWithin_of_runsTo rfl rfl (runsTo_of_runWithin hrun)
    tfae_have 4 → 1 := by
      rintro ⟨fuel, result, s, hrun, hcontext, hresult⟩
      obtain ⟨c, hcontext', hruns⟩ := Session.runsTo_of_session rfl rfl hrun
      obtain rfl := Option.some.inj (hcontext.symm.trans hcontext')
      rw [hresult] at hruns
      exact hruns.exists_runWithin
    tfae_finish

/-- A reduction that a phase begins and an instruction completes, and the whole parse by
instructions, by phases and by a session. -/
theorem drives_agree_hollow : ∃ c c' : Context,
    Counted (.new .hollow ["$"]) 1 c ∧ c.isIdle = true ∧
    c = (Context.new .hollow ["$"]).afterSteps 1 ∧
    (Context.new .hollow ["$"]).runWithin 2 = some (.ok (), c') ∧
    Repeats tick (.new .hollow ["$"]) (.ok (), c') ∧
    ∃ fuel result s, ((Session.new .hollow).start ["$"]).runWithin fuel = some (result, s) ∧
      s.context = some c' := by
  obtain ⟨hcounted, hloops, -⟩ := drives_agree .hollow ["$"]
  set c : Context :=
    ⟨.hollow, [⟨"$", true⟩], [⟨.marker "S", 1⟩], [.node "S" []], .awaiting, ⟨0, 1⟩⟩ with hc
  set c' : Context := ⟨.hollow, [], [⟨.marker "S", 1⟩], [.node "S" []], .done, ⟨0, 1⟩⟩ with hc'
  have htick : (Context.new .hollow ["$"]).tick = (.ok (.reduceStarted 1),
      ⟨.hollow, [⟨"$", true⟩], [], [], .matching 1, ⟨0, 0⟩⟩) := rfl
  have hmixed : Counted (.new .hollow ["$"]) 1 c := (Counted.fresh.tick htick).step rfl
  have hrun : (Context.new .hollow ["$"]).runWithin 2 = some (.ok (), c') := rfl
  have hstops : ∃ fuel, (Context.new .hollow ["$"]).runWithin fuel = some (.ok (), c') := ⟨2, hrun⟩
  have hticks : Repeats tick (.new .hollow ["$"]) (.ok (), c') := ((hloops _).out 0 2).1 hstops
  obtain ⟨fuel, result, s, hsession, hcontext, -⟩ := ((hloops _).out 0 3).1 hstops
  exact ⟨c, c', hmixed, rfl, (hcounted 1 c hmixed rfl).1, hrun, hticks, fuel, result, s, hsession,
    hcontext⟩

end Context

end ShiftReduce
