import Mathlib.Logic.Function.Iterate
import ShiftReduce.Engine.Session
import ShiftReduce.Proofs.Engine.Execution
import ShiftReduce.Proofs.Engine.Runs

/-!
# A session is a cursor over one run

A context determines its next instruction, so a parse is one sequence of contexts, `afterSteps`. The
history of a session is the beginning of that sequence and its context is the one that comes next:
`Trail` builds the two together, `forward` makes them longer and `back` shorter. What has failed is
undone as well, since the snapshot is taken before the instruction is carried out.
-/

namespace ShiftReduce

/-- A table that accepts one token. -/
def Table.lone : Table where
  name := none
  terminals := ["x", "$"]
  nonterminals := []
  rules := []
  states := [⟨.ofList [("x", .shift 1)], ∅⟩, ⟨.ofList [("$", .accept)], ∅⟩]

namespace Context

variable {c c' c₀ : Context} {act : Action} {snapshot : Snapshot} {history : History}

/-! ## Between two instructions -/

/-- A context is idle between two instructions and after acceptance. -/
theorem isIdle_iff : c.isIdle = true ↔ c.phase = .awaiting ∨ c.phase = .done := by
  rw [isIdle, Bool.or_eq_true, beq_iff_eq, beq_iff_eq]

/-- A snapshot can be taken of an idle context. -/
theorem exists_snapshot (hidle : c.isIdle = true) : ∃ snapshot, c.snapshot = .ok snapshot := by
  rw [Context.snapshot, if_pos hidle]
  exact ⟨_, rfl⟩

/-- Snapshots are taken of idle contexts only. -/
theorem isIdle_of_snapshot (h : c.snapshot = .ok snapshot) : c.isIdle = true := by
  rw [Context.snapshot] at h
  split at h
  · assumption
  · exact absurd h (by simp)

/-- Nothing can be carried out once the input is accepted. -/
theorem awaiting_of_step (hidle : c.isIdle = true) (hstep : c.step = (.ok act, c')) :
    c.phase = .awaiting := by
  rcases isIdle_iff.1 hidle with hphase | hphase
  · exact hphase
  · have hfinished : c.step = (.error .finished, c) := stepWithin_of_halts (.finished hphase)
    exact absurd (hstep.symm.trans hfinished) (by simp)

/-- An instruction leads to a place between two instructions. -/
theorem Executes.isIdle (hphase : c.phase = .awaiting) (h : Executes c act c') :
    c'.isIdle = true := by
  cases h with
  | accept => rfl
  | shift _ _ hshift =>
    cases hshift
    exact isIdle_iff.2 (.inl hphase)
  | reduce => rfl

/-- An instruction is counted, or it is the last one. -/
theorem Executes.count (hphase : c.phase = .awaiting) (h : Executes c act c') :
    c'.stats.shifts + c'.stats.reductions + c'.isFinished.toNat =
      c.stats.shifts + c.stats.reductions + 1 := by
  cases h with
  | accept => rfl
  | shift _ _ hshift =>
    cases hshift
    have hfinished : c.isFinished = false := by rw [isFinished, hphase]; rfl
    show c.stats.shifts + 1 + c.stats.reductions + c.isFinished.toNat = _
    rw [hfinished, Bool.toNat_false]
    omega
  | reduce => rfl

/-! ## The run -/

/-- The context after so many instructions. -/
def afterSteps (c : Context) (d : ℕ) : Context := (fun c => c.step.2)^[d] c

/-- One more instruction is carried out behind the others. -/
theorem afterSteps_succ (c : Context) (d : ℕ) : c.afterSteps (d + 1) = (c.afterSteps d).step.2 :=
  Function.iterate_succ_apply' _ _ _

/-- The contexts that instructions lead to from a context, with the snapshots that were taken before
each of them, latest first. -/
inductive Trail (c₀ : Context) : History → Context → Prop
  | start : Trail c₀ [] c₀
  | step {c c' : Context} {act : Action} {snapshot : Snapshot} {history : History}
      (h : Trail c₀ history c) (hsnapshot : c.snapshot = .ok snapshot)
      (hstep : c.step = (.ok act, c')) : Trail c₀ (snapshot :: history) c'

/-- Instructions that succeed lead from an idle context to an idle one. -/
theorem Trail.isIdle (h : Trail c₀ history c) (h₀ : c₀.isIdle = true) : c.isIdle = true := by
  cases h with
  | start => exact h₀
  | step _ hsnapshot hstep =>
    have hphase := awaiting_of_step (isIdle_of_snapshot hsnapshot) hstep
    exact (executes_of_step hphase hstep).isIdle hphase

/-- The length of the history is the place in the run. -/
theorem Trail.eq_afterSteps (h : Trail c₀ history c) : c = c₀.afterSteps history.length := by
  induction h with
  | start => rfl
  | step _ _ hstep ih => rw [List.length_cons, afterSteps_succ, ← ih, hstep]

/-- The history lists the run from its beginning. -/
theorem Trail.history_eq (h : Trail c₀ history c) :
    history.reverse.map .ok =
      (List.range history.length).map fun i => (c₀.afterSteps i).snapshot := by
  induction h with
  | start => rfl
  | step h hsnapshot _ ih =>
    rw [List.reverse_cons, List.map_append, ih, List.length_cons, List.range_succ,
      List.map_append, List.map_singleton, List.map_singleton, ← h.eq_afterSteps, hsnapshot]

/-- Everything up to the place in the run has succeeded. -/
theorem Trail.exists_act (h : Trail c₀ history c) :
    ∀ i < history.length, ∃ act, (c₀.afterSteps i).step.1 = .ok act := by
  induction h with
  | start => exact fun i hi => absurd hi (Nat.not_lt_zero i)
  | @step c _ act _ history h _ hstep ih =>
    intro i hi
    rw [List.length_cons] at hi
    by_cases hlast : i = history.length
    · rw [hlast, ← h.eq_afterSteps, hstep]
      exact ⟨act, rfl⟩
    · exact ih i (by omega)

/-- The instructions of a trail have all been counted, except for acceptance. -/
theorem Trail.count {table : Table} {tokens : List String}
    (h : Trail (.new table tokens) history c) :
    c.stats.shifts + c.stats.reductions + c.isFinished.toNat = history.length := by
  induction h with
  | start => rfl
  | step _ hsnapshot hstep ih =>
    have hphase := awaiting_of_step (isIdle_of_snapshot hsnapshot) hstep
    have hcount := (executes_of_step hphase hstep).count hphase
    rw [isFinished, hphase] at ih
    rw [List.length_cons, hcount, ← ih]
    rfl

end Context

namespace Session

open Context

variable {s s₀ s' : Session} {c c₀ : Context}

/-- A session has finished when its context has. -/
theorem isFinished_eq (hs : s.context = some c) : s.isFinished = c.isFinished := by
  rw [isFinished, hs]
  rfl

/-- A session carries out the instruction of its context. -/
theorem forward_eq (hs : s.context = some c) (hphase : c.phase = .awaiting) :
    ∃ snapshot, c.snapshot = .ok snapshot ∧ s.forward = (c.step.1,
      { s with context := some c.step.2, history := snapshot :: s.history }) := by
  have hfinished : ¬ c.isFinished = true := not_isFinished (by simp [hphase])
  have hidle : c.isIdle = true := isIdle_iff.2 (.inl hphase)
  obtain ⟨snapshot, hsnapshot⟩ := exists_snapshot hidle
  refine ⟨snapshot, hsnapshot, ?_⟩
  rw [forward, hs]
  simp only [if_neg hfinished, hsnapshot]

/-- Where the run of its context ends, a session ends in the same way and with the same context. -/
theorem exists_runWithin_of_runsTo {outcome : Outcome Unit} (hs : s.context = some c)
    (hidle : c.isIdle = true) (hrun : RunsTo c outcome) :
    ∃ n result s', s.runWithin n = some (result, s') ∧ s'.context = some outcome.2 ∧
      result.map (fun _ => ()) = outcome.1 := by
  -- between two instructions a session does what its context does
  induction hrun generalizing s with
  | @done c hdone =>
    have hfinished := (isFinished_eq hs).trans (isFinished_iff.2 hdone)
    exact ⟨0, .ok 0, s, by rw [runWithin, if_pos hfinished], hs, rfl⟩
  | @failed c c' e hne hstep =>
    have hfinished := not_isFinished hne
    rw [← isFinished_eq hs] at hfinished
    obtain ⟨snapshot, -, hforward⟩ := forward_eq hs ((isIdle_iff.1 hidle).resolve_right hne)
    rw [hstep] at hforward
    exact ⟨1, .error e, _, by rw [runWithin, if_neg hfinished, hforward], rfl, rfl⟩
  | @step c c' act outcome hne hstep _ ih =>
    have hfinished := not_isFinished hne
    rw [← isFinished_eq hs] at hfinished
    have hphase := (isIdle_iff.1 hidle).resolve_right hne
    obtain ⟨snapshot, -, hforward⟩ := forward_eq hs hphase
    rw [hstep] at hforward
    have hidle' : c'.isIdle = true := (executes_of_step hphase hstep).isIdle hphase
    set s₁ : Session := { s with context := some c', history := snapshot :: s.history } with hs₁
    obtain ⟨n, result, s', hresult, hcontext, hmap⟩ := ih (s := s₁) rfl hidle'
    refine ⟨n + 1, result.map (· + 1), s', ?_, hcontext, ?_⟩
    · rw [runWithin, if_neg hfinished, hforward]
      dsimp only
      rw [hresult]
      rfl
    · -- the count does not matter to how the session ends
      rw [← hmap]
      cases result <;> rfl

/-- Where a session ends the run of its context ends, in the same way and with the same context. -/
theorem runsTo_of_session {fuel : ℕ} {result : Except ParseError ℕ} (hs : s.context = some c)
    (hidle : c.isIdle = true) (hrun : s.runWithin fuel = some (result, s')) :
    ∃ c', s'.context = some c' ∧ RunsTo c (result.map (fun _ => ()), c') := by
  induction fuel generalizing s c result with
  | zero =>
    rw [runWithin] at hrun
    split at hrun
    · rename_i hfinished
      obtain ⟨rfl, rfl⟩ := Prod.mk.inj (Option.some.inj hrun)
      rw [isFinished_eq hs, isFinished_iff] at hfinished
      exact ⟨c, hs, .done hfinished⟩
    · exact absurd hrun (by simp)
  | succ fuel ih =>
    rw [runWithin] at hrun
    split at hrun
    · rename_i hfinished
      obtain ⟨rfl, rfl⟩ := Prod.mk.inj (Option.some.inj hrun)
      rw [isFinished_eq hs, isFinished_iff] at hfinished
      exact ⟨c, hs, .done hfinished⟩
    · rename_i hfinished
      rw [isFinished_eq hs, isFinished_iff] at hfinished
      have hphase := (isIdle_iff.1 hidle).resolve_right hfinished
      obtain ⟨snapshot, -, hforward⟩ := forward_eq hs hphase
      rcases hstep : c.step with ⟨e | act, c'⟩ <;> rw [hstep] at hforward <;>
        rw [hforward] at hrun
      · obtain ⟨rfl, rfl⟩ := Prod.mk.inj (Option.some.inj hrun)
        exact ⟨c', rfl, .failed hfinished hstep⟩
      · obtain ⟨⟨rest, s₂⟩, hrest, heq⟩ := Option.map_eq_some_iff.1 hrun
        obtain ⟨rfl, rfl⟩ := Prod.mk.inj heq
        have hidle' : c'.isIdle = true := (executes_of_step hphase hstep).isIdle hphase
        obtain ⟨c₂, hcontext, hruns⟩ := ih rfl hidle' hrest
        refine ⟨c₂, hcontext, .step hfinished hstep ?_⟩
        cases rest <;> exact hruns

/-- A session ends where the run of its context ends. -/
theorem exists_runWithin {outcome : Outcome Unit} (hs : s.context = some c)
    (hidle : c.isIdle = true) (hrun : RunsTo c outcome) :
    ∃ n result, s.runWithin n = some result := by
  obtain ⟨n, result, s', h, -⟩ := exists_runWithin_of_runsTo hs hidle hrun
  exact ⟨n, (result, s'), h⟩

/-- Going back restores the context that the latest snapshot was taken of. -/
theorem back_eq {snapshot : Snapshot} {older : History} (hs : s.context = some c)
    (hhistory : s.history = snapshot :: older) (hsnapshot : c₀.snapshot = .ok snapshot) :
    s.back = (.ok true, { s with context := some c₀, history := older }) := by
  rw [back, hs, hhistory]
  simp only [Snapshot.restore_of_snapshot hsnapshot]

/-- An instruction can be undone, whether it succeeds or not. -/
theorem back_forward (hs : s.context = some c) (hphase : c.phase = .awaiting) :
    s.forward.2.back = (.ok true, s) := by
  obtain ⟨snapshot, hsnapshot, hforward⟩ := forward_eq hs hphase
  rw [hforward, back_eq rfl rfl hsnapshot, ← hs]

/-- The sessions that instructions which succeed lead to, and going back. -/
inductive Walked (s₀ : Session) : Session → Prop
  | start : Walked s₀ s₀
  | forward {s s' : Session} {act : Action} (h : Walked s₀ s)
      (hforward : s.forward = (.ok act, s')) : Walked s₀ s'
  | back {s : Session} (h : Walked s₀ s) : Walked s₀ s.back.2

/-- The session has a context and the history that leads to it. -/
def Trails (c₀ : Context) (s : Session) : Prop := ∃ c, s.context = some c ∧ Trail c₀ s.history c

/-- A new run has no history. -/
theorem trails_start (s : Session) (tokens : List String) :
    Trails (.new s.table tokens) (s.start tokens) :=
  ⟨_, rfl, .start⟩

/-- An instruction that succeeds makes the history longer. -/
theorem Trails.forward {act : Action} (h : Trails c₀ s) (h₀ : c₀.isIdle = true)
    (hforward : s.forward = (.ok act, s')) :
    Trails c₀ s' ∧ s'.history.length = s.history.length + 1 := by
  obtain ⟨c, hs, htrail⟩ := h
  rcases isIdle_iff.1 (htrail.isIdle h₀) with hphase | hphase
  · obtain ⟨snapshot, hsnapshot, heq⟩ := forward_eq hs hphase
    obtain ⟨hact, rfl⟩ := Prod.mk.inj (hforward.symm.trans heq)
    have hstep : c.step = (.ok act, c.step.2) := by rw [hact]
    exact ⟨⟨_, rfl, htrail.step hsnapshot hstep⟩, rfl⟩
  · have hfinished : s.forward = (.error .finished, s) := by
      rw [Session.forward, hs]
      simp only [if_pos (isFinished_iff.2 hphase)]
    exact absurd (hforward.symm.trans hfinished) (by simp)

/-- Going back leads to an earlier place of the run, or nowhere. -/
theorem Trails.back (h : Trails c₀ s) : Trails c₀ s.back.2 := by
  obtain ⟨c, hs, htrail⟩ := h
  generalize hhistory : s.history = history at htrail
  cases htrail with
  | start =>
    have hback : s.back = (.ok false, s) := by rw [Session.back, hs, hhistory]
    rw [hback]
    exact ⟨c₀, hs, by rw [hhistory]; exact .start⟩
  | @step c' _ _ snapshot older htrail hsnapshot _ =>
    rw [back_eq hs hhistory hsnapshot]
    exact ⟨c', rfl, htrail⟩

/-- However a session goes forward and back, its history leads to its context. -/
theorem Walked.trails (h : Walked s₀ s) (h₀ : Trails c₀ s₀) (hidle : c₀.isIdle = true) :
    Trails c₀ s := by
  induction h with
  | start => exact h₀
  | forward _ hforward ih => exact (ih.forward hidle hforward).1
  | back _ ih => exact ih.back

/-- A run that ends without an error makes the history longer by its instructions. -/
theorem Trails.runWithin {fuel n : ℕ} (h : Trails c₀ s) (h₀ : c₀.isIdle = true)
    (hrun : s.runWithin fuel = some (.ok n, s')) :
    Trails c₀ s' ∧ s'.isFinished = true ∧ s'.history.length = s.history.length + n := by
  induction fuel generalizing s n with
  | zero =>
    rw [Session.runWithin] at hrun
    split at hrun
    · rename_i hfinished
      obtain ⟨hn, rfl⟩ := Prod.mk.inj (Option.some.inj hrun)
      obtain rfl := Except.ok.inj hn
      exact ⟨h, hfinished, rfl⟩
    · exact absurd hrun (by simp)
  | succ fuel ih =>
    rw [Session.runWithin] at hrun
    split at hrun
    · rename_i hfinished
      obtain ⟨hn, rfl⟩ := Prod.mk.inj (Option.some.inj hrun)
      obtain rfl := Except.ok.inj hn
      exact ⟨h, hfinished, rfl⟩
    · split at hrun
      · exact absurd hrun (by simp)
      · rename_i act s₁ hforward
        obtain ⟨h₁, hlength⟩ := h.forward h₀ hforward
        -- the rest of the run counts one instruction less
        obtain ⟨⟨count, s₂⟩, hrest, heq⟩ := Option.map_eq_some_iff.1 hrun
        obtain ⟨hcount, rfl⟩ := Prod.mk.inj heq
        cases count with
        | error e => exact absurd hcount (by simp [Except.map])
        | ok m =>
          obtain rfl : m + 1 = n := Except.ok.inj hcount
          obtain ⟨h₂, hfinished, hlength'⟩ := ih h₁ hrest
          exact ⟨h₂, hfinished, by omega⟩

/-- The session stands on the run from a context: its history is the run up to some place, and its
context is what the run leads to there. -/
structure OnRun (c₀ : Context) (s : Session) : Prop where
  context_eq : ∃ c snapshot, s.context = some c ∧ c.snapshot = .ok snapshot ∧
    (c₀.afterSteps s.history.length).snapshot = .ok snapshot
  succeeded : ∀ i < s.history.length, ∃ act, (c₀.afterSteps i).step.1 = .ok act
  history_eq : s.history.reverse.map .ok =
    (List.range s.history.length).map fun i => (c₀.afterSteps i).snapshot

/-- A session with such a history stands on the run from its first context. -/
theorem Trails.onRun (h : Trails c₀ s) (h₀ : c₀.isIdle = true) : OnRun c₀ s := by
  obtain ⟨c, hs, htrail⟩ := h
  obtain ⟨snapshot, hsnapshot⟩ := exists_snapshot (htrail.isIdle h₀)
  refine ⟨⟨c, snapshot, hs, hsnapshot, ?_⟩, htrail.exists_act, htrail.history_eq⟩
  rw [← htrail.eq_afterSteps, hsnapshot]

/-- Going forward and back moves a session along the run of its tokens, an instruction that fails is
undone like one that succeeds, and a run to the end remembers each of its instructions. -/
theorem start_cursor (s : Session) (tokens : List String) :
    (∀ s', Walked (s.start tokens) s' → OnRun (.new s.table tokens) s') ∧
    (∀ (s' : Session) c, s'.context = some c → c.isIdle = true → c.isFinished = false →
      s'.forward.2.back = (.ok true, s')) ∧
    ∀ fuel n s', (s.start tokens).runWithin fuel = some (.ok n, s') →
      s'.history.length = n ∧
        ∃ c, s'.context = some c ∧ n = c.stats.shifts + c.stats.reductions + 1 := by
  refine ⟨?_, ?_, ?_⟩
  · intro s' h
    exact (h.trails (trails_start s tokens) rfl).onRun rfl
  · intro s' c hs hidle hfinished
    rcases isIdle_iff.1 hidle with hphase | hphase
    · exact back_forward hs hphase
    · rw [isFinished_iff.2 hphase] at hfinished
      exact absurd hfinished (by simp)
  · intro fuel n s' hrun
    obtain ⟨⟨c, hs, htrail⟩, hfinished, hlength⟩ :=
      (trails_start s tokens).runWithin rfl hrun
    have hcount := htrail.count
    rw [isFinished_eq hs] at hfinished
    rw [hfinished, Bool.toNat_true] at hcount
    have hstart : (s.start tokens).history.length = 0 := rfl
    exact ⟨by omega, c, hs, by omega⟩

/-- One token, forward and back and to the end. -/
theorem start_cursor_lone : ∃ s₁ s₂, ((new .lone).start ["x", "$"]).forward = (.ok (.shift 1), s₁) ∧
    OnRun (.new .lone ["x", "$"]) s₁ ∧ s₁.forward.2.back = (.ok true, s₁) ∧
    ((new .lone).start ["x", "$"]).runWithin 2 = some (.ok 2, s₂) ∧ s₂.history.length = 2 := by
  obtain ⟨hwalked, hback, hrun⟩ := start_cursor (new .lone) ["x", "$"]
  refine ⟨_, _, rfl, hwalked _ (.forward .start rfl), hback _ _ rfl rfl rfl, rfl, ?_⟩
  exact (hrun 2 2 _ rfl).1

end Session

end ShiftReduce
