import ShiftReduce.Proofs.Engine.Agreement
import ShiftReduce.Proofs.Engine.Lookahead

/-!
# Failures are contained

A phase that fails stops the instruction in one of three places, and each has its own way out. The
first phase has changed nothing but the mark on the lookahead. The second one has popped nothing yet
and puts the phase back. The third one comes when the right-hand side is popped already, and the
context stays within the reduction.

`Within` lists where a context can stand since the last boundary between two instructions. Phases
that succeed go on in that list or lead to the next boundary (`Within.advances`), and those that
fail lead back to the boundary or leave the context stuck (`Within.halts`): then every call fails
and changes nothing, until a snapshot is restored. Along all calls this is `failure_contained`, and
snapshots are taken only where whole instructions lead to.
-/

namespace ShiftReduce

namespace Context

variable {b c c' c₀ : Context} {act : Action} {p : Progress} {e : ParseError} {n k : ℕ}

/-! ## The last boundary -/

/-- The last boundary between two instructions once a call is over, if it was `b` before. -/
def boundaryAfter {α : Type} (completes : α → Bool) (b : Context) : Outcome α → Context
  | (.ok a, c) => if completes a then c else b
  | (.error _, _) => b

/-- The last boundary once a run is over, if it was the first context before. Each instruction of
the run leads to another one. -/
def runBoundary : ℕ → Context → Context → Context
  | 0, b, _ => b
  | fuel + 1, b, c =>
    if c.isFinished then b
    else
      match c.step with
      | (.error _, _) => b
      | (.ok _, c') => runBoundary fuel c' c'

/-- An instruction that succeeds makes the context behind it the next boundary. -/
theorem runBoundary_of_step (hphase : c.phase ≠ .done) (hstep : c.step = (.ok act, c')) :
    runBoundary (n + 1) b c = runBoundary n c' c' := by
  rw [runBoundary, if_neg (not_isFinished hphase), hstep]

/-- An instruction that fails leaves the boundary where it is. -/
theorem runBoundary_of_step_error (hphase : c.phase ≠ .done) (hstep : c.step = (.error e, c')) :
    runBoundary (n + 1) b c = b := by
  rw [runBoundary, if_neg (not_isFinished hphase), hstep]

/-- The contexts that calls lead to, failed calls included, each behind the boundary that it passed
last. Restoring a snapshot leaves nothing of the context that it takes the place of. -/
inductive Since : Context → Context → Prop
  | new (table : Table) (tokens : List String) : Since (.new table tokens) (.new table tokens)
  | tick {b c : Context} (h : Since b c) :
      Since (boundaryAfter (·.completed.isSome) b c.tick) c.tick.2
  | step {b c : Context} (h : Since b c) : Since (boundaryAfter (fun _ => true) b c.step) c.step.2
  | run {b c : Context} {fuel : ℕ} {outcome : Outcome Unit} (h : Since b c)
      (hrun : c.runWithin fuel = some outcome) : Since (runBoundary fuel b c) outcome.2
  | shift {b c : Context} (h : Since b c) (q : ℕ) :
      Since (boundaryAfter (fun _ => true) b (c.shift q)) (c.shift q).2
  | restore {b c : Context} {s : Snapshot} (h : Since b c) (hsnapshot : c.snapshot = .ok s) :
      Since s.restore s.restore

/-- The contexts that whole instructions lead to. -/
inductive Whole : Context → Prop
  | new (table : Table) (tokens : List String) : Whole (.new table tokens)
  | step {c c' : Context} {act : Action} (h : Whole c) (hstep : c.step = (.ok act, c')) : Whole c'
  | shift {c c' : Context} {q : ℕ} (h : Whole c) (hshift : c.shift q = (.ok (), c')) : Whole c'

/-- Where a context stands that passed the boundary `b` last: there, or within a reduction that the
table chose there. -/
inductive Within (b : Context) : Context → Prop
  | between {c : Context} (hidle : b.isIdle = true) (h : Looked b c) : Within b c
  | matching {t : InputToken} {rest : List InputToken} {k : ℕ} (hphase : b.phase = .awaiting)
      (hinput : b.input = t :: rest) (hact : b.table.action? b.top t.symbol = some (.reduce k)) :
      Within b { b with input := { t with inspected := true } :: rest, phase := .matching k }
  | resolving {t : InputToken} {rest : List InputToken} {k : ℕ} {popped : Context}
      (hphase : b.phase = .awaiting) (hinput : b.input = t :: rest)
      (hact : b.table.action? b.top t.symbol = some (.reduce k)) (hmatch : Matches b k popped) :
      Within b { popped with input := { t with inspected := true } :: rest, phase := .resolving k }

/-- Between two instructions only the lookahead has been looked at. -/
theorem Within.looked (h : Within b c) (hidle : c.isIdle = true) : Looked b c := by
  cases h with
  | between _ h => exact h
  | matching => exact absurd hidle (by simp [isIdle])
  | resolving => exact absurd hidle (by simp [isIdle])

/-! ## Contexts that are stuck -/

/-- Every call fails and makes no difference; those that would carry on the instruction fail with
the same error. -/
structure Stuck (e : ParseError) (c : Context) : Prop where
  tick_eq : c.tick = (.error e, c)
  step_eq : c.step = (.error e, c)
  runWithin_eq : ∀ fuel, c.runWithin (fuel + 1) = some (.error e, c)
  shift_eq : ∀ q, c.shift q = (.error .notIdle, c)
  reduce_eq : ∀ k, c.reduce k = (.error .notIdle, c)
  snapshot_eq : c.snapshot = .error .notIdle

/-- A reduction without a target is stuck. -/
theorem stuck_of_resolveGoto (hphase : c.phase = .resolving k) (h : c.resolveGoto k = .error e) :
    Stuck e c := by
  have hhalt : Halts c e c := .unresolved hphase h
  have hstep : c.step = (.error e, c) := stepWithin_of_halts hhalt
  have hne : c.phase ≠ .done := by simp [hphase]
  exact {
    tick_eq := hhalt.tick_eq
    step_eq := hstep
    runWithin_eq := fun _ => runWithin_of_step_error hne hstep
    shift_eq := fun _ => by simp only [shift, ensureAwaiting, hphase]
    reduce_eq := fun _ => by simp only [reduce, ensureAwaiting, hphase]
    snapshot_eq := by simp [snapshot, isIdle, hphase] }

/-- The contexts that all calls but a restore lead to from a context. -/
inductive Called (c₀ : Context) : Context → Prop
  | refl : Called c₀ c₀
  | tick {c : Context} (h : Called c₀ c) : Called c₀ c.tick.2
  | step {c : Context} (h : Called c₀ c) : Called c₀ c.step.2
  | run {c : Context} {fuel : ℕ} {outcome : Outcome Unit} (h : Called c₀ c)
      (hrun : c.runWithin fuel = some outcome) : Called c₀ outcome.2
  | shift {c : Context} (h : Called c₀ c) (q : ℕ) : Called c₀ (c.shift q).2
  | reduce {c : Context} (h : Called c₀ c) (k : ℕ) : Called c₀ (c.reduce k).2

/-- No call leads away from a context that is stuck. -/
theorem Stuck.eq_of_called (hstuck : Stuck e c₀) (h : Called c₀ c) : c = c₀ := by
  induction h with
  | refl => rfl
  | tick _ ih => rw [ih, hstuck.tick_eq]
  | step _ ih => rw [ih, hstuck.step_eq]
  | @run c fuel outcome _ hrun ih =>
    subst ih
    cases fuel with
    | zero =>
      obtain rfl := runWithin_unique hrun (hstuck.runWithin_eq 0)
      rfl
    | succ fuel =>
      obtain rfl := Option.some.inj (hrun.symm.trans (hstuck.runWithin_eq fuel))
      rfl
  | shift _ q ih => rw [ih, hstuck.shift_eq]
  | reduce _ k ih => rw [ih, hstuck.reduce_eq]

/-- What a failed call leaves behind the boundary `b`: a context between two instructions that is
the one at the boundary but for the mark on the lookahead, or one that stays stuck within a
reduction whatever is called. -/
inductive Contained (b : Context) (e : ParseError) (c : Context) : Prop
  | between (hidle : c.isIdle = true) (h : Looked b c)
  | stuck {k : ℕ} (hphase : c.phase = .resolving k)
      (h : ∀ c', Called c c' → c' = c ∧ Stuck e c')

/-! ## What a phase does behind a boundary -/

/-- What is popped is the same whatever the input and the phase. -/
theorem Matches.of_with {input : List InputToken} {phase : Phase}
    (h : Matches { c with input, phase } k c') :
    ∃ popped, Matches c k popped ∧ c' = { popped with input, phase } := by
  obtain ⟨hrule, hframes, hnames, htrees, hlen⟩ := h
  exact ⟨_, .intro hrule hframes hnames htrees hlen, rfl⟩

/-- What is pushed is the same whatever the input and the phase. -/
theorem Resolves.of_with {input : List InputToken} {phase : Phase} {target : String × ℕ}
    (h : Resolves { c with input, phase } k target c') :
    ∃ pushed, Resolves c k target pushed ∧ c' = { pushed with input, phase } := by
  obtain ⟨hrule, hgoto, hrow⟩ := h
  exact ⟨_, .intro hrule hgoto hrow, rfl⟩

/-- A phase that succeeds goes on within the instruction, or completes the one that was begun at the
boundary. -/
theorem Within.advances (h : Within b c) (hadv : Advances c p c') :
    (p.completed = none ∧ Within b c') ∨
      ∃ act, p.completed = some act ∧ b.phase = .awaiting ∧ Executes b act c' := by
  cases h with
  | between hidle hlooked =>
    cases hadv with
    | accepted hphase hinput hact =>
      exact .inr ⟨_, rfl, hlooked.phase_eq ▸ hphase, hlooked.executes (.accept hinput hact)⟩
    | shifted hphase hinput hact hshift =>
      exact .inr ⟨_, rfl, hlooked.phase_eq ▸ hphase, hlooked.executes (.shift hinput hact hshift)⟩
    | reduceStarted hphase hinput hact =>
      refine .inl ⟨rfl, ?_⟩
      cases hlooked with
      | same => exact .matching hphase hinput hact
      | marked hinput' =>
        obtain ⟨rfl, rfl⟩ := List.cons.inj hinput
        have hmatching := Within.matching (b := b) hphase hinput' hact
        exact hmatching
    | matched hphase | reduced hphase =>
      rw [← hlooked.isIdle_eq, isIdle, hphase] at hidle
      exact absurd hidle (by simp)
  | matching hphase hinput hact =>
    obtain ⟨rfl, _, hmatch, rfl⟩ := hadv.of_matching rfl
    obtain ⟨popped, hpopped, rfl⟩ := Matches.of_with (c := b) hmatch
    have hwithin := Within.resolving hphase hinput hact hpopped
    exact .inl ⟨rfl, hwithin⟩
  | @resolving _ _ _ popped hphase hinput hact hmatch =>
    obtain ⟨target, _, rfl, hresolve, rfl⟩ := hadv.of_resolving rfl
    obtain ⟨pushed, hpushed, rfl⟩ := Resolves.of_with (c := popped) hresolve
    have hexec := Executes.of_matches hinput hact hmatch hpushed
    exact .inr ⟨_, rfl, hphase, hexec⟩

/-- A phase that fails leads back to the boundary or leaves the context stuck. -/
theorem Within.halts (h : Within b c) (hhalt : Halts c e c') : Within b c' ∧ Contained b e c' := by
  cases h with
  | between hidle hlooked =>
    have hlooked' := hhalt.looked (hlooked.isIdle_eq.trans hidle)
    have hback := hlooked.trans hlooked'
    exact ⟨.between hidle hback, .between (hback.isIdle_eq.trans hidle) hback⟩
  | matching hphase hinput hact =>
    obtain ⟨-, rfl⟩ := hhalt.of_matching rfl
    have hidle : b.isIdle = true := isIdle_iff.2 (.inl hphase)
    have hback := Looked.marked hinput
    rw [hphase] at hback
    exact ⟨.between hidle hback, .between rfl hback⟩
  | resolving hphase hinput hact hmatch =>
    obtain ⟨herror, rfl⟩ := hhalt.of_resolving rfl
    have hstuck := stuck_of_resolveGoto rfl herror
    refine ⟨.resolving hphase hinput hact hmatch, .stuck rfl fun c' hcalled => ?_⟩
    obtain rfl := hstuck.eq_of_called hcalled
    exact ⟨rfl, hstuck⟩

/-! ## Calls -/

/-- A context stands within an instruction that was begun at a boundary to which whole instructions
lead. -/
structure Tracks (b c : Context) : Prop where
  within : Within b c
  whole : ∃ d, Whole d ∧ Looked d b

/-- A parse begins at a boundary. -/
theorem tracks_new (table : Table) (tokens : List String) :
    Tracks (.new table tokens) (.new table tokens) :=
  ⟨.between rfl .same, _, .new table tokens, .same⟩

/-- What completes an instruction leads to the next boundary. -/
theorem Tracks.executes (h : Tracks b c) (hphase : b.phase = .awaiting)
    (hexec : Executes b act c') : Tracks c' c' := by
  obtain ⟨d, hwhole, hlooked⟩ := h.whole
  have hphase' : d.phase = .awaiting := hlooked.phase_eq ▸ hphase
  have hstep := (hlooked.executes hexec).step_eq hphase'
  exact ⟨.between (hexec.isIdle hphase) .same, c', .step hwhole hstep, .same⟩

/-- A phase that succeeds stays behind the boundary or completes the instruction and makes a new
one. -/
theorem Tracks.advances (h : Tracks b c) (hadv : Advances c p c') :
    Tracks (if p.completed.isSome then c' else b) c' := by
  rcases h.within.advances hadv with ⟨hp, hwithin⟩ | ⟨act, hp, hphase, hexec⟩
  · rw [hp]
    exact ⟨hwithin, h.whole⟩
  · rw [hp]
    exact h.executes hphase hexec

/-- A phase that fails is contained behind the boundary. -/
theorem Tracks.halts (h : Tracks b c) (hhalt : Halts c e c') :
    Tracks b c' ∧ Contained b e c' := by
  obtain ⟨hwithin, hcontained⟩ := h.within.halts hhalt
  exact ⟨⟨hwithin, h.whole⟩, hcontained⟩

/-- Whether a phase succeeds or fails, the context stands behind the last boundary. -/
theorem Tracks.tick (h : Tracks b c) :
    Tracks (boundaryAfter (·.completed.isSome) b c.tick) c.tick.2 := by
  rcases advances_or_halts c with ⟨p, c', hadv⟩ | ⟨e, c', hhalt⟩
  · rw [hadv.tick_eq]
    exact h.advances hadv
  · rw [hhalt.tick_eq]
    exact (h.halts hhalt).1

/-- The phases of an instruction lead to its end, or to where one of them fails. -/
theorem Tracks.carriesOut {outcome : Outcome Action} (h : Tracks b c)
    (hcarries : CarriesOut c n outcome) :
    Tracks (boundaryAfter (fun _ => true) b outcome) outcome.2 ∧
      ∀ e, outcome.1 = .error e → Contained b e outcome.2 := by
  induction hcarries with
  | failed htick =>
    obtain ⟨htracks, hcontained⟩ := h.halts (tick_eq_error_iff.1 htick)
    refine ⟨htracks, fun e he => ?_⟩
    rwa [← Except.error.inj he]
  | completed htick hp =>
    have htracks := h.advances (tick_eq_ok_iff.1 htick)
    rw [hp] at htracks
    exact ⟨htracks, fun e he => absurd he (by simp)⟩
  | pending htick hp _ ih =>
    have htracks := h.advances (tick_eq_ok_iff.1 htick)
    rw [hp] at htracks
    exact ih htracks

/-- An instruction makes a new boundary, or fails and is contained. -/
theorem Tracks.step (h : Tracks b c) :
    Tracks (boundaryAfter (fun _ => true) b c.step) c.step.2 ∧
      ∀ e, c.step.1 = .error e → Contained b e c.step.2 := by
  obtain ⟨m, -, hcarries⟩ := exists_carriesOut_step c
  exact h.carriesOut hcarries

/-- A run passes a boundary with each of its instructions. -/
theorem Tracks.run {fuel : ℕ} {outcome : Outcome Unit} (h : Tracks b c)
    (hrun : c.runWithin fuel = some outcome) : Tracks (runBoundary fuel b c) outcome.2 := by
  induction fuel generalizing b c with
  | zero =>
    rw [runWithin] at hrun
    split at hrun
    · obtain rfl := Option.some.inj hrun
      exact h
    · exact absurd hrun (by simp)
  | succ fuel ih =>
    by_cases hdone : c.phase = .done
    · rw [runWithin_of_done hdone] at hrun
      obtain rfl := Option.some.inj hrun
      rwa [runBoundary, if_pos (isFinished_iff.2 hdone)]
    have htracks := h.step.1
    rcases hstep : c.step with ⟨e | act, c'⟩
    · rw [runWithin_of_step_error hdone hstep] at hrun
      obtain rfl := Option.some.inj hrun
      rw [hstep] at htracks
      rwa [runBoundary_of_step_error hdone hstep]
    · rw [runWithin_of_step hdone hstep] at hrun
      rw [hstep] at htracks
      rw [runBoundary_of_step hdone hstep]
      exact ih htracks hrun

/-- A shift makes a new boundary, or fails and changes nothing. -/
theorem Tracks.shift (h : Tracks b c) (q : ℕ) :
    Tracks (boundaryAfter (fun _ => true) b (c.shift q)) (c.shift q).2 := by
  rcases shift_cases c q with ⟨c', heq, hphase, hshift⟩ | ⟨e, heq⟩
  · have hidle : c.isIdle = true := isIdle_iff.2 (.inl hphase)
    obtain ⟨d, hwhole, hlooked⟩ := h.whole
    have hlooked' := hlooked.trans (h.within.looked hidle)
    have hphase' : d.phase = .awaiting := hlooked'.phase_eq ▸ hphase
    have hwhole' : d.shift q = (.ok (), c') := by
      simp only [Context.shift, ensureAwaiting, hphase',
        pushToken_eq_ok_iff.2 (hlooked'.shifts hshift)]
    rw [heq]
    refine ⟨.between ?_ .same, c', .shift hwhole hwhole', .same⟩
    cases hshift
    exact hidle
  · rw [heq]
    exact h

/-- A snapshot is taken at a boundary, up to the mark on the lookahead. -/
theorem Tracks.snapshot {s : Snapshot} (h : Tracks b c) (hsnapshot : c.snapshot = .ok s) :
    Looked b s.restore ∧ ∃ d, Whole d ∧ Looked d s.restore := by
  have hlooked := h.within.looked (isIdle_of_snapshot hsnapshot)
  obtain ⟨d, hwhole, hlooked'⟩ := h.whole
  rw [Snapshot.restore_of_snapshot hsnapshot]
  exact ⟨hlooked, d, hwhole, hlooked'.trans hlooked⟩

/-- A snapshot that is restored is a boundary. -/
theorem Tracks.restore {s : Snapshot} (h : Tracks b c) (hsnapshot : c.snapshot = .ok s) :
    Tracks s.restore s.restore := by
  have hidle : s.restore.isIdle = true := by
    rw [Snapshot.restore_of_snapshot hsnapshot]
    exact isIdle_of_snapshot hsnapshot
  exact ⟨.between hidle .same, (h.snapshot hsnapshot).2⟩

/-- Whatever calls lead to a context, it stands behind its last boundary. -/
theorem Since.tracks (h : Since b c) : Tracks b c := by
  induction h with
  | new table tokens => exact tracks_new table tokens
  | tick _ ih => exact ih.tick
  | step _ ih => exact ih.step.1
  | run _ hrun ih => exact ih.run hrun
  | shift _ q ih => exact ih.shift q
  | restore _ hsnapshot ih => exact ih.restore hsnapshot

/-- On any table and whatever calls lead to a context, a phase or an instruction that fails leaves
the context as it was at the last boundary, but for the mark on the lookahead, or leaves it stuck
until a snapshot is restored. No snapshot is taken within an instruction. -/
theorem failure_contained (h : Since b c) :
    (∀ e c', c.tick = (.error e, c') → Contained b e c') ∧
    (∀ e c', c.step = (.error e, c') → Contained b e c') ∧
    ∀ s, c.snapshot = .ok s → Looked b s.restore ∧ ∃ d, Whole d ∧ Looked d s.restore := by
  have htracks := h.tracks
  refine ⟨fun e c' htick => ?_, fun e c' hstep => ?_, fun s hsnapshot => ?_⟩
  · exact (htracks.halts (tick_eq_error_iff.1 htick)).2
  · have hcontained := htracks.step.2 e
    rw [hstep] at hcontained
    exact hcontained rfl
  · exact htracks.snapshot hsnapshot

/-- A reduction without a target is stuck behind the boundary that a shift led to. -/
theorem failure_contained_adrift : ∃ b c, (new .adrift ["x", "$"]).step = (.ok (.shift 1), b) ∧
    b.step = (.error (.unresolvedGoto 0 "S"), c) ∧ c.isIdle = false ∧
    Contained b (.unresolvedGoto 0 "S") c := by
  have hsince : Since (new .adrift ["x", "$"]).step.2 (new .adrift ["x", "$"]).step.2 :=
    .step (.new .adrift ["x", "$"])
  exact ⟨_, _, rfl, rfl, rfl, (failure_contained hsince).2.1 _ _ rfl⟩

end Context

end ShiftReduce
