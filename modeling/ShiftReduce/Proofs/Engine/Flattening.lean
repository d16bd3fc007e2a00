import ShiftReduce.Engine.Flat
import ShiftReduce.Proofs.Engine.Alignment
import ShiftReduce.Proofs.Engine.Containment

/-!
# The turns of the stack

`Context` keeps each symbol of its stack together with the state above it. A parser whose stack is
one sequence has to find these pairs again at every look. It does: `flatten` lays the pairs of a
context out as a sequence, and every operation on that sequence does what the operation of the
context does, errors included (`tick_flatten`, `shift_flatten`, `reduce_flatten`), and both are
shown alike (`dumpStack_flatten`). So the sequences that calls lead to are those that contexts lay
out (`called_iff`), states and symbols take turns in all of them (`Called.alternating`), and the
state on top is never missing (`Called.topState_eq_ok`).
-/

namespace ShiftReduce

open Context (Alternating topOf)

/-- The pairs of a stack, top first, laid out above the bottom state. -/
def stackOf : List Frame → Array StackElement
  | [] => #[.state 0]
  | f :: fs => FlatContext.pushPair (stackOf fs) f.symbol f.state

/-- The context with its stack and its trees laid out as sequences. -/
def Context.flatten (c : Context) : FlatContext where
  table := c.table
  input := c.input
  stack := stackOf c.frames
  forest := c.forest.toArray
  phase := c.phase
  stats := c.stats

/-- The snapshot with its stack and its trees laid out as sequences. -/
def Snapshot.flatten (s : Snapshot) : FlatSnapshot where
  table := s.table
  input := s.input
  stack := stackOf s.frames
  forest := s.subtrees.reverse.toArray
  finished := s.finished
  stats := s.stats

namespace FlatContext

variable {c : Context} {frames : List Frame} {k n : ℕ}

/-! ## The stack -/

/-- A pair takes two places. -/
@[simp] theorem size_pushPair (stack : Array StackElement) (x : StackSymbol) (q : ℕ) :
    (pushPair stack x q).size = stack.size + 2 := by
  simp [pushPair]

/-- The sequence is the stack as it is shown. -/
theorem toList_stackOf (c : Context) : (stackOf c.frames).toList = c.elements := by
  rw [Context.elements]
  induction c.frames with
  | nil => rfl
  | cons f frames ih => simp [stackOf, pushPair, ih]

/-- The last entry is the state on top. -/
theorem topState_stackOf (frames : List Frame) :
    topState (stackOf frames) = .ok (topOf frames) := by
  cases frames with
  | nil => rfl
  | cons f frames => simp [stackOf, pushPair, topState]

/-- The entries below a pair that is pushed stay where they are. -/
theorem getElem?_pushPair_of_lt (stack : Array StackElement) (x : StackSymbol) (q : ℕ)
    (h : n < stack.size) : (pushPair stack x q)[n]? = stack[n]? := by
  rw [pushPair, Array.getElem?_push, if_neg, Array.getElem?_push, if_neg]
  · omega
  · rw [Array.size_push]
    omega

/-- Cutting a pair off, and maybe more. -/
theorem take_pushPair (stack : Array StackElement) (x : StackSymbol) (q : ℕ)
    (h : n ≤ stack.size) : (pushPair stack x q).take n = stack.take n := by
  refine Array.ext_getElem? fun i => ?_
  rw [Array.take_eq_extract, Array.take_eq_extract, Array.getElem?_extract,
    Array.getElem?_extract, size_pushPair]
  by_cases hi : i < n
  · rw [if_pos (by omega), if_pos (by omega), getElem?_pushPair_of_lt _ _ _ (by omega)]
  · rw [if_neg (by omega), if_neg (by omega)]

/-- Two entries fewer for each pair. -/
theorem take_stackOf (h : n ≤ frames.length) :
    (stackOf frames).take ((stackOf frames).size - 2 * n) = stackOf (frames.drop n) := by
  induction n generalizing frames with
  | zero => simp
  | succ n ih =>
    cases frames with
    | nil => exact absurd h (by simp)
    | cons f frames =>
      rw [List.length_cons] at h
      have hle : (stackOf frames).size - 2 * n ≤ (stackOf frames).size := Nat.sub_le _ _
      rw [List.drop_succ_cons, ← ih (by omega), stackOf, size_pushPair,
        Nat.mul_succ, Nat.add_sub_add_right, take_pushPair _ _ _ hle]

/-- The pair on top is the one that was pushed last. -/
theorem nameBelow?_pushPair_zero (stack : Array StackElement) (x : StackSymbol) (q : ℕ) :
    nameBelow? (pushPair stack x q) 0 = some x.name := by
  have hsymbol : (pushPair stack x q)[stack.size]? = some (.symbol x) := by
    rw [pushPair, Array.getElem?_push, if_neg, Array.getElem?_push_size]
    rw [Array.size_push]
    omega
  have hstate : (pushPair stack x q)[stack.size + 1]? = some (.state q) := by
    rw [pushPair, ← Array.size_push (v := .symbol x), Array.getElem?_push_size]
  rw [nameBelow?, size_pushPair, if_pos (by omega), Nat.mul_zero, Nat.zero_add,
    Nat.add_sub_cancel, show stack.size + 2 - 1 = stack.size + 1 by omega, hsymbol, hstate]

/-- Below it stand the pairs that were there before. -/
theorem nameBelow?_pushPair_succ (stack : Array StackElement) (x : StackSymbol) (q k : ℕ) :
    nameBelow? (pushPair stack x q) (k + 1) = nameBelow? stack k := by
  rw [nameBelow?, nameBelow?, size_pushPair]
  by_cases hsize : 2 * k + 2 ≤ stack.size
  · rw [if_pos (by omega), if_pos hsize,
      show stack.size + 2 - (2 * (k + 1) + 2) = stack.size - (2 * k + 2) by omega,
      show stack.size + 2 - (2 * (k + 1) + 1) = stack.size - (2 * k + 1) by omega,
      getElem?_pushPair_of_lt _ _ _ (by omega), getElem?_pushPair_of_lt _ _ _ (by omega)]
  · rw [if_neg (by omega), if_neg hsize]

/-- A look below `k` pairs finds the pair that is there. -/
theorem nameBelow?_stackOf (frames : List Frame) (k : ℕ) :
    nameBelow? (stackOf frames) k = frames[k]?.map (·.symbol.name) := by
  induction frames generalizing k with
  | nil => simp [nameBelow?, stackOf]
  | cons f frames ih =>
    cases k with
    | zero => rw [stackOf, nameBelow?_pushPair_zero, List.getElem?_cons_zero, Option.map_some]
    | succ k => rw [stackOf, nameBelow?_pushPair_succ, ih, List.getElem?_cons_succ]

/-- Comparing a right-hand side with the sequence comes out like popping it from the pairs. -/
theorem compareSymbols_stackOf (frames : List Frame) (names : List String) (k n : ℕ) :
    compareSymbols k (stackOf frames) n names =
      (Context.popSymbols k names (frames.drop n)).map fun _ => () := by
  induction names generalizing n with
  | nil => rfl
  | cons s before ih =>
    have hhead : frames[n]? = (frames.drop n).head? := List.head?_drop.symm
    have htail : frames.drop (n + 1) = (frames.drop n).tail := List.tail_drop.symm
    rw [compareSymbols, nameBelow?_stackOf, hhead, ih, htail]
    cases frames.drop n with
    | nil => rfl
    | cons f below =>
      dsimp only [List.head?_cons, Option.map_some, List.tail_cons, Context.popSymbols]
      split <;> rfl

/-- What is popped are as many pairs as there are names. -/
theorem eq_drop_of_popSymbols {names : List String} {below : List Frame}
    (h : Context.popSymbols k names frames = .ok below) :
    names.length ≤ frames.length ∧ below = frames.drop names.length := by
  obtain ⟨above, rfl, hnames⟩ := Context.popSymbols_eq_ok_iff.1 h
  have hlength : names.length = above.length := by rw [← hnames, List.length_map]
  rw [hlength, List.length_append, List.drop_left]
  exact ⟨Nat.le_add_right _ _, rfl⟩

/-! ## What a context shows -/

/-- A run begins with the bottom state alone. -/
theorem flatten_new (table : Table) (tokens : List String) :
    (Context.new table tokens).flatten = .new table tokens := rfl

theorem table_flatten (c : Context) : c.flatten.table = c.table := rfl

theorem input_flatten (c : Context) : c.flatten.input = c.input := rfl

theorem phase_flatten (c : Context) : c.flatten.phase = c.phase := rfl

/-- The last entry is the state on top of the context. -/
theorem topState_flatten (c : Context) : topState c.flatten.stack = .ok c.top :=
  topState_stackOf c.frames

/-- There are as many trees in the sequence as there were. -/
theorem size_forest_flatten (c : Context) : c.flatten.forest.size = c.subtrees.length := by
  simp [Context.flatten, Context.forest]

/-- The state on top is found, so its actions are. -/
theorem expected_flatten (c : Context) : c.flatten.expected = c.expected := by
  rw [expected, topState_flatten]
  rfl

/-- Both stacks are written alike. -/
theorem dumpStack_flatten (c : Context) : c.flatten.dumpStack = c.dumpStack := by
  rw [dumpStack, Context.flatten, toList_stackOf]
  rfl

/-! ## Parts of instructions -/

/-- The latest trees become the children of one node. -/
theorem forest_flatten (h : n ≤ c.subtrees.length) (name : String) :
    (c.flatten.forest.take (c.subtrees.length - n)).push
        (.node name (c.flatten.forest.toList.drop (c.subtrees.length - n))) =
      (Tree.node name (c.subtrees.take n).reverse :: c.subtrees.drop n).reverse.toArray := by
  have hsub : c.subtrees.length - (c.subtrees.length - n) = n := by omega
  simp [Context.flatten, Context.forest, List.drop_reverse, List.take_reverse, hsub]

/-- A right-hand side is cut off the sequence where it is popped from the pairs. -/
theorem matchRule_flatten (c : Context) (k : ℕ) :
    c.flatten.matchRule k = (c.matchRule k).map Context.flatten := by
  unfold matchRule Context.matchRule
  rw [table_flatten]
  cases c.table.rule? k with
  | none => rfl
  | some r =>
    have hcompare : compareSymbols k c.flatten.stack 0 r.rhs.reverse =
        (Context.popSymbols k r.rhs.reverse c.frames).map fun _ => () :=
      compareSymbols_stackOf c.frames r.rhs.reverse k 0
    dsimp only
    rw [hcompare]
    cases hpop : Context.popSymbols k r.rhs.reverse c.frames with
    | error e => rfl
    | ok below =>
      obtain ⟨hle, rfl⟩ := eq_drop_of_popSymbols hpop
      rw [List.length_reverse] at hle
      dsimp only [Except.map]
      rw [size_forest_flatten]
      by_cases hshort : c.subtrees.length < r.rhs.length
      · rw [if_pos hshort, if_pos hshort]
      · have hstack : c.flatten.stack.take (c.flatten.stack.size - 2 * r.rhs.length) =
            stackOf (c.frames.drop r.rhs.length) := take_stackOf hle
        rw [if_neg hshort, if_neg hshort, forest_flatten (by omega), List.length_reverse, hstack]
        rfl

/-- The target is that of the state which the last entry names. -/
theorem resolveGoto_flatten (c : Context) (k : ℕ) :
    c.flatten.resolveGoto k = (c.resolveGoto k).map (Prod.map id Context.flatten) := by
  unfold resolveGoto Context.resolveGoto
  rw [table_flatten, topState_flatten]
  cases c.table.rule? k with
  | none => rfl
  | some r =>
    dsimp only
    cases c.table.goto? c.top r.lhs with
    | none => rfl
    | some target =>
      dsimp only
      cases c.table.row? target <;> rfl

/-! ## Instructions -/

theorem ensureAwaiting_flatten (c : Context) : c.flatten.ensureAwaiting = c.ensureAwaiting := rfl

/-- A shift puts the same pair on top. -/
theorem shift_flatten (c : Context) (q : ℕ) :
    c.flatten.shift q = Prod.map id Context.flatten (c.shift q) := by
  unfold shift Context.shift Context.pushToken
  rw [ensureAwaiting_flatten, table_flatten, input_flatten]
  cases c.ensureAwaiting with
  | error e => rfl
  | ok _ =>
    cases c.table.row? q with
    | none => rfl
    | some row =>
      cases c.input with
      | nil => rfl
      | cons t rest => simp [Context.flatten, Context.forest, stackOf]

/-- A reduction that the caller chooses does the same, also where it fails halfway. -/
theorem reduce_flatten (c : Context) (k : ℕ) :
    c.flatten.reduce k = Prod.map id Context.flatten (c.reduce k) := by
  unfold reduce Context.reduce
  rw [ensureAwaiting_flatten, matchRule_flatten]
  cases c.ensureAwaiting with
  | error e => rfl
  | ok _ =>
    cases c.matchRule k with
    | error e => rfl
    | ok popped =>
      dsimp only [Except.map]
      rw [resolveGoto_flatten]
      cases popped.resolveGoto k <;> rfl

/-- Between two instructions a shift that the table asks for is never refused. -/
theorem perform_flatten (hphase : c.phase = .awaiting) (q : ℕ) (lookahead : String) :
    c.flatten.perform q lookahead = Prod.map id Context.flatten (c.perform q lookahead) := by
  unfold perform Context.perform
  rw [table_flatten, input_flatten]
  cases c.table.action? q lookahead with
  | none => rfl
  | some act =>
    cases act with
    | accept => cases c.input.tail <;> rfl
    | shift target =>
      dsimp only
      rw [shift_flatten]
      simp only [Context.shift, Context.ensureAwaiting, hphase]
      cases c.pushToken target <;> rfl
    | reduce rule =>
      dsimp only
      cases c.table.rule? rule <;> rfl

/-- The stack has a state on top, so the next instruction is the one that this state asks for. -/
theorem dispatch_flatten (hphase : c.phase = .awaiting) :
    c.flatten.dispatch = Prod.map id Context.flatten c.dispatch := by
  unfold dispatch Context.dispatch
  rw [topState_flatten, table_flatten, input_flatten]
  dsimp only
  cases c.table.row? c.top with
  | none => rfl
  | some row =>
    cases c.input with
    | nil => rfl
    | cons t rest =>
      exact perform_flatten (c := { c with input := { t with inspected := true } :: rest })
        hphase c.top t.symbol

/-- A phase does the same on the sequence as on the pairs. -/
theorem tick_flatten (c : Context) :
    c.flatten.tick = Prod.map id Context.flatten c.tick := by
  unfold tick Context.tick
  rw [phase_flatten]
  cases hphase : c.phase with
  | done => rfl
  | awaiting => exact dispatch_flatten hphase
  | matching k =>
    dsimp only
    rw [matchRule_flatten]
    cases c.matchRule k <;> rfl
  | resolving k =>
    dsimp only
    rw [resolveGoto_flatten]
    cases c.resolveGoto k <;> rfl

/-- Phases up to the end of an instruction do the same on the sequence. -/
theorem stepWithin_flatten (phases : ℕ) (c : Context) :
    c.flatten.stepWithin phases = Prod.map id Context.flatten (c.stepWithin phases) := by
  induction phases generalizing c with
  | zero => rfl
  | succ phases ih =>
    rw [stepWithin, Context.stepWithin, tick_flatten]
    rcases c.tick with ⟨_ | progress, c'⟩
    · rfl
    · cases hcompleted : progress.completed with
      | none => simpa [hcompleted] using ih c'
      | some act => simp [hcompleted]

/-- So does an instruction. -/
theorem step_flatten (c : Context) :
    c.flatten.step = Prod.map id Context.flatten c.step :=
  stepWithin_flatten 3 c

/-- A sequence that has accepted its input is left as it is. -/
theorem runWithin_of_done {d : FlatContext} (hphase : d.phase = .done) (fuel : ℕ) :
    d.runWithin fuel = some (.ok (), d) := by
  cases fuel <;> rw [runWithin, if_pos hphase]

/-- So does a run, and it takes as many instructions. -/
theorem runWithin_flatten (fuel : ℕ) (c : Context) :
    c.flatten.runWithin fuel = (c.runWithin fuel).map (Prod.map id Context.flatten) := by
  induction fuel generalizing c with
  | zero =>
    by_cases hdone : c.phase = .done
    · rw [runWithin_of_done hdone, Context.runWithin_of_done hdone]
      rfl
    · rw [runWithin, phase_flatten, if_neg hdone, Context.runWithin_zero hdone]
      rfl
  | succ fuel ih =>
    by_cases hdone : c.phase = .done
    · rw [runWithin_of_done hdone, Context.runWithin_of_done hdone]
      rfl
    · rw [runWithin, phase_flatten, if_neg hdone, step_flatten]
      rcases hstep : c.step with ⟨e | act, c'⟩
      · rw [Context.runWithin_of_step_error hdone hstep]
        rfl
      · rw [Context.runWithin_of_step hdone hstep]
        exact ih c'

/-! ## Snapshots -/

/-- A snapshot is taken of the sequence when one is taken of the pairs. -/
theorem snapshot_flatten (c : Context) :
    c.flatten.snapshot = c.snapshot.map Snapshot.flatten := by
  unfold snapshot Context.snapshot
  rw [phase_flatten]
  by_cases hidle : c.phase = .awaiting ∨ c.phase = .done
  · rw [if_pos hidle, if_pos (Context.isIdle_iff.2 hidle)]
    rfl
  · rw [if_neg hidle, if_neg fun h => hidle (Context.isIdle_iff.1 h)]
    rfl

/-- It is put back as that of the pairs is. -/
theorem restore_flatten (s : Snapshot) : s.flatten.restore = s.restore.flatten := rfl

/-- A snapshot leads back to the sequence that it was taken of. -/
theorem restore_of_snapshot_flatten {s : FlatSnapshot} (h : c.flatten.snapshot = .ok s) :
    s.restore = c.flatten := by
  rw [snapshot_flatten] at h
  cases hs : c.snapshot with
  | error e =>
    rw [hs] at h
    exact absurd h nofun
  | ok taken =>
    rw [hs] at h
    obtain rfl := Except.ok.inj h
    rw [restore_flatten, Snapshot.restore_of_snapshot hs]

/-! ## Everything that calls lead to -/

/-- The contexts that calls lead to from a context, failed calls and restored snapshots included. -/
inductive Called (d₀ : FlatContext) : FlatContext → Prop
  | refl : Called d₀ d₀
  | tick {d : FlatContext} (h : Called d₀ d) : Called d₀ d.tick.2
  | step {d : FlatContext} (h : Called d₀ d) : Called d₀ d.step.2
  | run {d : FlatContext} {fuel : ℕ} {outcome : Outcome Unit} (h : Called d₀ d)
      (hrun : d.runWithin fuel = some outcome) : Called d₀ outcome.2
  | shift {d : FlatContext} (h : Called d₀ d) (q : ℕ) : Called d₀ (d.shift q).2
  | reduce {d : FlatContext} (h : Called d₀ d) (k : ℕ) : Called d₀ (d.reduce k).2
  | restore {d : FlatContext} {s : FlatSnapshot} (h : Called d₀ d)
      (hsnapshot : d.snapshot = .ok s) : Called d₀ s.restore

/-- The calls that lead to a context lead to its sequence. -/
theorem called_flatten {c₀ : Context} (h : Context.Called c₀ c) :
    Called c₀.flatten c.flatten := by
  induction h with
  | refl => exact .refl
  | @tick c _ ih =>
    have hcall := ih.tick
    rwa [tick_flatten] at hcall
  | @step c _ ih =>
    have hcall := ih.step
    rwa [step_flatten] at hcall
  | @run c fuel outcome _ hrun ih =>
    have hcall := runWithin_flatten fuel c
    rw [hrun] at hcall
    exact ih.run hcall
  | @shift c _ q ih =>
    have hcall := ih.shift q
    rwa [shift_flatten] at hcall
  | @reduce c _ k ih =>
    have hcall := ih.reduce k
    rwa [reduce_flatten] at hcall

/-- Calls on a sequence lead to the sequences of the contexts that the same calls lead to. Restoring
a snapshot leads back to one of them. -/
theorem called_iff {c₀ : Context} {d : FlatContext} :
    Called c₀.flatten d ↔ ∃ c, Context.Called c₀ c ∧ c.flatten = d := by
  constructor
  · intro h
    induction h with
    | refl => exact ⟨c₀, .refl, rfl⟩
    | tick _ ih =>
      obtain ⟨c, hc, rfl⟩ := ih
      exact ⟨_, hc.tick, by rw [tick_flatten]; rfl⟩
    | step _ ih =>
      obtain ⟨c, hc, rfl⟩ := ih
      exact ⟨_, hc.step, by rw [step_flatten]; rfl⟩
    | run _ hrun ih =>
      obtain ⟨c, hc, rfl⟩ := ih
      rw [runWithin_flatten] at hrun
      obtain ⟨outcome, hcrun, rfl⟩ := Option.map_eq_some_iff.1 hrun
      exact ⟨_, hc.run hcrun, rfl⟩
    | shift _ q ih =>
      obtain ⟨c, hc, rfl⟩ := ih
      exact ⟨_, hc.shift q, by rw [shift_flatten]; rfl⟩
    | reduce _ k ih =>
      obtain ⟨c, hc, rfl⟩ := ih
      exact ⟨_, hc.reduce k, by rw [reduce_flatten]; rfl⟩
    | restore _ hsnapshot ih =>
      obtain ⟨c, hc, rfl⟩ := ih
      exact ⟨c, hc, (restore_of_snapshot_flatten hsnapshot).symm⟩
  · rintro ⟨c, hc, rfl⟩
    exact called_flatten hc

variable {table : Table} {tokens : List String} {d : FlatContext}

/-- Whatever calls lead to a sequence, states and symbols take turns in it. -/
theorem Called.alternating (h : Called (.new table tokens) d) : Alternating d.stack.toList := by
  obtain ⟨c, -, rfl⟩ := called_iff.1 (flatten_new table tokens ▸ h)
  rw [Context.flatten, toList_stackOf]
  exact Context.alternating_frames 0 _

/-- Whatever calls lead to a sequence, there is a state on top of it, and it tells what is expected
next. -/
theorem Called.topState_eq_ok (h : Called (.new table tokens) d) :
    ∃ q, topState d.stack = .ok q ∧ d.expected = d.table.expected q := by
  obtain ⟨c, -, rfl⟩ := called_iff.1 (flatten_new table tokens ▸ h)
  exact ⟨c.top, topState_flatten c, expected_flatten c⟩

end FlatContext

end ShiftReduce
