import ShiftReduce.Engine.Context

/-!
# Carrying out instructions

An instruction is a shift, a reduction or the acceptance of the input. `tick` goes one phase
further: a reduction takes three, choosing the rule, replacing its right-hand side, and going to
the next state. `step` runs to the end of the current instruction and `runWithin` to the end of the
input. `shift` and `reduce` carry out an instruction that the caller chose.

Every operation yields an outcome and a context, since also a failed one may leave a trace: the
next terminal has been looked at, or a right-hand side has been popped.
-/

namespace ShiftReduce

/-- What one phase did. -/
inductive Progress where
  | shifted (symbol : String) (state : Nat)
  | reduceStarted (rule : Nat)
  | matched (rule : Nat)
  | reduced (rule : Nat) (symbol : String) (state : Nat)
  | accepted
deriving DecidableEq, Repr

/-- The instruction that a phase completed, if it completed one. -/
def Progress.completed : Progress → Option Action
  | shifted _ state => some (.shift state)
  | reduceStarted _ => none
  | matched _ => none
  | reduced rule _ _ => some (.reduce rule)
  | accepted => some .accept

namespace Context

/-- An operation yields a value or an error, and the context it leaves. -/
abbrev Outcome (α : Type) := Except ParseError α × Context

/-! ## Parts of instructions -/

/-- The error for a rule that the table does not have. -/
def noRule (t : Table) (rule : Nat) : ParseError := .invalidRule rule t.rules.length

/-- The error for a state that the table does not have. -/
def noState (t : Table) (state : Nat) : ParseError := .invalidState state t.states.length

/-- The stack below the symbols of a right-hand side, which are given from the last to the first
and have to stand on top. -/
def popSymbols (rule : Nat) : List String → List Frame → Except ParseError (List Frame)
  | [], frames => .ok frames
  | _ :: _, [] => .error .stackUnderflow
  | expected :: before, f :: frames =>
    if f.symbol.name = expected then popSymbols rule before frames
    else .error (.productionMismatch rule before.length expected f.symbol.name)

/-- The right-hand side of a rule is popped and its trees become the children of one node, or
nothing changes. -/
def matchRule (c : Context) (rule : Nat) : Except ParseError Context :=
  match c.table.rule? rule with
  | none => .error (noRule c.table rule)
  | some r =>
    match popSymbols rule r.rhs.reverse c.frames with
    | .error e => .error e
    | .ok frames =>
      let n := r.rhs.length
      if c.subtrees.length < n then .error .stackUnderflow
      else
        let node := Tree.node r.lhs (c.subtrees.take n).reverse
        .ok { c with frames, subtrees := node :: c.subtrees.drop n }

/-- The left-hand side of a rule is pushed with the state that follows, and both are yielded. -/
def resolveGoto (c : Context) (rule : Nat) : Except ParseError ((String × Nat) × Context) :=
  match c.table.rule? rule with
  | none => .error (noRule c.table rule)
  | some r =>
    match c.table.goto? c.top r.lhs with
    | none => .error (.unresolvedGoto c.top r.lhs)
    | some target =>
      match c.table.row? target with
      | none => .error (noState c.table target)
      | some _ => .ok ((r.lhs, target), { c with frames := ⟨.marker r.lhs, target⟩ :: c.frames })

/-- One more shift. -/
def countShift (s : Stats) : Stats := { s with shifts := s.shifts + 1 }

/-- One more reduction. -/
def countReduction (s : Stats) : Stats := { s with reductions := s.reductions + 1 }

/-- The next terminal is pushed with a state. -/
def pushToken (c : Context) (state : Nat) : Except ParseError Context :=
  match c.table.row? state with
  | none => .error (noState c.table state)
  | some _ =>
    match c.input with
    | [] => .error .inputExhausted
    | t :: rest =>
      .ok { c with
        input := rest
        frames := ⟨.token t.symbol, state⟩ :: c.frames
        subtrees := .leaf t.symbol :: c.subtrees
        stats := countShift c.stats }

/-! ## Instructions that the table chooses -/

/-- What the table asks for with a state on top and a lookahead that has been looked at. -/
def perform (c : Context) (state : Nat) (lookahead : String) : Outcome Progress :=
  match c.table.action? state lookahead with
  | none => (.error (.unresolvedAction state lookahead (c.table.expected state)), c)
  | some .accept =>
    match c.input.tail with
    | [] => (.ok .accepted, { c with input := [], phase := .done })
    | rest => (.error (.trailingInput rest.length), c)
  | some (.shift target) =>
    match c.pushToken target with
    | .error e => (.error e, c)
    | .ok c' => (.ok (.shifted lookahead target), c')
  | some (.reduce rule) =>
    match c.table.rule? rule with
    | none => (.error (noRule c.table rule), c)
    | some _ => (.ok (.reduceStarted rule), { c with phase := .matching rule })

/-- The first phase of the next instruction. -/
def dispatch (c : Context) : Outcome Progress :=
  match c.table.row? c.top with
  | none => (.error (noState c.table c.top), c)
  | some _ =>
    match c.input with
    | [] => (.error .inputExhausted, c)
    | t :: rest => perform { c with input := { t with inspected := true } :: rest } c.top t.symbol

/-- The next phase. -/
def tick (c : Context) : Outcome Progress :=
  match c.phase with
  | .done => (.error .finished, c)
  | .awaiting => c.dispatch
  | .matching rule =>
    match c.matchRule rule with
    | .error e => (.error e, { c with phase := .awaiting })
    | .ok c' => (.ok (.matched rule), { c' with phase := .resolving rule })
  | .resolving rule =>
    match c.resolveGoto rule with
    | .error e => (.error e, c)
    | .ok ((symbol, state), c') =>
      (.ok (.reduced rule symbol state),
        { c' with phase := .awaiting, stats := countReduction c'.stats })

/-- The rest of the current instruction, in at most so many phases. -/
def stepWithin : Nat → Context → Outcome Action
  | 0, c => (.error .notIdle, c)
  | phases + 1, c =>
    match c.tick with
    | (.error e, c) => (.error e, c)
    | (.ok progress, c) =>
      match progress.completed with
      | some action => (.ok action, c)
      | none => stepWithin phases c

/-- The rest of the current instruction, or a whole one when idle; three phases suffice. -/
def step (c : Context) : Outcome Action := stepWithin 3 c

/-- Instructions up to the acceptance of the input; `none` if so many do not suffice. -/
def runWithin : Nat → Context → Option (Outcome Unit)
  | 0, c => if c.isFinished then some (.ok (), c) else none
  | fuel + 1, c =>
    if c.isFinished then some (.ok (), c)
    else
      match c.step with
      | (.error e, c) => some (.error e, c)
      | (.ok _, c) => runWithin fuel c

/-! ## Instructions that the caller chooses -/

/-- The context awaits an instruction. -/
def ensureAwaiting (c : Context) : Except ParseError Unit :=
  match c.phase with
  | .awaiting => .ok ()
  | .done => .error .finished
  | _ => .error .notIdle

/-- The next terminal is shifted and `state` follows. -/
def shift (c : Context) (state : Nat) : Outcome Unit :=
  match c.ensureAwaiting with
  | .error e => (.error e, c)
  | .ok () =>
    match c.pushToken state with
    | .error e => (.error e, c)
    | .ok c' => (.ok (), c')

/-- A rule is reduced and its target followed. Where there is no target, the right-hand side
stays popped. -/
def reduce (c : Context) (rule : Nat) : Outcome Unit :=
  match c.ensureAwaiting with
  | .error e => (.error e, c)
  | .ok () =>
    match c.matchRule rule with
    | .error e => (.error e, c)
    | .ok popped =>
      match popped.resolveGoto rule with
      | .error e => (.error e, popped)
      | .ok (_, c') => (.ok (), { c' with stats := countReduction c'.stats })

end Context

end ShiftReduce
