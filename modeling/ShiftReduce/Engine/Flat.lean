import ShiftReduce.Engine.Instruction

/-!
# The stack as one sequence

A parser that keeps its stack as one growing sequence puts a symbol and then a state at its end,
cuts off two entries for each symbol that it pops, and takes the last entry for the state on top.
Nothing in such a sequence makes states and symbols take turns, so every look at it can find the
wrong entry, and then the stack has run out. The trees are a sequence as well, in the order of the
input.

The operations are those of `Context`, whose stack has the turns built in. That both do the same is
shown in `Proofs.Engine.Flattening`.
-/

namespace ShiftReduce

/-- The state of one run of a parser, with its stack and its trees as sequences. -/
structure FlatContext where
  table : Table
  input : List InputToken
  /-- States and symbols, the latest at the end. -/
  stack : Array StackElement
  /-- The trees built so far, the latest at the end. -/
  forest : Array Tree
  phase : Phase
  stats : Stats

namespace FlatContext

open Context (countReduction countShift noRule noState)

/-- An operation yields a value or an error, and the context it leaves. -/
abbrev Outcome (α : Type) := Except ParseError α × FlatContext

/-- The start of a run over some terminals. -/
def new (table : Table) (tokens : List String) : FlatContext where
  table := table
  input := tokens.map (⟨·, false⟩)
  stack := #[.state 0]
  forest := #[]
  phase := .awaiting
  stats := ⟨0, 0⟩

/-! ## The stack -/

/-- The last entry of a stack, which has to be a state. -/
def topState (stack : Array StackElement) : Except ParseError Nat :=
  match stack.back? with
  | some (.state q) => .ok q
  | _ => .error .stackUnderflow

/-- A symbol is put on a stack, and a state on top of it. -/
def pushPair (stack : Array StackElement) (x : StackSymbol) (q : Nat) : Array StackElement :=
  (stack.push (.symbol x)).push (.state q)

/-- The name of the symbol in the pair of entries that stands below `k` pairs, if there is such a
pair and it is a symbol with a state on top. -/
def nameBelow? (stack : Array StackElement) (k : Nat) : Option String :=
  if 2 * k + 2 ≤ stack.size then
    match stack[stack.size - (2 * k + 2)]?, stack[stack.size - (2 * k + 1)]? with
    | some (.symbol x), some (.state _) => some x.name
    | _, _ => none
  else none

/-- The symbols of a right-hand side, given from the last to the first, are compared with those on
the stack, of which the upper `k` have been. -/
def compareSymbols (rule : Nat) (stack : Array StackElement) :
    Nat → List String → Except ParseError Unit
  | _, [] => .ok ()
  | k, expected :: before =>
    match nameBelow? stack k with
    | none => .error .stackUnderflow
    | some found =>
      if found = expected then compareSymbols rule stack (k + 1) before
      else .error (.productionMismatch rule before.length expected found)

/-- The terminals for which the state on top of the stack has an action; none without a state on
top. -/
def expected (d : FlatContext) : List String :=
  match topState d.stack with
  | .ok q => d.table.expected q
  | .error _ => []

/-- The stack from the bottom up, and the next terminal behind an arrow. -/
def dumpStack (d : FlatContext) : String :=
  " ".intercalate (d.stack.toList.map (·.display)) ++
    match d.input with
    | [] => ""
    | t :: _ => "  <-  " ++ t.symbol

/-! ## Parts of instructions -/

/-- A right-hand side that the stack spells is cut off, and its trees become the children of one
node. -/
def matchRule (d : FlatContext) (rule : Nat) : Except ParseError FlatContext :=
  match d.table.rule? rule with
  | none => .error (noRule d.table rule)
  | some r =>
    match compareSymbols rule d.stack 0 r.rhs.reverse with
    | .error e => .error e
    | .ok () =>
      let n := r.rhs.length
      if d.forest.size < n then .error .stackUnderflow
      else
        let kept := d.forest.size - n
        let node := Tree.node r.lhs (d.forest.toList.drop kept)
        .ok { d with
          stack := d.stack.take (d.stack.size - 2 * n)
          forest := (d.forest.take kept).push node }

/-- The left-hand side of a rule is pushed with the target of the state on top, and both are
yielded. -/
def resolveGoto (d : FlatContext) (rule : Nat) : Except ParseError ((String × Nat) × FlatContext) :=
  match d.table.rule? rule with
  | none => .error (noRule d.table rule)
  | some r =>
    match topState d.stack with
    | .error e => .error e
    | .ok exposed =>
      match d.table.goto? exposed r.lhs with
      | none => .error (.unresolvedGoto exposed r.lhs)
      | some target =>
        match d.table.row? target with
        | none => .error (noState d.table target)
        | some _ =>
          .ok ((r.lhs, target), { d with stack := pushPair d.stack (.marker r.lhs) target })

/-- The context awaits an instruction. -/
def ensureAwaiting (d : FlatContext) : Except ParseError Unit :=
  match d.phase with
  | .awaiting => .ok ()
  | .done => .error .finished
  | _ => .error .notIdle

/-! ## Instructions -/

/-- The next terminal is shifted and `state` follows. -/
def shift (d : FlatContext) (state : Nat) : Outcome Unit :=
  match d.ensureAwaiting with
  | .error e => (.error e, d)
  | .ok () =>
    match d.table.row? state with
    | none => (.error (noState d.table state), d)
    | some _ =>
      match d.input with
      | [] => (.error .inputExhausted, d)
      | t :: rest =>
        (.ok (), { d with
          input := rest
          stack := pushPair d.stack (.token t.symbol) state
          forest := d.forest.push (.leaf t.symbol)
          stats := countShift d.stats })

/-- A rule is reduced and its target followed. -/
def reduce (d : FlatContext) (rule : Nat) : Outcome Unit :=
  match d.ensureAwaiting with
  | .error e => (.error e, d)
  | .ok () =>
    match d.matchRule rule with
    | .error e => (.error e, d)
    | .ok popped =>
      match popped.resolveGoto rule with
      | .error e => (.error e, popped)
      | .ok (_, d') => (.ok (), { d' with stats := countReduction d'.stats })

/-- What the table asks for with a state on top and a lookahead that has been looked at. -/
def perform (d : FlatContext) (state : Nat) (lookahead : String) : Outcome Progress :=
  match d.table.action? state lookahead with
  | none => (.error (.unresolvedAction state lookahead (d.table.expected state)), d)
  | some .accept =>
    match d.input.tail with
    | [] => (.ok .accepted, { d with input := [], phase := .done })
    | rest => (.error (.trailingInput rest.length), d)
  | some (.shift target) =>
    match d.shift target with
    | (.error e, d') => (.error e, d')
    | (.ok (), d') => (.ok (.shifted lookahead target), d')
  | some (.reduce rule) =>
    match d.table.rule? rule with
    | none => (.error (noRule d.table rule), d)
    | some _ => (.ok (.reduceStarted rule), { d with phase := .matching rule })

/-- The first phase of the next instruction. -/
def dispatch (d : FlatContext) : Outcome Progress :=
  match topState d.stack with
  | .error e => (.error e, d)
  | .ok state =>
    match d.table.row? state with
    | none => (.error (noState d.table state), d)
    | some _ =>
      match d.input with
      | [] => (.error .inputExhausted, d)
      | t :: rest => perform { d with input := { t with inspected := true } :: rest } state t.symbol

/-- The next phase. -/
def tick (d : FlatContext) : Outcome Progress :=
  match d.phase with
  | .done => (.error .finished, d)
  | .awaiting => d.dispatch
  | .matching rule =>
    match d.matchRule rule with
    | .error e => (.error e, { d with phase := .awaiting })
    | .ok d' => (.ok (.matched rule), { d' with phase := .resolving rule })
  | .resolving rule =>
    match d.resolveGoto rule with
    | .error e => (.error e, d)
    | .ok ((symbol, state), d') =>
      (.ok (.reduced rule symbol state),
        { d' with phase := .awaiting, stats := countReduction d'.stats })

/-- The rest of the current instruction, in at most so many phases. -/
def stepWithin : Nat → FlatContext → Outcome Action
  | 0, d => (.error .notIdle, d)
  | phases + 1, d =>
    match d.tick with
    | (.error e, d) => (.error e, d)
    | (.ok progress, d) =>
      match progress.completed with
      | some action => (.ok action, d)
      | none => stepWithin phases d

/-- The rest of the current instruction, or a whole one when idle; three phases suffice. -/
def step (d : FlatContext) : Outcome Action := stepWithin 3 d

/-- Instructions up to the acceptance of the input; `none` if so many do not suffice. -/
def runWithin : Nat → FlatContext → Option (Outcome Unit)
  | 0, d => if d.phase = .done then some (.ok (), d) else none
  | fuel + 1, d =>
    if d.phase = .done then some (.ok (), d)
    else
      match d.step with
      | (.error e, d) => some (.error e, d)
      | (.ok _, d) => runWithin fuel d

end FlatContext

/-! ## Snapshots -/

/-- A context between two instructions, with its stack and its trees as sequences. -/
structure FlatSnapshot where
  table : Table
  input : List InputToken
  stack : Array StackElement
  forest : Array Tree
  finished : Bool
  stats : Stats

/-- The snapshot of a context that is between two instructions. -/
def FlatContext.snapshot (d : FlatContext) : Except ParseError FlatSnapshot :=
  if d.phase = .awaiting ∨ d.phase = .done then
    .ok ⟨d.table, d.input, d.stack, d.forest, d.phase = .done, d.stats⟩
  else .error .notIdle

/-- The context that a snapshot was taken of. -/
def FlatSnapshot.restore (s : FlatSnapshot) : FlatContext where
  table := s.table
  input := s.input
  stack := s.stack
  forest := s.forest
  phase := if s.finished then .done else .awaiting
  stats := s.stats

end ShiftReduce
