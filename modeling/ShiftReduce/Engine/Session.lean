import ShiftReduce.Engine.Snapshot

/-!
# Sessions

A session drives one run at a time over a table and can undo its instructions: before each one it
puts a snapshot on its history, and going back takes the latest one off.
-/

namespace ShiftReduce

/-- Snapshots, latest first. -/
abbrev History := List Snapshot

/-- A table with at most one run, and the history of that run. -/
structure Session where
  table : Table
  context : Option Context
  history : History
deriving DecidableEq

namespace Session

/-- A session without a run. -/
def new (table : Table) : Session := ⟨table, none, []⟩

/-- The run has accepted its input. -/
def isFinished (s : Session) : Bool := s.context.any Context.isFinished

/-- A new run takes the place of an older one and of its history. -/
def start (s : Session) (tokens : List String) : Session :=
  { s with context := some (.new s.table tokens), history := [] }

/-- The run and its history are given up. -/
def stop (s : Session) : Session := { s with context := none, history := [] }

/-- One instruction, remembering the context before it also when it fails. -/
def forward (s : Session) : Except ParseError Action × Session :=
  match s.context with
  | none => (.error .notStarted, s)
  | some c =>
    if c.isFinished then (.error .finished, s)
    else
      match c.snapshot with
      | .error e => (.error e, s)
      | .ok snapshot =>
        let (outcome, c') := c.step
        (outcome, { s with context := some c', history := snapshot :: s.history })

/-- The latest instruction is undone; `false` if there is none. -/
def back (s : Session) : Except ParseError Bool × Session :=
  match s.context with
  | none => (.error .notStarted, s)
  | some _ =>
    match s.history with
    | [] => (.ok false, s)
    | snapshot :: older =>
      (.ok true, { s with context := some snapshot.restore, history := older })

/-- Instructions up to the acceptance of the input, and their number; `none` if so many do not
suffice. -/
def runWithin : Nat → Session → Option (Except ParseError Nat × Session)
  | 0, s => if s.isFinished then some (.ok 0, s) else none
  | fuel + 1, s =>
    if s.isFinished then some (.ok 0, s)
    else
      match s.forward with
      | (.error e, s) => some (.error e, s)
      | (.ok _, s) => (runWithin fuel s).map fun (count, s) => (count.map (· + 1), s)

end Session

end ShiftReduce
