import ShiftReduce.Engine.Session

/-!
# Traces

The trace of an operation lists the phases that it completed, each with the context that it led to.
A phase that fails is not part of a trace.
-/

namespace ShiftReduce

/-- A completed phase. -/
structure Transition where
  progress : Progress
  context : Context

/-- The phase in words. -/
def Progress.describe : Progress → String
  | shifted symbol state =>
    "Shifted \x7b symbol: " ++ Text.quoted symbol ++ ", state: " ++ state.repr ++ " \x7d"
  | reduceStarted rule => "ReduceStarted \x7b rule: " ++ rule.repr ++ " \x7d"
  | matched rule => "Matched \x7b rule: " ++ rule.repr ++ " \x7d"
  | reduced rule symbol state =>
    "Reduced \x7b rule: " ++ rule.repr ++ ", symbol: " ++ Text.quoted symbol ++ ", state: " ++
      state.repr ++ " \x7d"
  | accepted => "Accepted"

namespace Context

/-- The phase of a `tick`. -/
def tickTrace (c : Context) : List Transition :=
  match c.tick with
  | (.error _, _) => []
  | (.ok progress, c) => [⟨progress, c⟩]

/-- The phases of the rest of an instruction. -/
def stepTraceWithin : Nat → Context → List Transition
  | 0, _ => []
  | phases + 1, c =>
    match c.tick with
    | (.error _, _) => []
    | (.ok progress, c) =>
      ⟨progress, c⟩ :: if progress.completed.isSome then [] else stepTraceWithin phases c

/-- The phases of a `step`. -/
def stepTrace (c : Context) : List Transition := stepTraceWithin 3 c

/-- The phases of a run of at most so many instructions. -/
def runTraceWithin : Nat → Context → List Transition
  | 0, _ => []
  | fuel + 1, c =>
    if c.isFinished then []
    else
      c.stepTrace ++
        match c.step with
        | (.error _, _) => []
        | (.ok _, c) => runTraceWithin fuel c

end Context

namespace Session

/-- The phases of the instruction that `forward` carries out. -/
def forwardTrace (s : Session) : List Transition :=
  match s.context with
  | some c => if c.isIdle && !c.isFinished then c.stepTrace else []
  | none => []

/-- The phases of a run of at most so many instructions. -/
def runTraceWithin (fuel : Nat) (s : Session) : List Transition :=
  match s.context with
  | some c => if c.isIdle then c.runTraceWithin fuel else []
  | none => []

end Session

end ShiftReduce
