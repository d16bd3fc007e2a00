import ShiftReduce.Engine.Instruction

/-!
# Snapshots

A snapshot holds a context at a boundary between two instructions, and a context can be put back to
it at any time. The table belongs to it, so that a context may be put back to the snapshot of
another run.
-/

namespace ShiftReduce

/-- A context between two instructions. -/
structure Snapshot where
  table : Table
  input : List InputToken
  frames : List Frame
  subtrees : List Tree
  finished : Bool
  stats : Stats
deriving DecidableEq

namespace Context

/-- The snapshot of a context that is between two instructions. -/
def snapshot (c : Context) : Except ParseError Snapshot :=
  if c.isIdle then .ok ⟨c.table, c.input, c.frames, c.subtrees, c.isFinished, c.stats⟩
  else .error .notIdle

end Context

namespace Snapshot

/-- The context that a snapshot was taken of. -/
def restore (s : Snapshot) : Context where
  table := s.table
  input := s.input
  frames := s.frames
  subtrees := s.subtrees
  phase := if s.finished then .done else .awaiting
  stats := s.stats

/-- A snapshot leads back to the context that it was taken of. -/
theorem restore_of_snapshot {c : Context} {s : Snapshot} (h : c.snapshot = .ok s) :
    s.restore = c := by
  obtain ⟨table, input, frames, subtrees, phase, stats⟩ := c
  cases phase <;>
    simp [Context.snapshot, Context.isIdle, Context.isFinished] at h <;> subst h <;> rfl

end Snapshot

end ShiftReduce
