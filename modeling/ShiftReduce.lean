import ShiftReduce.Automaton.Basic
import ShiftReduce.Automaton.Collection
import ShiftReduce.Automaton.Item
import ShiftReduce.Command.Arguments
import ShiftReduce.Command.Failure
import ShiftReduce.Command.Generate
import ShiftReduce.Command.Replay
import ShiftReduce.Engine.Context
import ShiftReduce.Engine.Flat
import ShiftReduce.Engine.Instruction
import ShiftReduce.Engine.Session
import ShiftReduce.Engine.Snapshot
import ShiftReduce.Engine.Trace
import ShiftReduce.Grammar.Augmented
import ShiftReduce.Grammar.Basic
import ShiftReduce.Grammar.Reader
import ShiftReduce.Json.Binary64
import ShiftReduce.Json.Decoder
import ShiftReduce.Json.Reader
import ShiftReduce.Json.Writer
import ShiftReduce.Log
import ShiftReduce.Main
import ShiftReduce.Ordered.Map
import ShiftReduce.Ordered.Set
import ShiftReduce.Proofs.Automaton.Acceptance
import ShiftReduce.Proofs.Automaton.Actions
import ShiftReduce.Proofs.Automaton.Canonical
import ShiftReduce.Proofs.Automaton.Closure
import ShiftReduce.Proofs.Automaton.Collection
import ShiftReduce.Proofs.Automaton.Conflicts
import ShiftReduce.Proofs.Automaton.Renumbering
import ShiftReduce.Proofs.Automaton.Repetition
import ShiftReduce.Proofs.Automaton.Saturation
import ShiftReduce.Proofs.Automaton.Transitions
import ShiftReduce.Proofs.Command.Pipeline
import ShiftReduce.Proofs.Command.Stepping
import ShiftReduce.Proofs.Engine.Agreement
import ShiftReduce.Proofs.Engine.Alignment
import ShiftReduce.Proofs.Engine.Atomicity
import ShiftReduce.Proofs.Engine.Choice
import ShiftReduce.Proofs.Engine.Completeness
import ShiftReduce.Proofs.Engine.Containment
import ShiftReduce.Proofs.Engine.Execution
import ShiftReduce.Proofs.Engine.Expected
import ShiftReduce.Proofs.Engine.Flattening
import ShiftReduce.Proofs.Engine.Foresight
import ShiftReduce.Proofs.Engine.Invariant
import ShiftReduce.Proofs.Engine.Leaves
import ShiftReduce.Proofs.Engine.Lookahead
import ShiftReduce.Proofs.Engine.Path
import ShiftReduce.Proofs.Engine.Phases
import ShiftReduce.Proofs.Engine.Prefix
import ShiftReduce.Proofs.Engine.Rejection
import ShiftReduce.Proofs.Engine.Reordering
import ShiftReduce.Proofs.Engine.Runs
import ShiftReduce.Proofs.Engine.Safety
import ShiftReduce.Proofs.Engine.Sessions
import ShiftReduce.Proofs.Engine.Soundness
import ShiftReduce.Proofs.Engine.Termination
import ShiftReduce.Proofs.Grammar.Completion
import ShiftReduce.Proofs.Grammar.Consistent
import ShiftReduce.Proofs.Grammar.Lexical
import ShiftReduce.Proofs.Grammar.Naming
import ShiftReduce.Proofs.Grammar.Productive
import ShiftReduce.Proofs.Grammar.Reading
import ShiftReduce.Proofs.Grammar.Rendering
import ShiftReduce.Proofs.Grammar.Reordering
import ShiftReduce.Proofs.Grammar.Rewriting
import ShiftReduce.Proofs.Grammar.Viable
import ShiftReduce.Proofs.Grammar.WellFormed
import ShiftReduce.Proofs.Json.Nested
import ShiftReduce.Proofs.Sets.Exact
import ShiftReduce.Proofs.Sets.FixedPoint
import ShiftReduce.Proofs.Table.Emission
import ShiftReduce.Proofs.Table.Exchange
import ShiftReduce.Proofs.Table.Faithful
import ShiftReduce.Proofs.Table.Spelling
import ShiftReduce.Proofs.Text.Lines
import ShiftReduce.Proofs.Tokenizer.Munch
import ShiftReduce.Proofs.Tokenizer.Spacing
import ShiftReduce.Proofs.Tree.Derivation
import ShiftReduce.Proofs.Tree.Exchange
import ShiftReduce.Proofs.Tree.Listing
import ShiftReduce.Proofs.Tree.Measures
import ShiftReduce.Report
import ShiftReduce.Sets
import ShiftReduce.Table.Action
import ShiftReduce.Table.Basic
import ShiftReduce.Table.Emission
import ShiftReduce.Table.Layout
import ShiftReduce.Text.Blank
import ShiftReduce.Text.Capital
import ShiftReduce.Text.Line
import ShiftReduce.Text.Numeral
import ShiftReduce.Text.Printable
import ShiftReduce.Text.Quoted
import ShiftReduce.Tokenizer
import ShiftReduce.Tree.Basic
import ShiftReduce.Tree.Layout
import ShiftReduce.Vocabulary
