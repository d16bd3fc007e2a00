import ShiftReduce.Table.Basic
import ShiftReduce.Tree.Basic

/-!
# The state of a parse

A context holds what one run of a shift-reduce parser is made of: the table, the input that is
left, the stack, the trees built so far and the place within the current instruction. The stack
has a bottom state, 0, and above it pairs of a symbol and a state, so that it cannot lose its
alternation. Stack and trees are kept apart, the latest entry of each first; `elements` and
`forest` show them from the bottom up.
-/

namespace ShiftReduce

/-- Why an instruction cannot be carried out. -/
inductive ParseError where
  /-- The stack, or the forest, ends within the right-hand side of a rule. -/
  | stackUnderflow
  /-- The table has no rule with the number. -/
  | invalidRule (rule count : Nat)
  /-- The table has no state with the number. -/
  | invalidState (state count : Nat)
  /-- The stack does not spell the right-hand side of the rule. -/
  | productionMismatch (rule position : Nat) (expected found : String)
  /-- The state has no target for the nonterminal. -/
  | unresolvedGoto (state : Nat) (symbol : String)
  /-- The state has no action on the terminal. -/
  | unresolvedAction (state : Nat) (symbol : String) (expected : List String)
  /-- The input ends before it is accepted. -/
  | inputExhausted
  /-- Terminals are left behind the one at which the input would be accepted. -/
  | trailingInput (count : Nat)
  /-- The input has been accepted. -/
  | finished
  /-- The context stands within an instruction. -/
  | notIdle
  /-- The session has no run. -/
  | notStarted
deriving DecidableEq, Repr

/-- The error in words. -/
def ParseError.message : ParseError → String
  | stackUnderflow => "stack underflow"
  | invalidRule rule count =>
    "invalid rule " ++ rule.repr ++ " (table has " ++ count.repr ++ " rules)"
  | invalidState state count =>
    "invalid state " ++ state.repr ++ " (table has " ++ count.repr ++ " states)"
  | productionMismatch rule position expected found =>
    "rule " ++ rule.repr ++ " expects " ++ Text.quoted expected ++ " at position " ++
      position.repr ++ ", found " ++ Text.quoted found
  | unresolvedGoto state symbol =>
    "no goto for " ++ Text.quoted symbol ++ " in state " ++ state.repr
  | unresolvedAction state symbol expected =>
    "unexpected " ++ Text.quoted symbol ++ " in state " ++ state.repr ++ ", expected one of " ++
      Text.quotedList expected
  | inputExhausted => "unexpected end of input"
  | trailingInput count => count.repr ++ " tokens after the end-marker"
  | finished => "parse already finished"
  | notIdle => "context is mid-instruction"
  | notStarted => "no parse in progress"

/-- A terminal that waits in the input. -/
structure InputToken where
  symbol : String
  /-- The parser has looked at the terminal as its lookahead. -/
  inspected : Bool
deriving DecidableEq, Repr

/-- A symbol on the stack. -/
inductive StackSymbol where
  /-- A terminal that was shifted. -/
  | token (name : String)
  /-- A nonterminal that a reduction put there. -/
  | marker (name : String)
deriving DecidableEq, Repr

/-- The name of a stack symbol. -/
def StackSymbol.name : StackSymbol → String
  | token name => name
  | marker name => name

/-- A symbol on the stack with the state above it. -/
structure Frame where
  symbol : StackSymbol
  state : Nat
deriving DecidableEq, Repr

/-- An entry of the stack as it is shown. -/
inductive StackElement where
  | state (index : Nat)
  | symbol (s : StackSymbol)
deriving DecidableEq, Repr

/-- The entry as text. -/
def StackElement.display : StackElement → String
  | state q => "<" ++ q.repr ++ ">"
  | symbol s => s.name

/-- The place within the current instruction. -/
inductive Phase where
  /-- Between two instructions. -/
  | awaiting
  /-- A reduction was chosen; nothing has been popped. -/
  | matching (rule : Nat)
  /-- The right-hand side was popped and its node built; the state to go to is not yet known. -/
  | resolving (rule : Nat)
  /-- The input was accepted. -/
  | done
deriving DecidableEq, Repr

/-- What the instructions of a run have done. -/
structure Stats where
  shifts : Nat
  reductions : Nat
deriving DecidableEq, Repr

/-- The state of one run of a parser. -/
structure Context where
  table : Table
  input : List InputToken
  /-- The stack above its bottom state, top first. -/
  frames : List Frame
  /-- The trees built so far, latest first. -/
  subtrees : List Tree
  phase : Phase
  stats : Stats
deriving DecidableEq

namespace Context

/-- The start of a run over some terminals. -/
def new (table : Table) (tokens : List String) : Context where
  table := table
  input := tokens.map (⟨·, false⟩)
  frames := []
  subtrees := []
  phase := .awaiting
  stats := ⟨0, 0⟩

/-- The state on top of a stack. -/
def topOf (frames : List Frame) : Nat := (frames.head?.map (·.state)).getD 0

/-- The state on top of the stack. -/
def top (c : Context) : Nat := topOf c.frames

/-- The entries of the stack from the bottom up. -/
def elements (c : Context) : List StackElement :=
  .state 0 :: c.frames.reverse.flatMap fun f => [.symbol f.symbol, .state f.state]

/-- The trees built so far, in the order of the input. -/
def forest (c : Context) : List Tree := c.subtrees.reverse

/-- The terminals that are left. -/
def remaining (c : Context) : List String := c.input.map (·.symbol)

/-- The input has been accepted. -/
def isFinished (c : Context) : Bool := c.phase == .done

/-- The context stands between two instructions, or has finished. -/
def isIdle (c : Context) : Bool := c.phase == .awaiting || c.phase == .done

/-- The terminals for which the state on top of the stack has an action. -/
def expected (c : Context) : List String := c.table.expected c.top

/-- The stack from the bottom up, and the next terminal behind an arrow. -/
def dumpStack (c : Context) : String :=
  " ".intercalate (c.elements.map (·.display)) ++
    match c.input with
    | [] => ""
    | t :: _ => "  <-  " ++ t.symbol

@[simp] theorem topOf_nil : topOf [] = 0 := rfl

@[simp] theorem topOf_cons (f : Frame) (fs : List Frame) : topOf (f :: fs) = f.state := rfl

/-- Nothing of the input has been read at the start of a run. -/
@[simp] theorem remaining_new (table : Table) (tokens : List String) :
    (new table tokens).remaining = tokens := by
  simp [new, remaining, Function.comp_def]

end Context

end ShiftReduce
