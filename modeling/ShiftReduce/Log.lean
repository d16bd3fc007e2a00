import ShiftReduce.Engine.Trace
import ShiftReduce.Table.Emission

/-!
# Log messages

What the construction of tables and the driving of parsers tell about their progress. Messages are
derived from the values that the work produces; no function changes what it computes for the sake
of a message.
-/

namespace ShiftReduce

/-- How much a message matters. -/
inductive LogLevel where
  | warn
  | debug
  | trace
deriving DecidableEq, Repr

/-- The name of a level. -/
def LogLevel.display : LogLevel → String
  | warn => "WARN"
  | debug => "DEBUG"
  | trace => "TRACE"

/-- A message. -/
structure LogEntry where
  level : LogLevel
  message : String
deriving DecidableEq, Repr

/-- The size of a grammar. -/
def Grammar.logEntry (g : Grammar) : LogEntry where
  level := .debug
  message := "grammar: " ++ g.productions.length.repr ++ " productions, " ++
    g.terminals.size.repr ++ " terminals, " ++ g.nonterminals.size.repr ++ " nonterminals"

/-- The number of passes that the FIRST and FOLLOW sets of a grammar take. -/
def Sets.logEntry (g : Augmented) : LogEntry where
  level := .debug
  message := "FIRST/FOLLOW settled after " ++ (Sets.passes g).length.repr ++ " passes"

/-- The conflicts of an automaton, followed by its size. -/
def Automaton.log (g : Augmented) (a : Automaton) : List LogEntry :=
  a.conflicts.map (fun c => ⟨.warn, c.message g⟩) ++ [⟨.debug, "automaton: " ++
    a.states.length.repr ++ " states, " ++ a.conflicts.length.repr ++ " conflicts"⟩]

/-- The messages of the construction of a table. -/
def Build.log (b : Build) : List LogEntry :=
  b.source.logEntry :: Sets.logEntry b.grammar :: b.automaton.log b.grammar

/-- The size of a table that was written to a file. -/
def Table.logEntry (t : Table) (file : String) : LogEntry where
  level := .debug
  message := "wrote " ++ t.states.length.repr ++ " states, " ++ t.rules.length.repr ++
    " rules to " ++ Text.quoted file

/-- The number of terminals that a text was cut into. -/
def Tokenizer.logEntry (tokens : List String) : LogEntry where
  level := .debug
  message := "tokenized " ++ tokens.length.repr ++ " terminals"

/-- The start of a run. -/
def Session.logEntry : LogEntry := ⟨.debug, "session started"⟩

/-- The phase and the stack that it led to. -/
def Transition.log (t : Transition) : List LogEntry :=
  [⟨.trace, t.progress.describe⟩, ⟨.trace, t.context.dumpStack⟩]

end ShiftReduce
