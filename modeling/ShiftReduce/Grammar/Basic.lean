import ShiftReduce.Vocabulary

/-!
# Grammars

A grammar has two vocabularies, one of terminals and one of nonterminals, and a list of
productions over their numbers. The left-hand side of the first production is the start symbol.
-/

namespace ShiftReduce

/-- The terminal that marks the end of an input. -/
def endMarker : String := "$"

/-- A grammar symbol, by its number in its vocabulary. -/
inductive Symbol where
  | terminal (index : Nat)
  | nonterminal (index : Nat)
deriving DecidableEq, Repr

namespace Symbol

/-- The number of the terminal, for a terminal. -/
def terminal? : Symbol → Option Nat
  | terminal t => some t
  | nonterminal _ => none

/-- The number of the nonterminal, for a nonterminal. -/
def nonterminal? : Symbol → Option Nat
  | terminal _ => none
  | nonterminal n => some n

end Symbol

/-- The nonterminal `lhs` may be replaced by the symbols of `rhs`. -/
structure Production where
  lhs : Nat
  rhs : List Symbol
deriving DecidableEq, Repr

/-- Vocabularies and productions, at least one. -/
structure Grammar where
  terminals : Vocabulary
  nonterminals : Vocabulary
  productions : List Production
  productions_ne_nil : productions ≠ []
deriving DecidableEq

namespace Grammar

/-- The start symbol, which the first production defines. -/
def start (g : Grammar) : Nat := (g.productions.head g.productions_ne_nil).lhs

/-- The name of a symbol; a number outside its vocabulary shows as a question mark. -/
def name (g : Grammar) : Symbol → String
  | .terminal t => (g.terminals.name? t).getD "?"
  | .nonterminal n => (g.nonterminals.name? n).getD "?"

end Grammar

end ShiftReduce
