import ShiftReduce.Grammar.Basic

/-!
# Augmented grammars

Table construction works on a grammar with a production `S' → S` put in front of the others and
with the end marker among its terminals. The new start symbol is named after the old one with as
many primes as make it new.
-/

namespace ShiftReduce

/-- A grammar with the production `start → S` in front and the end marker among its terminals. -/
structure Augmented where
  grammar : Grammar
  /-- The synthetic start symbol. -/
  start : Nat
  /-- The number of the end marker. -/
  endMarker : Nat

namespace Augmented

/-- The productions, the synthetic one first. -/
def productions (g : Augmented) : List Production := g.grammar.productions

/-- The terminals, the end marker among them. -/
def terminals (g : Augmented) : Vocabulary := g.grammar.terminals

/-- The nonterminals, the synthetic start symbol among them. -/
def nonterminals (g : Augmented) : Vocabulary := g.grammar.nonterminals

/-- The name of a symbol. -/
def name (g : Augmented) (s : Symbol) : String := g.grammar.name s

/-- The symbols of a right-hand side with a dot before the one at place `dot`. -/
def dotted (g : Augmented) : List Symbol → Option Nat → String
  | [], some 0 => " ."
  | [], _ => ""
  | s :: rest, some 0 => " . " ++ g.name s ++ g.dotted rest none
  | s :: rest, dot => " " ++ g.name s ++ g.dotted rest (dot.map (· - 1))

/-- A production as text, with a dot in its right-hand side if one is given. -/
def displayProduction (g : Augmented) (p : Production) (dot : Option Nat) : String :=
  g.name (.nonterminal p.lhs) ++ " ->" ++ g.dotted p.rhs dot

/-- The production with a number as text; there is none outside the list of productions. -/
def display? (g : Augmented) (prod : Nat) (dot : Option Nat) : Option String :=
  g.productions[prod]?.map (g.displayProduction · dot)

end Augmented

/-- The name followed by `n` primes. -/
def primed (name : String) (n : Nat) : String :=
  name ++ String.ofList (List.replicate n '\'')

/-- The name with the fewest primes, at least one, that make it new. -/
def freshName (used : List String) (name : String) : String :=
  let candidates := (List.range (used.length + 1)).map fun k => primed name (k + 1)
  (candidates.find? (!used.contains ·)).getD (primed name (used.length + 2))

/-- The grammar with a synthetic start production and the end marker. -/
def Grammar.augment (g : Grammar) : Augmented :=
  let original := g.start
  let fresh := freshName g.nonterminals.names (g.name (.nonterminal original))
  let nonterminals := g.nonterminals.add fresh
  let terminals := g.terminals.add ShiftReduce.endMarker
  let start := nonterminals.idx fresh
  { grammar := {
      terminals, nonterminals
      productions := ⟨start, [.nonterminal original]⟩ :: g.productions
      productions_ne_nil := List.cons_ne_nil _ _ }
    start
    endMarker := terminals.idx ShiftReduce.endMarker }

end ShiftReduce
