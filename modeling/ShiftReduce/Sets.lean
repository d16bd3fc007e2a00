import ShiftReduce.Grammar.Augmented
import ShiftReduce.Ordered.Set

/-!
# FIRST and FOLLOW sets

FIRST of a nonterminal holds the terminals that can begin what it derives, and tells whether it
derives the empty sequence. FOLLOW of a nonterminal holds the terminals that can stand right after
it. Both grow from almost nothing: one pass goes over all productions for FIRST and then over all
productions for FOLLOW, each time using what the pass has found so far, and passes are repeated
until one finds nothing new.
-/

namespace ShiftReduce

/-- What can begin a sequence of symbols. -/
@[ext] structure FirstSet where
  terminals : OrderedSet Nat
  /-- The sequence derives the empty sequence. -/
  nullable : Bool
deriving DecidableEq

namespace FirstSet

instance : EmptyCollection FirstSet := ⟨⟨∅, false⟩⟩

/-- The set with another one merged into it. -/
def merge (s t : FirstSet) : FirstSet := ⟨s.terminals ∪ t.terminals, s.nullable || t.nullable⟩

/-- Something in `t` is missing from `s`. -/
def lacks (s t : FirstSet) : Bool :=
  s.terminals.size != (s.terminals ∪ t.terminals).size || t.nullable && !s.nullable

end FirstSet

/-- FIRST and FOLLOW of every nonterminal, by its number. -/
@[ext] structure Sets where
  first : List FirstSet
  follow : List (OrderedSet Nat)
deriving DecidableEq

namespace Sets

/-- FIRST of a nonterminal. -/
def firstAt (s : Sets) (n : Nat) : FirstSet := s.first[n]?.getD ∅

/-- FOLLOW of a nonterminal. -/
def followAt (s : Sets) (n : Nat) : OrderedSet Nat := s.follow[n]?.getD ∅

/-- FIRST of a sequence of symbols. -/
def firstOf (s : Sets) : List Symbol → FirstSet
  | [] => ⟨∅, true⟩
  | .terminal t :: _ => ⟨{t}, false⟩
  | .nonterminal n :: rest =>
    if (s.firstAt n).nullable then
      let f := s.firstOf rest
      ⟨(s.firstAt n).terminals ∪ f.terminals, f.nullable⟩
    else ⟨(s.firstAt n).terminals, false⟩

/-- Every nonterminal that decides FIRST of the sequence has a number in range. -/
def covers (s : Sets) : List Symbol → Bool
  | [] => true
  | .terminal _ :: _ => true
  | .nonterminal n :: rest => n < s.first.length && (!(s.firstAt n).nullable || s.covers rest)

/-- FIRST of a sequence, if the nonterminals that decide it have numbers in range. -/
def firstOf? (s : Sets) (symbols : List Symbol) : Option FirstSet :=
  if s.covers symbols then some (s.firstOf symbols) else none

/-- Empty sets, except that the end marker follows the synthetic start symbol. -/
def initial (g : Augmented) : Sets :=
  let n := g.nonterminals.size
  { first := List.replicate n ∅
    follow := (List.replicate n ∅).set g.start {g.endMarker} }

/-- FIRST of the left-hand side of a production, enlarged by FIRST of its right-hand side; the
flag tells whether it was enlarged. -/
def growFirst (s : Sets) (p : Production) : Sets × Bool :=
  let rhs := s.firstOf p.rhs
  let lhs := s.firstAt p.lhs
  ({ s with first := s.first.set p.lhs (lhs.merge rhs) }, lhs.lacks rhs)

/-- FOLLOW of the nonterminals of a right-hand side of `lhs`, enlarged by what can stand after
them; the flag tells whether one was enlarged. -/
def growFollow (lhs : Nat) (s : Sets) : List Symbol → Sets × Bool
  | [] => (s, false)
  | .terminal _ :: rest => growFollow lhs s rest
  | .nonterminal n :: rest =>
    let after := s.firstOf rest
    let added := if after.nullable then after.terminals ∪ s.followAt lhs else after.terminals
    let old := s.followAt n
    let new := old ∪ added
    let (s, grew) := growFollow lhs { s with follow := s.follow.set n new } rest
    (s, old.size != new.size || grew)

/-- One step after another over the productions; the flag tells whether any step grew a set. -/
def sweep (step : Sets → Production → Sets × Bool) (s : Sets) : List Production → Sets × Bool
  | [] => (s, false)
  | p :: ps =>
    let (s, grew) := step s p
    let (s, grewLater) := sweep step s ps
    (s, grew || grewLater)

/-- One pass for FIRST and one for FOLLOW; the flag tells whether any set grew. -/
def grow (g : Augmented) (s : Sets) : Sets × Bool :=
  let (s, grewFirst) := sweep growFirst s g.productions
  let (s, grewFollow) := sweep (fun s p => growFollow p.lhs s p.rhs) s g.productions
  (s, grewFirst || grewFollow)

/-- The results of the passes from `s` on, up to the first that grows nothing. -/
def passesFrom (g : Augmented) : Nat → Sets → List (Sets × Bool)
  | 0, _ => []
  | fuel + 1, s =>
    let (s, grew) := grow g s
    (s, grew) :: if grew then passesFrom g fuel s else []

/-- The number of passes that always suffice: every pass but the last adds a terminal to a set or
finds a nonterminal nullable. -/
def passBound (g : Augmented) : Nat := g.nonterminals.size * (2 * g.terminals.size + 1) + 1

/-- The results of all passes from the initial sets on. -/
def passes (g : Augmented) : List (Sets × Bool) := passesFrom g (passBound g) (initial g)

/-- The sets that a pass no longer changes. -/
def solve (g : Augmented) : Sets := ((passes g).getLast?.map (·.1)).getD (initial g)

end Sets

end ShiftReduce
