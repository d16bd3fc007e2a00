import ShiftReduce.Grammar.Augmented
import ShiftReduce.Ordered.Set

/-!
# Items, closure and transition

An item is a production with a dot in its right-hand side: what stands before the dot has been
recognized. A kernel is a set of items from which a state is made; its closure adds the items that
begin what may come next, and its transition on a symbol moves the dot over that symbol.
-/

namespace ShiftReduce

/-- A production, by its number, with a dot before the symbol at a place. -/
@[ext] structure Item where
  production : Nat
  dot : Nat
deriving DecidableEq, Repr

/-- Items come in the order of their productions and then of their dots. -/
instance : Ord Item := ⟨compareLex (compareOn Item.production) (compareOn Item.dot)⟩

instance : Std.TransOrd Item :=
  inferInstanceAs (Std.TransCmp (compareLex (compareOn Item.production) (compareOn Item.dot)))

instance : Std.LawfulEqOrd Item where
  eq_of_compare {a b} h := by
    have h : ((compare a.production b.production).then (compare a.dot b.dot)) = .eq := h
    rw [Ordering.then_eq_eq] at h
    exact Item.ext (Std.LawfulEqOrd.eq_of_compare h.1) (Std.LawfulEqOrd.eq_of_compare h.2)

/-- The items that a state is made from. -/
abbrev Kernel := OrderedSet Item

namespace Item

/-- The right-hand side that the item is about. -/
def rhs (ps : List Production) (i : Item) : List Symbol :=
  (ps[i.production]?.map (·.rhs)).getD []

/-- The symbol after the dot. -/
def next? (ps : List Production) (i : Item) : Option Symbol := (i.rhs ps)[i.dot]?

/-- The dot stands at the end, or beyond it. -/
def isComplete (ps : List Production) (i : Item) : Bool := (i.rhs ps).length ≤ i.dot

/-- The item with its dot one place further. -/
def advance (i : Item) : Item := { i with dot := i.dot + 1 }

/-- The item that begins a production. -/
def start (production : Nat) : Item := ⟨production, 0⟩

/-- No symbol stands behind the dot of a complete item. -/
theorem next?_eq_none_iff {ps : List Production} {i : Item} :
    i.next? ps = none ↔ i.isComplete ps = true := by
  simp [next?, isComplete]

end Item

namespace Kernel

/-- The items that begin the productions of the nonterminal after the dot, in order. -/
def predicted (ps : List Production) (i : Item) : List Item :=
  match i.next? ps with
  | some (.nonterminal n) =>
    ((List.range ps.length).filter fun j => ps[j]?.any (·.lhs == n)).map Item.start
  | _ => []

/-- The closure when the items `done` have been looked at and those `pending` have not. Each step
of `fuel` looks at one item and puts the items it predicts, where they are new, behind the
pending ones. -/
def closeFrom (ps : List Production) : Nat → List Item → List Item → List Item
  | 0, done, pending => done ++ pending
  | _ + 1, done, [] => done
  | fuel + 1, done, i :: pending =>
    let new := (predicted ps i).filter (!(done ++ i :: pending).contains ·)
    closeFrom ps fuel (done ++ [i]) (pending ++ new)

/-- The items of a kernel, followed by the items that begin what may come next, in the order in
which they are found. -/
def closure (ps : List Production) (k : Kernel) : List Item :=
  closeFrom ps (k.size + ps.length) [] k.members

/-- The items of a state that wait for a symbol, each with its dot moved over it. -/
def advance (ps : List Production) (items : List Item) (s : Symbol) : Kernel :=
  .ofList ((items.filter fun i => i.next? ps == some s).map Item.advance)

/-- The productions of all items of the kernel are in range. -/
def inRange (ps : List Production) (k : Kernel) : Bool :=
  k.members.all fun i => i.production < ps.length

/-- The closure of a kernel whose productions are all in range. -/
def closure? (ps : List Production) (k : Kernel) : Option (List Item) :=
  if k.inRange ps then some (k.closure ps) else none

end Kernel

end ShiftReduce
