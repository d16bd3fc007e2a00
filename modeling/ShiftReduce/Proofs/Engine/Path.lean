import ShiftReduce.Engine.Instruction
import ShiftReduce.Proofs.Automaton.Acceptance

/-!
# Stacks as paths through the automaton

The stack of a parse is a path from state 0: each symbol on it is a transition from the state below
to the state above. What an item of the top state has before its dot then lies on top of the stack
(`Path.item`), and the path can be continued along what the item has behind its dot
(`Path.complete`).
-/

namespace ShiftReduce

open Context

namespace Augmented

variable {g : Augmented} {s : Symbol}

/-- The form in which a symbol stands on the stack. -/
def stackSymbol (g : Augmented) : Symbol → StackSymbol
  | .terminal t => .token (g.name (.terminal t))
  | .nonterminal n => .marker (g.name (.nonterminal n))

/-- The symbol that a stack symbol names. -/
def symbolOf? (g : Augmented) : StackSymbol → Option Symbol
  | .token a => (g.terminals.idx? a).map .terminal
  | .marker a => (g.nonterminals.idx? a).map .nonterminal

/-- A symbol has the same name on the stack as in the grammar. -/
@[simp] theorem name_stackSymbol (g : Augmented) (s : Symbol) :
    (g.stackSymbol s).name = g.name s := by
  cases s <;> rfl

/-- A symbol can be read back from its name. -/
theorem symbolOf?_stackSymbol (h : g.grammar.InRange s) :
    g.symbolOf? (g.stackSymbol s) = some s := by
  cases s with
  | terminal t =>
    have ht := Vocabulary.idx?_eq_some_iff.2 (Grammar.name?_of_inRange_terminal h)
    exact congrArg (Option.map Symbol.terminal) ht
  | nonterminal n =>
    have hn := Vocabulary.idx?_eq_some_iff.2 (Grammar.name?_of_inRange_nonterminal h)
    exact congrArg (Option.map Symbol.nonterminal) hn

end Augmented

/-- The frames spell the symbols, latest first, and lead along transitions of the automaton. -/
inductive Path (g : Grammar) : List Symbol → List Frame → Prop
  | nil : Path g [] []
  | cons {symbols : List Symbol} {frames : List Frame} {s : Symbol} {q : ℕ}
      (h : Path g symbols frames) (hq : g.automaton.target? (topOf frames) s = some q) :
      Path g (s :: symbols) (⟨g.augment.stackSymbol s, q⟩ :: frames)

namespace Path

variable {g : Grammar} {symbols symbols' : List Symbol} {frames frames' : List Frame} {k d : ℕ}
  {p : Production} {i : Item}

/-- The symbols determine the states. -/
theorem frames_unique (h : Path g symbols frames) (h' : Path g symbols frames') :
    frames = frames' := by
  induction h generalizing frames' with
  | nil =>
    cases h'
    rfl
  | cons _ hq ih =>
    cases h' with
    | cons h' hq' =>
      obtain rfl := ih h'
      obtain rfl := Option.some.inj (hq.symm.trans hq')
      rfl

/-- The frames determine the symbols. -/
theorem symbols_unique (hg : g.WellFormed) (h : Path g symbols frames)
    (h' : Path g symbols' frames) : symbols = symbols' := by
  induction h generalizing symbols' with
  | nil =>
    cases h'
    rfl
  | @cons _ _ s q h hq ih =>
    generalize hf : (⟨g.augment.stackSymbol s, q⟩ : Frame) = f at h'
    -- the frame was pushed for one symbol only, the one that its name stands for
    cases h' with
    | @cons _ _ s' _ h' hq' =>
      have hs := Augmented.symbolOf?_stackSymbol (Build.inRange_of_target? hg hq).augment
      have hs' := Augmented.symbolOf?_stackSymbol (Build.inRange_of_target? hg hq').augment
      have hsymbol : g.augment.stackSymbol s = g.augment.stackSymbol s' := congrArg Frame.symbol hf
      rw [hsymbol, hs'] at hs
      rw [ih h', Option.some.inj hs]

/-- The frames spell the names of the symbols. -/
theorem map_name (h : Path g symbols frames) :
    frames.map (·.symbol.name) = symbols.map g.augment.name := by
  induction h with
  | nil => rfl
  | cons _ _ ih => rw [List.map_cons, List.map_cons, ih, Augmented.name_stackSymbol]

/-- The state on top of a path is one of the automaton. -/
theorem top_lt (h : Path g symbols frames) : topOf frames < g.automaton.states.length := by
  cases h with
  | nil => exact Automaton.zero_lt_length_states g.productions_augment_ne_nil
  | cons _ hq => exact Automaton.lt_of_target? g.productions_augment_ne_nil hq

/-- What is left when the upper symbols of a path are popped is a path. -/
theorem drop {before : List Symbol} (h : Path g (before ++ symbols) frames) :
    Path g symbols (frames.drop before.length) := by
  induction before generalizing frames with
  | nil => exact h
  | cons s before ih =>
    cases h with
    | cons h hq => exact ih h

/-! ## Items of the top state -/

/-- An item of the top state with its dot at the start is the start item at the bottom of the stack
or is predicted. -/
theorem start_or_predicted (h : Path g symbols frames)
    (hi : Item.start k ∈ g.automaton.itemsAt (topOf frames)) :
    (k = 0 ∧ symbols = []) ∨ ∃ j ∈ g.automaton.itemsAt (topOf frames),
      Kernel.Predicts g.augment.productions j (Item.start k) := by
  cases h with
  | nil =>
    rcases Automaton.mem_itemsAt_zero g.productions_augment_ne_nil hi with hi | hi
    · exact .inl ⟨congrArg Item.production hi, rfl⟩
    · exact .inr hi
  | cons h hq =>
    rcases Automaton.mem_itemsAt_of_target? g.productions_augment_ne_nil hq hi with
      ⟨j, -, -, hj⟩ | hi
    · exact absurd (congrArg Item.dot hj) (Nat.succ_ne_zero _)
    · exact .inr hi

/-- What an item of the top state has before its dot lies on top of the stack, and the state below
it begins the production. -/
theorem item (h : Path g symbols frames) (hp : g.augment.productions[k]? = some p)
    (hi : ⟨k, d⟩ ∈ g.automaton.itemsAt (topOf frames)) :
    d ≤ p.rhs.length ∧ ∃ below, symbols = (p.rhs.take d).reverse ++ below ∧
      Item.start k ∈ g.automaton.itemsAt (topOf (frames.drop d)) := by
  -- move the dot back over the top of the stack, one symbol at a time
  induction d generalizing symbols frames with
  | zero => exact ⟨Nat.zero_le _, symbols, rfl, hi⟩
  | succ d ih =>
    cases h with
    | nil =>
      rcases Automaton.mem_itemsAt_zero g.productions_augment_ne_nil hi with hi | ⟨j, -, hj⟩
      · exact absurd (congrArg Item.dot hi) (Nat.succ_ne_zero d)
      · exact absurd hj.dot_eq_zero (Nat.succ_ne_zero d)
    | @cons symbols frames s q h hq =>
      rcases Automaton.mem_itemsAt_of_target? g.productions_augment_ne_nil hq hi with
        ⟨j, hj, hs, hadv⟩ | ⟨j, -, hj⟩
      · -- a dot behind a symbol was moved there by the transition on it
        have hproduction : j.production = k := congrArg Item.production hadv
        have hdot : j.dot + 1 = d + 1 := congrArg Item.dot hadv
        obtain rfl : j = ⟨k, d⟩ := Item.ext hproduction (Nat.succ.inj hdot)
        obtain ⟨-, below, rfl, hbelow⟩ := ih h hj
        obtain ⟨p', hp', hs⟩ := Item.next?_eq_some_iff.1 hs
        obtain rfl := Option.some.inj (hp.symm.trans hp')
        refine ⟨(List.getElem?_eq_some_iff.1 hs).1, below, ?_, hbelow⟩
        simp [List.take_add_one, hs]
      · exact absurd hj.dot_eq_zero (Nat.succ_ne_zero d)

/-- A complete item of the top state has its right-hand side on top of the stack. -/
theorem handle (h : Path g symbols frames) (hp : g.augment.productions[k]? = some p)
    (hnext : (⟨k, d⟩ : Item).next? g.augment.productions = none)
    (hi : ⟨k, d⟩ ∈ g.automaton.itemsAt (topOf frames)) :
    ∃ below, symbols = p.rhs.reverse ++ below ∧
      Item.start k ∈ g.automaton.itemsAt (topOf (frames.drop p.rhs.length)) := by
  obtain ⟨hle, below, hsymbols, hbelow⟩ := h.item hp hi
  obtain rfl : d = p.rhs.length := by
    apply Nat.le_antisymm hle
    simpa [Item.next?, Item.rhs, hp] using hnext
  rw [List.take_length] at hsymbols
  exact ⟨below, hsymbols, hbelow⟩

/-- The stack goes on along what an item of the top state has behind its dot. -/
theorem complete (h : Path g symbols frames) (hp : g.augment.productions[k]? = some p)
    (hi : ⟨k, d⟩ ∈ g.automaton.itemsAt (topOf frames)) :
    ∃ frames', Path g ((p.rhs.drop d).reverse ++ symbols) frames' ∧
      ∃ d', (⟨k, d'⟩ : Item).next? g.augment.productions = none ∧
        ⟨k, d'⟩ ∈ g.automaton.itemsAt (topOf frames') := by
  -- by induction on what the dot has still to pass
  induction hn : p.rhs.length - d generalizing symbols frames d with
  | zero =>
    have hd : p.rhs.length ≤ d := Nat.sub_eq_zero_iff_le.1 hn
    refine ⟨frames, ?_, d, ?_, hi⟩
    · rwa [List.drop_eq_nil_of_le hd]
    · simp [Item.next?, Item.rhs, hp, hd]
  | succ n ih =>
    have hd : d < p.rhs.length := by omega
    have hnext : (⟨k, d⟩ : Item).next? g.augment.productions = some p.rhs[d] :=
      Item.next?_eq_some_iff.2 ⟨p, hp, List.getElem?_eq_getElem hd⟩
    obtain ⟨q, hq, hadv⟩ := Automaton.exists_target? g.productions_augment_ne_nil hi hnext
    have hadv : (⟨k, d + 1⟩ : Item) ∈ g.automaton.itemsAt q := hadv
    obtain ⟨frames', hpath, hitem⟩ := ih (h.cons hq) hadv (by omega)
    refine ⟨frames', ?_, hitem⟩
    rw [List.drop_eq_getElem_cons hd, List.reverse_cons, List.append_assoc]
    exact hpath

/-- Where a nonterminal can stand, the right-hand side of each of its productions can. -/
theorem expand (h : Path g (.nonterminal p.lhs :: symbols) frames) (hp : p ∈ g.productions) :
    ∃ frames', Path g (p.rhs.reverse ++ symbols) frames' ∧
      ∃ k ≠ 0, g.augment.productions[k]? = some p ∧
        ∃ d, (⟨k, d⟩ : Item).next? g.augment.productions = none ∧
          ⟨k, d⟩ ∈ g.automaton.itemsAt (topOf frames') := by
  obtain ⟨k, hk⟩ := List.mem_iff_getElem?.1 hp
  have hk' : g.augment.productions[k + 1]? = some p := hk
  cases h with
  | cons h hq =>
    -- what waits for the nonterminal predicts the production
    obtain ⟨i, hi, hnext⟩ := Automaton.exists_item_of_target? g.productions_augment_ne_nil hq
    have hstart := Automaton.mem_itemsAt_of_predicts hi (Kernel.predicts_start hnext hk')
    obtain ⟨frames', hpath, hcomplete⟩ := h.complete hk' hstart
    exact ⟨frames', hpath, k + 1, Nat.succ_ne_zero k, hk', hcomplete⟩

/-- Below a right-hand side there is a transition on the left-hand side. -/
theorem exists_target? (h : Path g symbols frames) (hk : k ≠ 0)
    (hp : g.augment.productions[k]? = some p)
    (hi : Item.start k ∈ g.automaton.itemsAt (topOf frames)) :
    ∃ q, g.automaton.target? (topOf frames) (.nonterminal p.lhs) = some q := by
  rcases h.start_or_predicted hi with ⟨hzero, -⟩ | ⟨j, hj, hpred⟩
  · exact absurd hzero hk
  · obtain ⟨p', hnext, hp', -⟩ := Kernel.predicts_iff.1 hpred
    obtain rfl := Option.some.inj (hp.symm.trans hp')
    obtain ⟨q, hq, -⟩ := Automaton.exists_target? g.productions_augment_ne_nil hj hnext
    exact ⟨q, hq⟩

/-- The start item stands in the bottom state only. -/
theorem eq_nil_of_start_zero (hg : g.WellFormed) (h : Path g symbols frames)
    (hi : Item.start 0 ∈ g.automaton.itemsAt (topOf frames)) : symbols = [] := by
  rcases h.start_or_predicted hi with ⟨-, hnil⟩ | ⟨j, -, hpred⟩
  · exact hnil
  · exact absurd hpred (hg.not_predicts_start j)

end Path

end ShiftReduce
