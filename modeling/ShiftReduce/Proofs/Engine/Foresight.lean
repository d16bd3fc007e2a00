import ShiftReduce.Proofs.Engine.Path
import ShiftReduce.Proofs.Grammar.Viable

/-!
# What a stack lets come

The paths through the automaton are the viable stacks: a viable stack is a path
(`Viable.exists_path`), and a path is viable along every item of its top state (`Path.itemViable`).
So a terminal that is shifted or accepted can come next (`Path.canFollow_of_shift`,
`Path.canFollow_of_accept`). Without conflicts what comes next behind a viable stack has an action,
and if it is a reduction then the terminal comes next behind the reduced stack as well.
-/

namespace ShiftReduce

open Context

variable {g : Grammar} {symbols rest : List Symbol} {frames : List Frame} {p : Production}
  {i j : Item} {s : Symbol} {t k : ℕ}

/-! ## Viable stacks are paths -/

namespace Viable

/-- A viable stack is a path through the automaton. -/
theorem exists_path (h : Viable g symbols rest) : ∃ frames, Path g symbols frames := by
  induction h with
  | whole =>
    have hstart : Item.start 0 ∈ g.automaton.itemsAt 0 :=
      Automaton.start_mem_itemsAt_zero g.productions_augment_ne_nil
    obtain ⟨q, hq, -⟩ := Automaton.exists_target? (s := .nonterminal g.start)
      g.productions_augment_ne_nil hstart rfl
    exact ⟨_, Path.nil.cons hq⟩
  | shift _ ih =>
    obtain ⟨_, hpath⟩ := ih
    cases hpath with
    | cons hpath _ => exact ⟨_, hpath⟩
  | reduce hp _ ih =>
    obtain ⟨_, hpath⟩ := ih
    obtain ⟨frames, hpath, -⟩ := hpath.expand hp
    exact ⟨frames, hpath⟩

/-- On the start symbol alone the end marker is accepted. -/
theorem action?_whole (hc : g.automaton.conflicts = [])
    (hpath : Path g [.nonterminal g.start] frames) :
    g.automaton.action? (topOf frames) g.augment.endMarker = some .accept := by
  cases hpath with
  | cons hpath hq =>
    cases hpath
    have hstart : Item.start 0 ∈ g.automaton.itemsAt 0 :=
      Automaton.start_mem_itemsAt_zero g.productions_augment_ne_nil
    obtain ⟨q', hq', hadvance⟩ := Automaton.exists_target? (s := .nonterminal g.start)
      g.productions_augment_ne_nil hstart rfl
    obtain rfl := Option.some.inj (hq.symm.trans hq')
    exact Automaton.action?_of_candidate hc (.accept hadvance rfl rfl rfl)

/-- A terminal that a viable stack can have on top is shifted. -/
theorem action?_shift (hc : g.automaton.conflicts = []) (hpath : Path g symbols frames)
    (h : Viable g (.terminal t :: symbols) rest) :
    ∃ q, g.automaton.target? (topOf frames) (.terminal t) = some q ∧
      g.automaton.action? (topOf frames) t = some (.shift q) := by
  -- the stack with the terminal on it is a path as well, and the same one up to there
  obtain ⟨_, hpath'⟩ := h.exists_path
  cases hpath' with
  | cons hpath' hq =>
    obtain rfl := hpath.frames_unique hpath'
    obtain ⟨i, hi, hnext⟩ := Automaton.exists_item_of_target? g.productions_augment_ne_nil hq
    exact ⟨_, hq, Automaton.action?_of_candidate hc (.shift hi hnext hq)⟩

/-- A production whose left-hand side a viable stack can have on top is reduced at the terminal that
comes next. -/
theorem action?_reduce (hg : g.WellFormed) (hc : g.automaton.conflicts = [])
    (hp : p ∈ g.productions) (hpath : Path g (p.rhs.reverse ++ symbols) frames)
    (h : Viable g (.nonterminal p.lhs :: symbols) rest) (ht : Begins g rest t) :
    ∃ k, g.augment.productions[k]? = some p ∧
      g.automaton.action? (topOf frames) t = some (.reduce k) := by
  obtain ⟨_, hpath'⟩ := h.exists_path
  obtain ⟨frames', hpath', k, hk, hpk, d, hnext, hi⟩ := hpath'.expand hp
  obtain rfl := hpath.frames_unique hpath'
  exact ⟨k, hpk, Automaton.action?_of_candidate hc (.reduce hi hnext hk hpk (h.mem_follow hg ht))⟩

end Viable

/-! ## Paths are viable stacks -/

/-- The stack is viable with what the item has behind its dot on it. -/
def ItemViable (g : Grammar) (symbols : List Symbol) (i : Item) : Prop :=
  ∃ p rest, g.augment.productions[i.production]? = some p ∧
    Viable g ((p.rhs.drop i.dot).reverse ++ symbols) rest

namespace ItemViable

/-- The start item goes on along the start symbol. -/
theorem start (g : Grammar) : ItemViable g [] (.start 0) := ⟨_, [], rfl, .whole⟩

/-- Moving the dot over a symbol puts the symbol on the stack. -/
theorem advance (h : ItemViable g symbols i) (hnext : i.next? g.augment.productions = some s) :
    ItemViable g (s :: symbols) i.advance := by
  obtain ⟨p, rest, hp, hviable⟩ := h
  obtain ⟨p', hp', hs⟩ := Item.next?_eq_some_iff.1 hnext
  obtain rfl := Option.some.inj (hp.symm.trans hp')
  obtain ⟨hlt, rfl⟩ := List.getElem?_eq_some_iff.1 hs
  rw [List.drop_eq_getElem_cons hlt, List.reverse_cons, List.append_assoc] at hviable
  exact ⟨p, rest, hp, hviable⟩

/-- The stack is viable itself. -/
theorem viable (h : ItemViable g symbols i) : ∃ rest, Viable g symbols rest := by
  obtain ⟨p, rest, -, hviable⟩ := h
  exact ⟨_, hviable.unshift⟩

/-- Where a nonterminal can come, what it is predicted to be can. -/
theorem predicted (hg : g.WellFormed) (h : ItemViable g symbols i)
    (hij : Kernel.Predicts g.augment.productions i j) : ItemViable g symbols j := by
  obtain ⟨p, hnext, hp, hdot⟩ := Kernel.predicts_iff.1 hij
  obtain ⟨rest, hviable⟩ := (h.advance hnext).viable
  -- no item waits for the synthetic start symbol, so the production is one of the grammar
  have hj : j.production ≠ 0 := by
    intro hzero
    have hstart : j = Item.start 0 := Item.ext hzero hdot
    exact hg.not_predicts_start i (hstart ▸ hij)
  refine ⟨p, rest, hp, ?_⟩
  rw [hdot, List.drop_zero]
  exact hviable.reduce (Grammar.mem_productions_of_augment hj hp)

/-- What is predicted from a viable item is viable. -/
theorem closure (hg : g.WellFormed) (h : ItemViable g symbols i)
    (hij : Relation.ReflTransGen (Kernel.Predicts g.augment.productions) i j) :
    ItemViable g symbols j := by
  induction hij with
  | refl => exact h
  | tail _ hjk ih => exact ih.predicted hg hjk

end ItemViable

namespace Path

/-- A path is viable along the items of its top state. -/
theorem itemViable (hg : g.WellFormed) (h : Path g symbols frames)
    (hi : i ∈ g.automaton.itemsAt (topOf frames)) : ItemViable g symbols i := by
  induction h generalizing i with
  | nil =>
    apply (ItemViable.start g).closure hg
    exact (Automaton.mem_itemsAt_zero_iff g.productions_augment_ne_nil).1 hi
  | cons _ hq ih =>
    obtain ⟨j, hj, hnext, hji⟩ :=
      (Automaton.mem_itemsAt_iff_of_target? g.productions_augment_ne_nil hq).1 hi
    exact ((ih hj).advance hnext).closure hg hji

/-- The stack of a path is a viable prefix. -/
theorem viable (hg : g.WellFormed) (h : Path g symbols frames) : ∃ rest, Viable g symbols rest := by
  obtain ⟨i, hi⟩ : ∃ i, i ∈ g.automaton.itemsAt (topOf frames) := by
    cases h with
    | nil => exact ⟨_, Automaton.start_mem_itemsAt_zero g.productions_augment_ne_nil⟩
    | cons _ hq =>
      obtain ⟨j, hj, hnext⟩ := Automaton.exists_item_of_target? g.productions_augment_ne_nil hq
      exact ⟨j.advance, (Automaton.mem_itemsAt_iff_of_target? g.productions_augment_ne_nil hq).2
        ⟨j, hj, hnext, .refl⟩⟩
  exact (h.itemViable hg hi).viable

/-! ## The terminals that come next -/

/-- A terminal that is shifted can come next. -/
theorem canFollow_of_shift {q : ℕ} (hg : g.WellFormed) (h : Path g symbols frames)
    (hact : g.automaton.action? (topOf frames) t = some (.shift q)) : CanFollow g symbols t := by
  cases Automaton.candidate_of_action? hact with
  | shift hi hnext _ =>
    obtain ⟨rest, hviable⟩ := ((h.itemViable hg hi).advance hnext).viable
    exact ⟨_, hviable.shift, .terminal t rest⟩

/-- A terminal at which a parse accepts can come next. -/
theorem canFollow_of_accept (hg : g.WellFormed) (h : Path g symbols frames)
    (hact : g.automaton.action? (topOf frames) t = some .accept) : CanFollow g symbols t := by
  cases Automaton.candidate_of_action? hact with
  | @accept i hi hnext hzero ht =>
    obtain ⟨k, d⟩ := i
    obtain rfl : k = 0 := hzero
    obtain ⟨below, rfl, hbelow⟩ := h.handle rfl hnext hi
    have hdrop := h.drop
    rw [List.length_reverse] at hdrop
    obtain rfl := hdrop.eq_nil_of_start_zero hg hbelow
    rw [ht]
    exact ⟨[], .whole, .endMarker⟩

end Path

end ShiftReduce
