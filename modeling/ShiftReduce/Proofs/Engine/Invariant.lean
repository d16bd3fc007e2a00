import Mathlib.Data.List.Forall2
import ShiftReduce.Proofs.Engine.Phases
import ShiftReduce.Proofs.Engine.Runs

/-!
# What holds throughout a parse

Between any two phases of a parse on a generated table the stack is a path through the automaton,
the trees derive what its symbols stand for, and what they derive is the input that has been read.
A reduction is between its phases twice: when a rule was chosen, its right-hand side lies on the
stack, and when that was popped, the tree of the left-hand side is there while its symbol is not.
`Upheld.tick` says that a phase keeps all this, whether it succeeds or not, and that it fails
only because of the input.
-/

namespace ShiftReduce

/-- An error that blames the input and not the table. -/
inductive ParseError.Refusal : ParseError → Prop
  | unresolvedAction (state : ℕ) (symbol : String) (expected : List String) :
      Refusal (.unresolvedAction state symbol expected)
  | inputExhausted : Refusal .inputExhausted
  | trailingInput (count : ℕ) : Refusal (.trailingInput count)
  | finished : Refusal .finished

namespace Context

/-- The place within an instruction, with the symbols whose trees are built but which are not on the
stack yet, and the tokens that acceptance takes off the input. -/
inductive Standing (g : Grammar) (c : Context) : List Symbol → List String → Prop
  | awaiting (hphase : c.phase = .awaiting) : Standing g c [] []
  | matching {k d : ℕ} {p : Production} (hphase : c.phase = .matching k) (hk : k ≠ 0)
      (hp : g.augment.productions[k]? = some p)
      (hnext : (⟨k, d⟩ : Item).next? g.augment.productions = none)
      (hi : ⟨k, d⟩ ∈ g.automaton.itemsAt c.top) : Standing g c [] []
  | resolving {k : ℕ} {p : Production} (hphase : c.phase = .resolving k) (hk : k ≠ 0)
      (hp : g.augment.productions[k]? = some p)
      (hi : Item.start k ∈ g.automaton.itemsAt c.top) : Standing g c [.nonterminal p.lhs] []
  | done {d : ℕ} (hphase : c.phase = .done) (hinput : c.input = [])
      (hnext : (⟨0, d⟩ : Item).next? g.augment.productions = none)
      (hi : ⟨0, d⟩ ∈ g.automaton.itemsAt c.top) : Standing g c [] [endMarker]

/-- What holds of a parse of `ts` between any two of its phases. -/
structure Invariant (g : Grammar) (name : Option String) (ts : List String) (c : Context)
    (symbols pending : List Symbol) (spent : List String) : Prop where
  table_eq : c.table = (Build.ofGrammar g name).table
  path : Path g symbols c.frames
  standing : Standing g c pending spent
  trees : List.Forall₂ (Tree.Spells g) (pending ++ symbols) c.subtrees
  tokens : Tree.forestYield c.forest ++ c.remaining ++ spent = ts
  shifts : c.stats.shifts = (Tree.forestYield c.forest).length
  reductions : c.stats.reductions + pending.length = Tree.forestExpansions c.forest

/-- The invariant holds of the context, for some stack. -/
def Upheld (g : Grammar) (name : Option String) (ts : List String) (c : Context) : Prop :=
  ∃ symbols pending spent, Invariant g name ts c symbols pending spent

/-- The number of phases that an instruction needs at most. -/
def phasesLeft : Phase → ℕ
  | .awaiting => 3
  | .matching _ => 2
  | .resolving _ => 1
  | .done => 1

/-- The outcome of a phase keeps the invariant, blames at most the input, and comes closer to the
end of the instruction. -/
structure Kept (g : Grammar) (name : Option String) (ts : List String) (c : Context)
    (outcome : Outcome Progress) : Prop where
  upheld : Upheld g name ts outcome.2
  refusal : ∀ e, outcome.1 = .error e → e.Refusal
  phasesLeft_lt : ∀ progress, outcome.1 = .ok progress → progress.completed = none →
    phasesLeft outcome.2.phase < phasesLeft c.phase

variable {g : Grammar} {name : Option String} {ts : List String} {c : Context}
  {symbols pending : List Symbol} {spent : List String}

/-- A parse begins with an empty stack. -/
theorem invariant_new (g : Grammar) (name : Option String) (ts : List String) :
    Invariant g name ts (new (Build.ofGrammar g name).table ts) [] [] [] where
  table_eq := rfl
  path := .nil
  standing := .awaiting rfl
  trees := .nil
  tokens := (List.append_nil _).trans (remaining_new _ _)
  shifts := by simp [forest, new, Tree.forestYield]
  reductions := by simp [forest, new, Tree.forestExpansions]

/-- There is a tree for each symbol of the stack. -/
theorem Invariant.length_eq (h : Invariant g name ts c symbols [] spent) :
    c.subtrees.length = symbols.length :=
  h.trees.length_eq.symm

/-! ## The first phase -/

/-- Looking at the next token changes nothing that the invariant is about. -/
theorem Invariant.look {t : InputToken} {rest : List InputToken} {phase : Phase}
    (h : Invariant g name ts c symbols [] []) (hinput : c.input = t :: rest)
    (hstanding : Standing g
      { c with input := { t with inspected := true } :: rest, phase := phase } [] []) :
    Invariant g name ts { c with input := { t with inspected := true } :: rest, phase := phase }
      symbols [] [] where
  table_eq := h.table_eq
  path := h.path
  standing := hstanding
  trees := h.trees
  tokens := by
    rw [← h.tokens, remaining, remaining, hinput]
    rfl
  shifts := h.shifts
  reductions := h.reductions

/-- A shift pushes a token with its leaf. -/
theorem Invariant.shift (hg : g.WellFormed) {t : InputToken} {rest : List InputToken} {n q : ℕ}
    (h : Invariant g name ts c symbols [] []) (hphase : c.phase = .awaiting)
    (hinput : c.input = t :: rest) (hn : g.augment.name (.terminal n) = t.symbol)
    (hq : g.automaton.target? c.top (.terminal n) = some q) :
    Invariant g name ts { c with
      input := rest
      frames := ⟨.token t.symbol, q⟩ :: c.frames
      subtrees := .leaf t.symbol :: c.subtrees
      stats := countShift c.stats } (.terminal n :: symbols) [] [] := by
  have hrange : g.InRange (.terminal n) := Build.inRange_of_target? hg hq
  have hname : t.symbol = g.name (.terminal n) := hn.symm.trans (Grammar.name_augment hrange)
  have hyield : Tree.yield (.leaf t.symbol) = [t.symbol] := by
    rw [hname, Tree.yield_leaf_name hg hrange]
  have hexpansions : Tree.expansions (.leaf t.symbol) = 0 := by
    rw [hname, Tree.expansions_leaf_name hg hrange]
  refine ⟨h.table_eq, ?_, .awaiting hphase, ?_, ?_, ?_, ?_⟩
  · rw [← hn]
    exact h.path.cons hq
  · rw [hname]
    exact .cons (Tree.spells_leaf hrange) h.trees
  · rw [← h.tokens]
    simp [forest, remaining, hinput, hyield]
  · have := h.shifts
    simp only [forest] at this
    simp [forest, countShift, hyield, this]
  · have := h.reductions
    simp only [forest] at this
    simp [forest, countShift, hexpansions, ← this]

/-- At the end marker the complete start item takes the last token off the input. -/
theorem Invariant.accept {t : InputToken} {n d : ℕ} (h : Invariant g name ts c symbols [] [])
    (hinput : c.input = [t]) (hn : g.augment.name (.terminal n) = t.symbol)
    (hend : n = g.augment.endMarker)
    (hnext : (⟨0, d⟩ : Item).next? g.augment.productions = none)
    (hi : ⟨0, d⟩ ∈ g.automaton.itemsAt c.top) :
    Invariant g name ts { c with input := [], phase := .done } symbols [] [endMarker] where
  table_eq := h.table_eq
  path := h.path
  standing := .done rfl rfl hnext hi
  trees := h.trees
  tokens := by
    have hsymbol : t.symbol = endMarker := by rw [← hn, hend, Grammar.name_endMarker]
    rw [← h.tokens]
    simp [forest, remaining, hinput, hsymbol]
  shifts := h.shifts
  reductions := h.reductions

/-- The first phase of an instruction keeps the invariant and can only blame the input. -/
theorem Invariant.kept_dispatch (hg : g.WellFormed) (h : Invariant g name ts c symbols [] [])
    (hphase : c.phase = .awaiting) : Kept g name ts c c.dispatch := by
  have hdispatched := dispatched hg h.table_eq h.path.top_lt
  generalize c.dispatch = outcome at hdispatched ⊢
  cases hdispatched with
  | exhausted hinput =>
    refine ⟨⟨_, _, _, h⟩, ?_, by simp⟩
    rintro _ ⟨⟩
    exact .inputExhausted
  | rejected hinput hact =>
    refine ⟨⟨_, _, _, h.look hinput (.awaiting hphase)⟩, ?_, by simp⟩
    rintro _ ⟨⟩
    exact .unresolvedAction ..
  | trailing hinput hn hact =>
    refine ⟨⟨_, _, _, h.look hinput (.awaiting hphase)⟩, ?_, by simp⟩
    rintro _ ⟨⟩
    exact .trailingInput _
  | accepted hinput hn hact =>
    cases Automaton.candidate_of_action? hact with
    | @accept i hi hnext hzero hend =>
      obtain ⟨production, dot⟩ := i
      obtain rfl : production = 0 := hzero
      exact ⟨⟨_, _, _, h.accept hinput hn hend hnext hi⟩, by simp, by simp [Progress.completed]⟩
  | shifted hinput hn hact =>
    have hshift := h.shift hg hphase hinput hn (target?_of_shift hact)
    exact ⟨⟨_, _, _, hshift⟩, by simp, by simp [Progress.completed]⟩
  | @reducing t rest n k hinput hn hact =>
    obtain ⟨hk, p, hp, d, hnext, hi⟩ := exists_production_of_reduce hact
    refine ⟨⟨_, _, _, h.look hinput (.matching rfl hk hp hnext hi)⟩, by simp, ?_⟩
    intro _ _ _
    rw [hphase]
    show 2 < 3
    omega

/-! ## The other phases -/

/-- The trees of a right-hand side become the children of one tree. -/
theorem forall₂_node {p : Production} (hp : p ∈ g.productions) {below : List Symbol}
    {children trees : List Tree} (hlen : children.length = p.rhs.length)
    (h : List.Forall₂ (Tree.Spells g) (p.rhs.reverse ++ below) (children.reverse ++ trees)) :
    List.Forall₂ (Tree.Spells g) (.nonterminal p.lhs :: below)
      (.node (g.name (.nonterminal p.lhs)) children :: trees) := by
  have hlen' : p.rhs.reverse.length = children.reverse.length := by simp [hlen]
  -- the trees lie on the stack latest first, those of the right-hand side on top
  have hrhs := List.forall₂_take p.rhs.reverse.length h
  have hbelow := List.forall₂_drop p.rhs.reverse.length h
  rw [List.take_left, hlen', List.take_left, List.forall₂_reverse_iff] at hrhs
  rw [List.drop_left, hlen', List.drop_left] at hbelow
  exact .cons (Tree.spells_node hp hrhs) hbelow

/-- Matching pops a right-hand side and builds its tree. -/
theorem Invariant.popped (hg : g.WellFormed) {k : ℕ} {p : Production} {below : List Symbol}
    {children trees : List Tree} (h : Invariant g name ts c (p.rhs.reverse ++ below) [] [])
    (hk : k ≠ 0) (hp : g.augment.productions[k]? = some p)
    (hbelow : Item.start k ∈ g.automaton.itemsAt (topOf (c.frames.drop p.rhs.length)))
    (hlen : children.length = p.rhs.length) (htrees : c.subtrees = children.reverse ++ trees) :
    Invariant g name ts { c with
      frames := c.frames.drop p.rhs.length
      subtrees := .node (g.augment.name (.nonterminal p.lhs)) children :: trees
      phase := .resolving k } below [.nonterminal p.lhs] [] := by
  have hmem := Grammar.mem_productions_of_augment hk hp
  have hlhs : g.InRange (.nonterminal p.lhs) := hg.lhs_lt p hmem
  have hpath := h.path.drop
  rw [List.length_reverse] at hpath
  have hspells := h.trees
  rw [htrees] at hspells
  -- the node derives what its children derive, so only the count of nodes changes
  have hforest : c.forest = trees.reverse ++ children := by simp [forest, htrees]
  have hyield := Tree.yield_node_name hg hlhs children
  have hexpansions := Tree.expansions_node_name hg hlhs children
  rw [Grammar.name_augment hlhs]
  refine ⟨h.table_eq, hpath, .resolving rfl hk hp hbelow, forall₂_node hmem hlen hspells,
    ?_, ?_, ?_⟩
  · rw [← h.tokens, hforest]
    simp [forest, hyield, remaining]
  · have := h.shifts
    rw [hforest] at this
    simpa [forest, hyield] using this
  · have := h.reductions
    rw [hforest] at this
    simp only [Tree.forestExpansions_append, List.length_nil, Nat.add_zero] at this
    simp [forest, hexpansions, this, Nat.add_assoc]

/-- Popping the right-hand side that the table chose cannot fail, and keeps the invariant. -/
theorem Invariant.kept_matching (hg : g.WellFormed) (h : Invariant g name ts c symbols [] [])
    {k d : ℕ} {p : Production} (hphase : c.phase = .matching k) (hk : k ≠ 0)
    (hp : g.augment.productions[k]? = some p)
    (hnext : (⟨k, d⟩ : Item).next? g.augment.productions = none)
    (hi : ⟨k, d⟩ ∈ g.automaton.itemsAt c.top) : Kept g name ts c c.tick := by
  obtain ⟨below, rfl, hbelow⟩ := h.path.handle hp hnext hi
  obtain ⟨children, trees, hchildren, htrees⟩ :=
    Tree.exists_children (n := p.rhs.length) c.subtrees (by simp [h.length_eq])
  rw [tick_matching h.table_eq hphase hk hp h.path hchildren htrees]
  refine ⟨⟨_, _, _, h.popped hg hk hp hbelow hchildren htrees⟩, by simp, ?_⟩
  intro _ _ _
  rw [hphase]
  show 1 < 2
  omega

/-- Pushing the left-hand side cannot fail, and restores the invariant between two instructions. -/
theorem Invariant.kept_resolving (hg : g.WellFormed) {k : ℕ} {p : Production}
    (h : Invariant g name ts c symbols [.nonterminal p.lhs] []) (hphase : c.phase = .resolving k)
    (hk : k ≠ 0) (hp : g.augment.productions[k]? = some p)
    (hi : Item.start k ∈ g.automaton.itemsAt c.top) : Kept g name ts c c.tick := by
  -- the tree is there already, so pushing its symbol settles what was pending
  obtain ⟨q, hq⟩ := h.path.exists_target? hk hp hi
  rw [tick_resolving hg h.table_eq hphase hk hp hq]
  refine ⟨⟨.nonterminal p.lhs :: symbols, [], [], ?_⟩, by simp, by simp [Progress.completed]⟩
  exact ⟨h.table_eq, h.path.cons hq, .awaiting rfl, h.trees, h.tokens, h.shifts, h.reductions⟩

/-- A phase keeps the invariant and fails only because of the input. -/
theorem Upheld.tick (hg : g.WellFormed) (h : Upheld g name ts c) : Kept g name ts c c.tick := by
  obtain ⟨symbols, pending, spent, h⟩ := h
  cases h.standing with
  | awaiting hphase =>
    rw [tick_awaiting hphase]
    exact h.kept_dispatch hg hphase
  | matching hphase hk hp hnext hi => exact h.kept_matching hg hphase hk hp hnext hi
  | resolving hphase hk hp hi => exact h.kept_resolving hg hphase hk hp hi
  | done hphase hinput hnext hi =>
    have htick : c.tick = (.error .finished, c) := by rw [Context.tick, hphase]
    rw [htick]
    refine ⟨⟨_, _, _, h⟩, ?_, by simp⟩
    rintro _ ⟨⟩
    exact .finished

/-! ## Instructions and runs -/

/-- An instruction keeps the invariant and fails only because of the input. -/
theorem Upheld.stepWithin (hg : g.WellFormed) {n : ℕ} (h : Upheld g name ts c)
    (hn : phasesLeft c.phase ≤ n) :
    Upheld g name ts (c.stepWithin n).2 ∧ ∀ e, (c.stepWithin n).1 = .error e → e.Refusal := by
  -- each phase that does not complete the instruction leaves fewer phases to come
  induction n generalizing c with
  | zero =>
    cases hphase : c.phase <;> simp [hphase, phasesLeft] at hn
  | succ n ih =>
    have hkept := h.tick hg
    rw [Context.stepWithin]
    generalize c.tick = outcome at hkept ⊢
    obtain ⟨result, c'⟩ := outcome
    cases result with
    | error e =>
      refine ⟨hkept.upheld, ?_⟩
      rintro _ ⟨⟩
      exact hkept.refusal e rfl
    | ok progress =>
      dsimp only
      cases hcompleted : progress.completed with
      | some action => exact ⟨hkept.upheld, by simp⟩
      | none =>
        have hlt : phasesLeft c'.phase < phasesLeft c.phase :=
          hkept.phasesLeft_lt progress rfl hcompleted
        exact ih hkept.upheld (by omega)

/-- An instruction keeps the invariant and fails only because of the input. -/
theorem Upheld.step (hg : g.WellFormed) (h : Upheld g name ts c) :
    Upheld g name ts c.step.2 ∧ ∀ e, c.step.1 = .error e → e.Refusal := by
  apply h.stepWithin hg
  cases c.phase <;> simp [phasesLeft]

/-- A run keeps the invariant and fails only because of the input. -/
theorem Upheld.runsTo (hg : g.WellFormed) {outcome : Outcome Unit} (h : Upheld g name ts c)
    (hrun : RunsTo c outcome) :
    Upheld g name ts outcome.2 ∧ ∀ e, outcome.1 = .error e → e.Refusal := by
  induction hrun with
  | done => exact ⟨h, by simp⟩
  | failed _ hstep =>
    have hkept := h.step hg
    rw [hstep] at hkept
    refine ⟨hkept.1, fun e' he => hkept.2 e' ?_⟩
    rw [Except.error.inj he]
  | step _ hstep _ ih =>
    have hkept := (h.step hg).1
    rw [hstep] at hkept
    exact ih hkept

/-- Between two instructions nothing is pending. -/
theorem Upheld.awaiting (h : Upheld g name ts c) (hphase : c.phase = .awaiting) :
    ∃ symbols, Invariant g name ts c symbols [] [] := by
  obtain ⟨symbols, pending, spent, h⟩ := h
  cases h.standing with
  | awaiting => exact ⟨symbols, h⟩
  | matching hphase' => simp [hphase] at hphase'
  | resolving hphase' => simp [hphase] at hphase'
  | done hphase' => simp [hphase] at hphase'

/-- Between two instructions the next one is awaited on the stack that the invariant is about. -/
theorem Upheld.ready (h : Upheld g name ts c) (hphase : c.phase = .awaiting) :
    ∃ symbols, Ready g name symbols c := by
  obtain ⟨symbols, h⟩ := h.awaiting hphase
  exact ⟨symbols, h.table_eq, hphase, h.path, h.length_eq⟩

end Context

end ShiftReduce
