import ShiftReduce.Proofs.Engine.Execution
import ShiftReduce.Proofs.Engine.Path
import ShiftReduce.Proofs.Tree.Derivation

/-!
# What a phase can do on a generated table

On the table of a grammar the first phase of an instruction has six outcomes, which `Dispatched`
lists: two of them fail because the input has ended or goes on too long, one because the table has
no action. Once a reduction is chosen the remaining two phases succeed, since the stack is a path
through the automaton (`matches_of_path`, `resolves_of_target?`). `Stepped` says what follows for a
whole instruction.
-/

namespace ShiftReduce

namespace Context

variable {g : Grammar} {name : Option String} {c : Context} {symbols below : List Symbol}
  {k : ℕ} {p : Production}

/-! ## The first phase -/

/-- The outcomes of the first phase of an instruction. -/
inductive Dispatched (g : Grammar) (c : Context) : Outcome Progress → Prop
  | exhausted (hinput : c.input = []) : Dispatched g c (.error .inputExhausted, c)
  | rejected {t : InputToken} {rest : List InputToken} (hinput : c.input = t :: rest)
      (hact : ∀ n, g.augment.name (.terminal n) = t.symbol → g.automaton.action? c.top n = none) :
      Dispatched g c (.error (.unresolvedAction c.top t.symbol c.expected),
        { c with input := { t with inspected := true } :: rest })
  | trailing {t t' : InputToken} {rest : List InputToken} {n : ℕ}
      (hinput : c.input = t :: t' :: rest) (hn : g.augment.name (.terminal n) = t.symbol)
      (hact : g.automaton.action? c.top n = some .accept) :
      Dispatched g c (.error (.trailingInput (rest.length + 1)),
        { c with input := { t with inspected := true } :: t' :: rest })
  | accepted {t : InputToken} {n : ℕ} (hinput : c.input = [t])
      (hn : g.augment.name (.terminal n) = t.symbol)
      (hact : g.automaton.action? c.top n = some .accept) :
      Dispatched g c (.ok .accepted, { c with input := [], phase := .done })
  | shifted {t : InputToken} {rest : List InputToken} {n q : ℕ} (hinput : c.input = t :: rest)
      (hn : g.augment.name (.terminal n) = t.symbol)
      (hact : g.automaton.action? c.top n = some (.shift q)) :
      Dispatched g c (.ok (.shifted t.symbol q),
        { c with
          input := rest
          frames := ⟨.token t.symbol, q⟩ :: c.frames
          subtrees := .leaf t.symbol :: c.subtrees
          stats := countShift c.stats })
  | reducing {t : InputToken} {rest : List InputToken} {n k : ℕ} (hinput : c.input = t :: rest)
      (hn : g.augment.name (.terminal n) = t.symbol)
      (hact : g.automaton.action? c.top n = some (.reduce k)) :
      Dispatched g c (.ok (.reduceStarted k),
        { c with input := { t with inspected := true } :: rest, phase := .matching k })

/-- A shift leads to the target of the transition on its terminal. -/
theorem target?_of_shift {q t r : ℕ} (h : g.automaton.action? q t = some (.shift r)) :
    g.automaton.target? q (.terminal t) = some r := by
  cases Automaton.candidate_of_action? h with
  | shift _ _ hr => exact hr

/-- A reduction is by a production of the grammar. -/
theorem exists_production_of_reduce {q t : ℕ} (h : g.automaton.action? q t = some (.reduce k)) :
    k ≠ 0 ∧ ∃ p, g.augment.productions[k]? = some p ∧
      ∃ d, (⟨k, d⟩ : Item).next? g.augment.productions = none ∧
        ⟨k, d⟩ ∈ g.automaton.itemsAt q := by
  cases Automaton.candidate_of_action? h with
  | @reduce i p hi hnext hzero hp _ => exact ⟨hzero, p, hp, i.dot, hnext, hi⟩

/-- On a generated table the first phase has one of the outcomes listed. -/
theorem dispatched (hg : g.WellFormed) (htable : c.table = (Build.ofGrammar g name).table)
    (htop : c.top < g.automaton.states.length) : Dispatched g c c.dispatch := by
  obtain ⟨row, hrow⟩ := (Build.exists_row?_iff name).2 htop
  rw [← htable] at hrow
  rw [dispatch, hrow]
  cases hinput : c.input with
  | nil => exact .exhausted hinput
  | cons t rest =>
    dsimp only [perform]
    cases hact : c.table.action? c.top t.symbol with
    | none =>
      -- the table lists every action of the automaton, so what it lacks the automaton lacks
      refine .rejected hinput fun n hn => ?_
      cases haut : g.automaton.action? c.top n with
      | none => rfl
      | some act =>
        have := Build.action?_name name hg haut
        rw [← htable, hn, hact] at this
        exact absurd this (by simp)
    | some act =>
      rw [htable] at hact
      obtain ⟨n, hn, haut⟩ := (Build.action?_eq_some_iff hg).1 hact
      cases act with
      | accept =>
        cases rest with
        | nil => exact .accepted hinput hn haut
        | cons t' rest => exact .trailing hinput hn haut
      | shift q =>
        obtain ⟨row, hrow⟩ := (Build.exists_row?_iff name).2
          (Automaton.lt_of_target? g.productions_augment_ne_nil (target?_of_shift haut))
        rw [← htable] at hrow
        simp only [pushToken, hrow]
        exact .shifted hinput hn haut
      | reduce k =>
        obtain ⟨hk, p, hp, -⟩ := exists_production_of_reduce haut
        have hrule := Build.rule?_of_production name hk hp
        rw [← htable] at hrule
        simp only [hrule]
        exact .reducing hinput hn haut

/-- A lookahead has one number, so it has one action. -/
theorem lookahead_unique (hg : g.WellFormed) {t t' : InputToken} {rest rest' : List InputToken}
    {n n' : ℕ} {act act' : Action} (hinput : c.input = t :: rest) (hinput' : c.input = t' :: rest')
    (hn : g.augment.name (.terminal n) = t.symbol) (hn' : g.augment.name (.terminal n') = t'.symbol)
    (hact : g.automaton.action? c.top n = some act)
    (hact' : g.automaton.action? c.top n' = some act') :
    t = t' ∧ rest = rest' ∧ n = n' ∧ act = act' := by
  obtain ⟨rfl, rfl⟩ := List.cons.inj (hinput.symm.trans hinput')
  have hsymbol : Symbol.terminal n = .terminal n' := hg.augment.name_injective
    (Build.inRange_of_action? hg hact) (Build.inRange_of_action? hg hact') (hn.trans hn'.symm)
  obtain rfl := Symbol.terminal.inj hsymbol
  exact ⟨rfl, rfl, rfl, Option.some.inj (hact.symm.trans hact')⟩

/-! ## The other phases of a reduction -/

/-- The rules of the table are the productions under the same numbers. -/
theorem rule?_eq_of_production (htable : c.table = (Build.ofGrammar g name).table) (hk : k ≠ 0)
    (hp : g.augment.productions[k]? = some p) :
    c.table.rule? k = some (Table.ruleOf g.augment p) := by
  rw [htable]
  exact Build.rule?_of_production name hk hp

/-- A right-hand side on top of the stack is replaced by one tree. -/
theorem matches_of_path (htable : c.table = (Build.ofGrammar g name).table) (hk : k ≠ 0)
    (hp : g.augment.productions[k]? = some p) (hpath : Path g (p.rhs.reverse ++ below) c.frames)
    {children trees : List Tree} (hlen : children.length = p.rhs.length)
    (htrees : c.subtrees = children.reverse ++ trees) :
    Matches c k { c with
      frames := c.frames.drop p.rhs.length
      subtrees := .node (g.augment.name (.nonterminal p.lhs)) children :: trees } := by
  have hframes := (List.take_append_drop p.rhs.length c.frames).symm
  have hlength : (p.rhs.reverse.map g.augment.name).length = p.rhs.length := by simp
  refine .intro (rule?_eq_of_production htable hk hp) hframes ?_ htrees ?_
  · rw [List.map_take, hpath.map_name, List.map_append, List.take_left' hlength]
    exact List.map_reverse
  · exact hlen.trans (List.length_map _).symm

/-- The left-hand side is pushed with the target of the transition on it. -/
theorem resolves_of_target? (hg : g.WellFormed)
    (htable : c.table = (Build.ofGrammar g name).table) (hk : k ≠ 0)
    (hp : g.augment.productions[k]? = some p) {q : ℕ}
    (hq : g.automaton.target? c.top (.nonterminal p.lhs) = some q) :
    Resolves c k (g.augment.name (.nonterminal p.lhs), q) { c with
      frames := ⟨g.augment.stackSymbol (.nonterminal p.lhs), q⟩ :: c.frames } := by
  obtain ⟨row, hrow⟩ := (Build.exists_row?_iff name).2
    (Automaton.lt_of_target? g.productions_augment_ne_nil hq)
  have hgoto := Build.goto?_name name hg hq
  rw [← htable] at hrow hgoto
  exact .intro (rule?_eq_of_production htable hk hp) hgoto hrow

/-- Between two instructions the next phase looks at the table. -/
theorem tick_awaiting (hphase : c.phase = .awaiting) : c.tick = c.dispatch := by
  rw [tick, hphase]

/-- The second phase of a reduction by a production whose right-hand side lies on top. -/
theorem tick_matching (htable : c.table = (Build.ofGrammar g name).table)
    (hphase : c.phase = .matching k) (hk : k ≠ 0) (hp : g.augment.productions[k]? = some p)
    (hpath : Path g (p.rhs.reverse ++ below) c.frames) {children trees : List Tree}
    (hlen : children.length = p.rhs.length) (htrees : c.subtrees = children.reverse ++ trees) :
    c.tick = (.ok (.matched k), { c with
      frames := c.frames.drop p.rhs.length
      subtrees := .node (g.augment.name (.nonterminal p.lhs)) children :: trees
      phase := .resolving k }) :=
  (Advances.matched hphase (matches_of_path htable hk hp hpath hlen htrees)).tick_eq

/-- The last phase of a reduction. -/
theorem tick_resolving (hg : g.WellFormed) (htable : c.table = (Build.ofGrammar g name).table)
    (hphase : c.phase = .resolving k) (hk : k ≠ 0) (hp : g.augment.productions[k]? = some p) {q : ℕ}
    (hq : g.automaton.target? c.top (.nonterminal p.lhs) = some q) :
    c.tick = (.ok (.reduced k (g.augment.name (.nonterminal p.lhs)) q), { c with
      frames := ⟨g.augment.stackSymbol (.nonterminal p.lhs), q⟩ :: c.frames
      phase := .awaiting
      stats := countReduction c.stats }) :=
  (Advances.reduced hphase (resolves_of_target? hg htable hk hp hq)).tick_eq

/-! ## Whole instructions -/

/-- The context awaits an instruction on a stack that spells some symbols, with a tree for each. -/
structure Ready (g : Grammar) (name : Option String) (symbols : List Symbol) (c : Context) :
    Prop where
  table_eq : c.table = (Build.ofGrammar g name).table
  phase_eq : c.phase = .awaiting
  path : Path g symbols c.frames
  length_eq : c.subtrees.length = symbols.length

/-- A context that is ready has not accepted its input. -/
theorem Ready.phase_ne (h : Ready g name symbols c) : c.phase ≠ .done := by
  simp [h.phase_eq]

/-! ## Instructions that the lookahead determines -/

section Lookahead

variable {t : InputToken} {rest : List InputToken} {n : ℕ}

/-- After a shift the next instruction is awaited. -/
theorem Ready.shift {q : ℕ} (h : Ready g name symbols c)
    (hn : g.augment.name (.terminal n) = t.symbol)
    (hq : g.automaton.target? c.top (.terminal n) = some q) :
    Ready g name (.terminal n :: symbols) { c with
      input := rest
      frames := ⟨.token t.symbol, q⟩ :: c.frames
      subtrees := .leaf t.symbol :: c.subtrees
      stats := countShift c.stats } where
  table_eq := h.table_eq
  phase_eq := h.phase_eq
  path := by
    rw [← hn]
    exact h.path.cons hq
  length_eq := congrArg (· + 1) h.length_eq

/-- After a reduction the next instruction is awaited. -/
theorem Ready.reduce {q : ℕ} {children trees : List Tree} {input : List InputToken}
    (h : Ready g name (p.rhs.reverse ++ below) c) (hlen : children.length = p.rhs.length)
    (htrees : c.subtrees = children.reverse ++ trees)
    (hq : g.automaton.target? (topOf (c.frames.drop p.rhs.length)) (.nonterminal p.lhs) =
      some q) :
    Ready g name (.nonterminal p.lhs :: below) { c with
      input
      frames := ⟨g.augment.stackSymbol (.nonterminal p.lhs), q⟩ :: c.frames.drop p.rhs.length
      subtrees := .node (g.augment.name (.nonterminal p.lhs)) children :: trees
      phase := .awaiting
      stats := countReduction c.stats } where
  table_eq := h.table_eq
  phase_eq := rfl
  path := by
    have hbelow := h.path.drop
    rw [List.length_reverse] at hbelow
    exact hbelow.cons hq
  length_eq := by
    have := h.length_eq
    simp only [htrees, List.length_append, List.length_reverse] at this
    simp only [List.length_cons]
    omega

/-- The table has the actions of the automaton. -/
theorem Ready.action?_eq {act : Action} (hg : g.WellFormed) (h : Ready g name symbols c)
    (hn : g.augment.name (.terminal n) = t.symbol)
    (hact : g.automaton.action? c.top n = some act) :
    c.table.action? c.top t.symbol = some act := by
  rw [h.table_eq, ← hn]
  exact Build.action?_name name hg hact

/-- Where the automaton accepts, the instruction ends the parse. -/
theorem step_of_accept (hg : g.WellFormed) (h : Ready g name symbols c) (hinput : c.input = [t])
    (hn : g.augment.name (.terminal n) = t.symbol)
    (hact : g.automaton.action? c.top n = some .accept) :
    c.step = (.ok .accept, { c with input := [], phase := .done }) :=
  (Executes.accept hinput (h.action?_eq hg hn hact)).step_eq h.phase_eq

/-- Where the automaton shifts, the instruction pushes the token. -/
theorem step_of_shift (hg : g.WellFormed) (h : Ready g name symbols c)
    (hinput : c.input = t :: rest) (hn : g.augment.name (.terminal n) = t.symbol) {q : ℕ}
    (hact : g.automaton.action? c.top n = some (.shift q)) :
    c.step = (.ok (.shift q), { c with
      input := rest
      frames := ⟨.token t.symbol, q⟩ :: c.frames
      subtrees := .leaf t.symbol :: c.subtrees
      stats := countShift c.stats }) := by
  obtain ⟨row, hrow⟩ := (Build.exists_row?_iff name).2
    (Automaton.lt_of_target? g.productions_augment_ne_nil (target?_of_shift hact))
  rw [← h.table_eq] at hrow
  exact (Executes.shift hinput (h.action?_eq hg hn hact) (.intro hrow hinput)).step_eq h.phase_eq

/-- Where a reduction is chosen its right-hand side lies on the stack, on a state with a transition
on its left-hand side. -/
theorem Ready.exists_target? (h : Ready g name symbols c)
    (hact : g.automaton.action? c.top n = some (.reduce k)) :
    ∃ p below q, k ≠ 0 ∧ g.augment.productions[k]? = some p ∧ symbols = p.rhs.reverse ++ below ∧
      g.automaton.target? (topOf (c.frames.drop p.rhs.length)) (.nonterminal p.lhs) = some q := by
  obtain ⟨hk, p, hp, d, hnext, hi⟩ := exists_production_of_reduce hact
  obtain ⟨below, rfl, hbelow⟩ := h.path.handle hp hnext hi
  have hdrop := h.path.drop
  rw [List.length_reverse] at hdrop
  obtain ⟨q, hq⟩ := hdrop.exists_target? hk hp hbelow
  exact ⟨p, below, q, hk, hp, rfl, hq⟩

/-- Where the automaton reduces, the instruction replaces the right-hand side and finds its
target. -/
theorem step_of_reduce (hg : g.WellFormed) {children trees : List Tree}
    (h : Ready g name (p.rhs.reverse ++ below) c) (hinput : c.input = t :: rest)
    (hn : g.augment.name (.terminal n) = t.symbol) (hp : g.augment.productions[k]? = some p)
    (hact : g.automaton.action? c.top n = some (.reduce k))
    (hchildren : children.length = p.rhs.length) (htrees : c.subtrees = children.reverse ++ trees) :
    ∃ q, g.automaton.target? (topOf (c.frames.drop p.rhs.length)) (.nonterminal p.lhs) = some q ∧
      c.step = (.ok (.reduce k), { c with
        input := { t with inspected := true } :: rest
        frames := ⟨g.augment.stackSymbol (.nonterminal p.lhs), q⟩ :: c.frames.drop p.rhs.length
        subtrees := .node (g.augment.name (.nonterminal p.lhs)) children :: trees
        phase := .awaiting
        stats := countReduction c.stats }) := by
  obtain ⟨p', _, q, hk, hp', -, hq⟩ := h.exists_target? hact
  obtain rfl := Option.some.inj (hp.symm.trans hp')
  set popped : Context := { c with
    frames := c.frames.drop p.rhs.length
    subtrees := .node (g.augment.name (.nonterminal p.lhs)) children :: trees } with hpopped
  have hmatch : Matches c k popped := matches_of_path h.table_eq hk hp h.path hchildren htrees
  have hresolve := resolves_of_target? (c := popped) hg h.table_eq hk hp hq
  exact ⟨q, hq, (Executes.of_matches hinput (h.action?_eq hg hn hact) hmatch hresolve).step_eq
    h.phase_eq⟩

end Lookahead

/-! ## The outcomes of an instruction -/

/-- The outcomes of an instruction on a stack that spells some symbols. It fails only where the
table has no action or input is left when it would be accepted. -/
inductive Stepped (g : Grammar) (symbols : List Symbol) (c : Context) : Outcome Action → Prop
  | failed {e : ParseError} {c' : Context}
      (h : ∀ t rest n act, c.input = t :: rest → g.augment.name (.terminal n) = t.symbol →
        g.automaton.action? c.top n = some act → act = .accept ∧ rest ≠ []) :
      Stepped g symbols c (.error e, c')
  | accepted {t : InputToken} {n : ℕ} (hinput : c.input = [t])
      (hn : g.augment.name (.terminal n) = t.symbol)
      (hact : g.automaton.action? c.top n = some .accept) :
      Stepped g symbols c (.ok .accept, { c with input := [], phase := .done })
  | shifted {t : InputToken} {rest : List InputToken} {n q : ℕ} (hinput : c.input = t :: rest)
      (hn : g.augment.name (.terminal n) = t.symbol)
      (hact : g.automaton.action? c.top n = some (.shift q)) :
      Stepped g symbols c (.ok (.shift q), { c with
        input := rest
        frames := ⟨.token t.symbol, q⟩ :: c.frames
        subtrees := .leaf t.symbol :: c.subtrees
        stats := countShift c.stats })
  | reduced {t : InputToken} {rest : List InputToken} {n k q : ℕ} {p : Production}
      {below : List Symbol} {children trees : List Tree} (hinput : c.input = t :: rest)
      (hn : g.augment.name (.terminal n) = t.symbol)
      (hact : g.automaton.action? c.top n = some (.reduce k))
      (hp : g.augment.productions[k]? = some p) (hsymbols : symbols = p.rhs.reverse ++ below)
      (hlen : children.length = p.rhs.length) (htrees : c.subtrees = children.reverse ++ trees)
      (hq : g.automaton.target? (topOf (c.frames.drop p.rhs.length)) (.nonterminal p.lhs) =
        some q) :
      Stepped g symbols c (.ok (.reduce k), { c with
        input := { t with inspected := true } :: rest
        frames := ⟨g.augment.stackSymbol (.nonterminal p.lhs), q⟩ :: c.frames.drop p.rhs.length
        subtrees := .node (g.augment.name (.nonterminal p.lhs)) children :: trees
        phase := .awaiting
        stats := countReduction c.stats })

/-- On a generated table an instruction has one of the outcomes listed. -/
theorem Ready.stepped (hg : g.WellFormed) (h : Ready g name symbols c) :
    Stepped g symbols c c.step := by
  have hdispatched := dispatched hg h.table_eq h.path.top_lt
  rw [← tick_awaiting h.phase_eq] at hdispatched
  generalize htick : c.tick = outcome at hdispatched
  cases hdispatched with
  | exhausted hinput =>
    rw [step, stepWithin, htick]
    exact .failed fun t rest n act h => by simp [hinput] at h
  | rejected hinput hact =>
    rw [step, stepWithin, htick]
    refine .failed fun t rest n act h hn hact' => ?_
    obtain ⟨rfl, rfl⟩ := List.cons.inj (hinput.symm.trans h)
    exact absurd hact' (by simp [hact n hn])
  | @trailing t t' rest n hinput hn hact =>
    rw [step, stepWithin, htick]
    refine .failed fun u rest' m act h hm hact' => ?_
    obtain ⟨-, rfl, -, rfl⟩ := lookahead_unique hg hinput h hn hm hact hact'
    exact ⟨rfl, List.cons_ne_nil _ _⟩
  | accepted hinput hn hact =>
    rw [step_of_accept hg h hinput hn hact]
    exact .accepted hinput hn hact
  | shifted hinput hn hact =>
    rw [step_of_shift hg h hinput hn hact]
    exact .shifted hinput hn hact
  | reducing hinput hn hact =>
    obtain ⟨p, below, _, _, hp, rfl, _⟩ := h.exists_target? hact
    obtain ⟨children, trees, hchildren, htrees⟩ :=
      Tree.exists_children (n := p.rhs.length) c.subtrees (by simp [h.length_eq])
    obtain ⟨q, hq, hstep⟩ := step_of_reduce hg h hinput hn hp hact hchildren htrees
    rw [hstep]
    exact .reduced hinput hn hact hp rfl hchildren htrees hq

end Context

end ShiftReduce
