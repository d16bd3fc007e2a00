import ShiftReduce.Engine.Snapshot
import ShiftReduce.Proofs.Engine.Execution
import ShiftReduce.Proofs.Engine.Runs

/-!
# The stack and the trees stay aligned, on any table

Nothing that a parse does to its stack, trees, input and counts depends on the table making sense.
`Balanced` couples them: there is a tree for every symbol of the stack, every node with children is
an instance of a rule, every node was counted when it was built and every token when it was shifted.
Two places within a parse are out of balance, and `Owing` says by how much: once a right-hand side
is popped the tree of the left-hand side is ahead of the stack, and acceptance takes a token that it
does not count. Whatever calls lead to a context, it is aligned (`reached_aligned`), except that a
reduction which the caller chose and which failed may have left a tree without a symbol.
-/

namespace ShiftReduce

namespace Tree

mutual

/-- The nodes of a tree, each as the tree below it. -/
def nodes : Tree → List Tree
  | node n cs => node n cs :: forestNodes cs

/-- The nodes of a forest. -/
def forestNodes : List Tree → List Tree
  | [] => []
  | t :: ts => nodes t ++ forestNodes ts

end

/-- The nodes of two forests are counted one after the other. -/
@[simp] theorem forestNodes_append (ts us : List Tree) :
    forestNodes (ts ++ us) = forestNodes ts ++ forestNodes us := by
  induction ts with
  | nil => rfl
  | cons t ts ih => rw [List.cons_append, forestNodes, ih, forestNodes, List.append_assoc]

/-- A tree has its root and the nodes of its children. -/
@[simp] theorem forestNodes_node (n : String) (cs : List Tree) :
    forestNodes [node n cs] = node n cs :: forestNodes cs := by
  simp [forestNodes, nodes]

/-- A leaf is its only node. -/
@[simp] theorem forestNodes_leaf (n : String) : forestNodes [leaf n] = [leaf n] :=
  forestNodes_node n []

/-- The node and its children are named by a rule. -/
def IsInstance (table : Table) (t : Tree) : Prop :=
  ∃ r ∈ table.rules, t.name = r.lhs ∧ t.children.map name = r.rhs

end Tree

/-- A numbered rule is one of the rules. -/
theorem Table.mem_rules_of_rule? {t : Table} {k : ℕ} {r : Rule} (h : t.rule? k = some r) :
    r ∈ t.rules := by
  unfold Table.rule? at h
  split at h
  · exact absurd h (by simp)
  · exact List.mem_of_getElem? h

namespace Context

variable {table : Table} {tokens names : List String} {c c' : Context} {k q spent : ℕ}

/-! ## The balance -/

/-- What a phase leaves open: the symbols whose trees are built but which are not on the stack yet,
and the number of tokens that are read but not counted. -/
inductive Owing (table : Table) : Phase → List String → ℕ → Prop
  | awaiting : Owing table .awaiting [] 0
  | matching (k : ℕ) : Owing table (.matching k) [] 0
  | resolving {k : ℕ} {r : Rule} (hrule : table.rule? k = some r) :
      Owing table (.resolving k) [r.lhs] 0
  | done : Owing table .done [] 1

/-- The stack, the trees, the input and the counts agree up to what is owed. -/
structure Balanced (table : Table) (tokens names : List String) (spent : ℕ) (c : Context) :
    Prop where
  table_eq : c.table = table
  rows : ∀ f ∈ c.frames, ∃ row, table.row? f.state = some row
  names_eq : c.subtrees.map Tree.name = names ++ c.frames.map (·.symbol.name)
  instances : ∀ t ∈ Tree.forestNodes c.forest, t.children ≠ [] → t.IsInstance table
  count : (Tree.forestNodes c.forest).length =
    c.stats.shifts + c.stats.reductions + names.length
  spent_le : c.stats.shifts + spent ≤ tokens.length
  remaining_eq : c.remaining = tokens.drop (c.stats.shifts + spent)

/-- At the start of a parse everything is empty but the input. -/
theorem balanced_new (table : Table) (tokens : List String) :
    Balanced table tokens [] 0 (.new table tokens) where
  table_eq := rfl
  rows := by simp [new]
  names_eq := rfl
  instances := by simp [new, forest, Tree.forestNodes]
  count := rfl
  spent_le := Nat.zero_le _
  remaining_eq := remaining_new table tokens

/-- The balance does not depend on the phase. -/
theorem Balanced.goTo (h : Balanced table tokens names spent c) (phase : Phase) :
    Balanced table tokens names spent { c with phase } :=
  ⟨h.table_eq, h.rows, h.names_eq, h.instances, h.count, h.spent_le, h.remaining_eq⟩

/-- Looking at the next token leaves the balance as it is. -/
theorem Balanced.look {t : InputToken} {rest : List InputToken}
    (h : Balanced table tokens names spent c) (hinput : c.input = t :: rest) :
    Balanced table tokens names spent
      { c with input := { t with inspected := true } :: rest } where
  table_eq := h.table_eq
  rows := h.rows
  names_eq := h.names_eq
  instances := h.instances
  count := h.count
  spent_le := h.spent_le
  remaining_eq := by
    rw [← h.remaining_eq, remaining, remaining, hinput]
    rfl

/-- The token that comes next is the first one that is not counted. -/
theorem Balanced.next {t : InputToken} {rest : List InputToken}
    (h : Balanced table tokens names 0 c) (hinput : c.input = t :: rest) :
    c.stats.shifts + 1 ≤ tokens.length ∧
      rest.map (·.symbol) = tokens.drop (c.stats.shifts + 1) := by
  have hremaining := h.remaining_eq
  rw [remaining, hinput, List.map_cons, Nat.add_zero] at hremaining
  constructor
  · rcases Nat.lt_or_ge c.stats.shifts tokens.length with hlt | hge
    · exact hlt
    · rw [List.drop_of_length_le hge] at hremaining
      exact absurd hremaining (by simp)
  · have htail := congrArg List.tail hremaining
    rwa [List.tail_cons, List.tail_drop] at htail

/-- A shift adds a token to the stack, a leaf to the trees and one to the count. -/
theorem Balanced.shifted (h : Balanced table tokens [] 0 c) (hshift : Shifts c q c') :
    Balanced table tokens [] 0 c' := by
  obtain @⟨t, rest, row, hrow, hinput⟩ := hshift
  obtain ⟨hle, hrest⟩ := h.next hinput
  have hcount := h.count
  rw [h.table_eq] at hrow
  refine ⟨h.table_eq, ?_, ?_, ?_, ?_, hle, hrest⟩
  · intro f hf
    rcases List.mem_cons.1 hf with rfl | hf
    · exact ⟨row, hrow⟩
    · exact h.rows f hf
  · simp [h.names_eq, Tree.leaf, Tree.name, StackSymbol.name]
  · intro u hu
    rw [forest, List.reverse_cons, Tree.forestNodes_append, List.mem_append] at hu
    rcases hu with hu | hu
    · exact h.instances u hu
    · rw [Tree.forestNodes_leaf, List.mem_singleton] at hu
      rw [hu]
      exact fun hchildren => absurd rfl hchildren
  · simp only [forest, List.length_nil] at hcount
    simp only [forest, List.reverse_cons, Tree.forestNodes_append, Tree.forestNodes_leaf,
      List.length_append, List.length_cons, List.length_nil, countShift]
    omega

/-- Matching exchanges the symbols of a right-hand side for one tree that is ahead of the stack. -/
theorem Balanced.matched (h : Balanced table tokens [] 0 c) (hmatch : Matches c k c') :
    ∃ r, table.rule? k = some r ∧ Balanced table tokens [r.lhs] 0 c' := by
  obtain @⟨r, above, below, children, trees, hrule, hframes, hnames, htrees, hlen⟩ := hmatch
  have hnames_eq := h.names_eq
  have hforest : c.forest = trees.reverse ++ children := by simp [forest, htrees]
  have hcount := h.count
  rw [hforest, Tree.forestNodes_append, List.length_append] at hcount
  rw [h.table_eq] at hrule
  -- as many trees go as symbols, so the others still have the names of the symbols below
  rw [htrees, hframes, List.map_append, List.map_append, List.nil_append] at hnames_eq
  have hlength : (children.reverse.map Tree.name).length =
      (above.map (·.symbol.name)).length := by
    rw [hnames, List.length_map, List.length_reverse, List.length_reverse, hlen]
  obtain ⟨hchildren, htrees_eq⟩ := List.append_inj hnames_eq hlength
  rw [hnames, List.map_reverse, List.reverse_inj] at hchildren
  refine ⟨r, hrule, h.table_eq, ?_, ?_, ?_, ?_, h.spent_le, h.remaining_eq⟩
  · intro f hf
    exact h.rows f (by rw [hframes]; exact List.mem_append_right _ hf)
  · rw [List.map_cons, htrees_eq]
    rfl
  · intro t ht
    have hinstances := h.instances t
    rw [hforest, Tree.forestNodes_append, List.mem_append] at hinstances
    rw [forest, List.reverse_cons, Tree.forestNodes_append, Tree.forestNodes_node,
      List.mem_append, List.mem_cons] at ht
    rcases ht with ht | rfl | ht
    · exact hinstances (.inl ht)
    · intro _
      exact ⟨r, Table.mem_rules_of_rule? hrule, rfl, hchildren⟩
    · exact hinstances (.inr ht)
  · simp only [forest, List.reverse_cons, Tree.forestNodes_append, Tree.forestNodes_node,
      List.length_append, List.length_cons, List.length_nil] at hcount ⊢
    omega

/-- The symbol that is pushed is the one whose tree is ahead. -/
theorem Balanced.resolved {r : Rule} {target : String × ℕ}
    (h : Balanced table tokens [r.lhs] 0 c) (hrule : table.rule? k = some r)
    (hresolve : Resolves c k target c') :
    Balanced table tokens [] 0 { c' with stats := countReduction c'.stats } := by
  obtain @⟨r', q, row, hrule', hgoto, hrow⟩ := hresolve
  rw [h.table_eq] at hrule' hrow
  obtain rfl := Option.some.inj (hrule.symm.trans hrule')
  have hcount := h.count
  refine ⟨h.table_eq, ?_, ?_, h.instances, ?_, h.spent_le, h.remaining_eq⟩
  · intro f hf
    rcases List.mem_cons.1 hf with rfl | hf
    · exact ⟨row, hrow⟩
    · exact h.rows f hf
  · rw [h.names_eq]
    rfl
  · show (Tree.forestNodes c.forest).length = c.stats.shifts + (c.stats.reductions + 1) + 0
    simp only [List.length_cons, List.length_nil] at hcount
    omega

/-- Acceptance takes the last token, uncounted. -/
theorem Balanced.accepted {t : InputToken} (h : Balanced table tokens [] 0 c)
    (hinput : c.input = [t]) :
    Balanced table tokens [] 1 { c with input := [], phase := .done } where
  table_eq := h.table_eq
  rows := h.rows
  names_eq := h.names_eq
  instances := h.instances
  count := h.count
  spent_le := (h.next hinput).1
  remaining_eq := (h.next hinput).2

/-! ## Calls -/

/-- The context is balanced up to what its phase leaves open. -/
def Accounted (table : Table) (tokens : List String) (c : Context) : Prop :=
  ∃ names spent, Owing table c.phase names spent ∧ Balanced table tokens names spent c

/-- Between two instructions nothing is owed. -/
theorem Accounted.of_awaiting (hphase : c.phase = .awaiting) (h : Balanced table tokens [] 0 c) :
    Accounted table tokens c :=
  ⟨[], 0, by rw [hphase]; exact .awaiting, h⟩

/-- Nothing is owed between two instructions. -/
theorem Accounted.awaiting (h : Accounted table tokens c) (hphase : c.phase = .awaiting) :
    Balanced table tokens [] 0 c := by
  obtain ⟨names, spent, howing, h⟩ := h
  rw [hphase] at howing
  cases howing
  exact h

/-- Nothing is owed while a right-hand side is still to be popped. -/
theorem Accounted.matching (h : Accounted table tokens c) (hphase : c.phase = .matching k) :
    Balanced table tokens [] 0 c := by
  obtain ⟨names, spent, howing, h⟩ := h
  rw [hphase] at howing
  cases howing
  exact h

/-- Once the right-hand side is popped the symbol of the left-hand side is owed. -/
theorem Accounted.resolving (h : Accounted table tokens c) (hphase : c.phase = .resolving k) :
    ∃ r, table.rule? k = some r ∧ Balanced table tokens [r.lhs] 0 c := by
  obtain ⟨names, spent, howing, h⟩ := h
  rw [hphase] at howing
  cases howing with
  | resolving hrule => exact ⟨_, hrule, h⟩

/-- A phase that succeeds keeps the balance. -/
theorem Accounted.advances {p : Progress} (h : Accounted table tokens c) (hadv : Advances c p c') :
    Accounted table tokens c' := by
  cases hadv with
  | accepted hphase hinput => exact ⟨[], 1, .done, (h.awaiting hphase).accepted hinput⟩
  | shifted hphase _ _ hshift =>
    have hbalanced := (h.awaiting hphase).shifted hshift
    cases hshift
    exact .of_awaiting hphase hbalanced
  | @reduceStarted _ _ k _ hphase hinput =>
    exact ⟨[], 0, .matching k, ((h.awaiting hphase).look hinput).goTo _⟩
  | matched hphase hmatch =>
    obtain ⟨r, hrule, hbalanced⟩ := (h.matching hphase).matched hmatch
    exact ⟨[r.lhs], 0, .resolving hrule, hbalanced.goTo _⟩
  | reduced hphase hresolve =>
    obtain ⟨r, hrule, hbalanced⟩ := h.resolving hphase
    exact .of_awaiting rfl ((hbalanced.resolved hrule hresolve).goTo _)

/-- A phase that fails keeps the balance. -/
theorem Accounted.halts {e : ParseError} (h : Accounted table tokens c) (hhalt : Halts c e c') :
    Accounted table tokens c' := by
  cases hhalt with
  | finished | astray | inputExhausted | unresolved => exact h
  | unresolvedAction hphase _ hinput | trailingInput hphase hinput | noState hphase hinput
  | noRule hphase hinput => exact .of_awaiting hphase ((h.awaiting hphase).look hinput)
  | unmatched hphase => exact .of_awaiting rfl ((h.matching hphase).goTo _)

/-- A phase keeps the account, whether it succeeds or not. -/
theorem Accounted.tick (h : Accounted table tokens c) : Accounted table tokens c.tick.2 := by
  rcases advances_or_halts c with ⟨p, c', hadv⟩ | ⟨e, c', hhalt⟩
  · rw [hadv.tick_eq]
    exact h.advances hadv
  · rw [hhalt.tick_eq]
    exact h.halts hhalt

/-- So does an instruction. -/
theorem Accounted.step (h : Accounted table tokens c) : Accounted table tokens c.step.2 :=
  stepWithin_keeps (fun _ => Accounted.tick) h

/-- So does a run. -/
theorem Accounted.run {outcome : Outcome Unit} (h : Accounted table tokens c)
    (hrun : RunsTo c outcome) : Accounted table tokens outcome.2 :=
  hrun.keeps (fun _ => Accounted.step) h

/-- So does a shift that the caller chooses. -/
theorem Accounted.shift (h : Accounted table tokens c) : Accounted table tokens (c.shift q).2 := by
  rcases shift_cases c q with ⟨c', heq, hphase, hshift⟩ | ⟨e, heq⟩ <;> rw [heq]
  · have hbalanced := (h.awaiting hphase).shifted hshift
    cases hshift
    exact .of_awaiting hphase hbalanced
  · exact h

/-- A reduction that the caller chooses keeps the account if it succeeds. -/
theorem Accounted.reduce (h : Accounted table tokens c) (hreduce : c.reduce k = (.ok (), c')) :
    Accounted table tokens c' := by
  rcases reduce_cases c k with ⟨popped, target, pushed, hphase, hmatch, hresolve, heq⟩ |
    ⟨e, heq, -⟩ | ⟨e, popped, heq, -⟩
  · obtain ⟨-, rfl⟩ := Prod.mk.inj (hreduce.symm.trans heq)
    obtain ⟨r, hrule, hbalanced⟩ := (h.awaiting hphase).matched hmatch
    have hbalanced := hbalanced.resolved hrule hresolve
    cases hmatch
    cases hresolve
    exact .of_awaiting hphase hbalanced
  · exact absurd (hreduce.symm.trans heq) (by simp)
  · exact absurd (hreduce.symm.trans heq) (by simp)

/-! ## The stack as it is shown -/

/-- States and symbols take turns, a state first and a state last. -/
inductive Alternating : List StackElement → Prop
  | last (q : ℕ) : Alternating [.state q]
  | cons (q : ℕ) (x : StackSymbol) {rest : List StackElement} (h : Alternating rest) :
      Alternating (.state q :: .symbol x :: rest)

/-- The names of the symbols among the entries of a stack. -/
def spelling (es : List StackElement) : List String :=
  es.filterMap fun
    | .state _ => none
    | .symbol x => some x.name

/-- The entries that show the frames of a stack, which are given from the bottom up. -/
theorem alternating_frames (q : ℕ) (frames : List Frame) :
    Alternating (.state q :: frames.flatMap fun f => [.symbol f.symbol, .state f.state]) := by
  induction frames generalizing q with
  | nil => exact .last q
  | cons f frames ih => exact .cons q f.symbol (ih f.state)

/-- The stack as it is shown spells the symbols of the frames from the bottom up. -/
theorem spelling_elements (c : Context) :
    spelling c.elements = c.frames.reverse.map (·.symbol.name) := by
  have hframes : ∀ frames : List Frame,
      spelling (frames.flatMap fun f => [.symbol f.symbol, .state f.state]) =
        frames.map (·.symbol.name) := by
    intro frames
    induction frames with
    | nil => rfl
    | cons f frames ih => simpa [spelling] using ih
  rw [elements]
  exact hframes c.frames.reverse

/-- The states above the bottom are those of the frames. -/
theorem state_mem_tail_elements :
    .state q ∈ c.elements.tail ↔ ∃ f ∈ c.frames, f.state = q := by
  simp [elements, eq_comm]

/-- The stack, the trees, the input and the counts of a context agree. -/
structure Aligned (table : Table) (tokens : List String) (c : Context) : Prop where
  table_eq : c.table = table
  bottom : c.elements.head? = some (.state 0)
  alternating : Alternating c.elements
  rows : ∀ q, .state q ∈ c.elements.tail → ∃ row, table.row? q = some row
  /-- Every node with children is an instance of a rule. -/
  instances : ∀ t ∈ Tree.forestNodes c.forest, t.children ≠ [] → t.IsInstance table
  /-- The trees are those of the symbols of the stack, and all their nodes have been counted. -/
  settled : (∀ k, c.phase ≠ .resolving k) →
    c.forest.map Tree.name = spelling c.elements ∧
      (Tree.forestNodes c.forest).length = c.stats.shifts + c.stats.reductions
  /-- The latest tree is that of the left-hand side and has neither symbol nor count. -/
  ahead : ∀ k, c.phase = .resolving k → ∃ r, table.rule? k = some r ∧
    c.forest.map Tree.name = spelling c.elements ++ [r.lhs] ∧
      (Tree.forestNodes c.forest).length = c.stats.shifts + c.stats.reductions + 1
  /-- What was shifted is what is missing from the front of the input. -/
  reading : c.phase ≠ .done →
    c.stats.shifts ≤ tokens.length ∧ c.remaining = tokens.drop c.stats.shifts
  /-- Acceptance took one token more. -/
  read : c.phase = .done →
    c.stats.shifts + 1 ≤ tokens.length ∧ c.remaining = tokens.drop (c.stats.shifts + 1)

/-- What is accounted for is aligned, seen from the stack as it is shown. -/
theorem Accounted.aligned (h : Accounted table tokens c) : Aligned table tokens c := by
  obtain ⟨names, spent, howing, h⟩ := h
  have hnames : c.forest.map Tree.name = spelling c.elements ++ names.reverse := by
    rw [forest, List.map_reverse, h.names_eq, List.reverse_append, spelling_elements,
      List.map_reverse]
  refine ⟨h.table_eq, rfl, alternating_frames 0 _, ?_, h.instances, ?_, ?_, ?_, ?_⟩
  · intro q hq
    obtain ⟨f, hf, rfl⟩ := state_mem_tail_elements.1 hq
    exact h.rows f hf
  · intro hphase
    generalize c.phase = phase at howing hphase
    cases howing with
    | awaiting | matching | done => exact ⟨hnames.trans (List.append_nil _), h.count⟩
    | @resolving k => exact absurd rfl (hphase k)
  · intro k hphase
    rw [hphase] at howing
    cases howing with
    | @resolving _ r hrule => exact ⟨r, hrule, hnames, h.count⟩
  · intro hphase
    generalize c.phase = phase at howing hphase
    cases howing with
    | awaiting | matching | resolving => exact ⟨h.spent_le, h.remaining_eq⟩
    | done => exact absurd rfl hphase
  · intro hphase
    rw [hphase] at howing
    cases howing
    exact ⟨h.spent_le, h.remaining_eq⟩

/-- The contexts that calls lead to, each with the table and the tokens that its parse began with.
All calls may fail, except for the reductions that the caller chooses. Restoring a snapshot leaves
nothing of the context that it takes the place of. -/
inductive Reached : Table → List String → Context → Prop
  | new (table : Table) (tokens : List String) : Reached table tokens (.new table tokens)
  | tick {table : Table} {tokens : List String} {c : Context} (h : Reached table tokens c) :
      Reached table tokens c.tick.2
  | step {table : Table} {tokens : List String} {c : Context} (h : Reached table tokens c) :
      Reached table tokens c.step.2
  | run {table : Table} {tokens : List String} {c : Context} {fuel : ℕ} {outcome : Outcome Unit}
      (h : Reached table tokens c) (hrun : c.runWithin fuel = some outcome) :
      Reached table tokens outcome.2
  | shift {table : Table} {tokens : List String} {c : Context} (h : Reached table tokens c)
      (q : ℕ) : Reached table tokens (c.shift q).2
  | reduce {table : Table} {tokens : List String} {c c' : Context} {k : ℕ}
      (h : Reached table tokens c) (hreduce : c.reduce k = (.ok (), c')) :
      Reached table tokens c'
  | restore {table : Table} {tokens : List String} {c : Context} {s : Snapshot}
      (h : Reached table tokens c) (hsnapshot : c.snapshot = .ok s) :
      Reached table tokens s.restore

/-- Whatever calls lead to a context, it is accounted for. -/
theorem Reached.accounted (h : Reached table tokens c) : Accounted table tokens c := by
  induction h with
  | new => exact .of_awaiting rfl (balanced_new _ _)
  | tick _ ih => exact ih.tick
  | step _ ih => exact ih.step
  | run _ hrun ih => exact ih.run (runsTo_of_runWithin hrun)
  | shift _ _ ih => exact ih.shift
  | reduce _ hreduce ih => exact ih.reduce hreduce
  | restore _ hsnapshot ih => rwa [Snapshot.restore_of_snapshot hsnapshot]

/-- Whatever calls lead to a context, on whatever table, its stack, trees, input and counts
agree. -/
theorem reached_aligned (h : Reached table tokens c) : Aligned table tokens c :=
  h.accounted.aligned

/-- Where a reduction stops halfway for want of a target, its tree is ahead of the stack. -/
theorem reached_aligned_adrift : ∃ c, Reached .adrift ["x", "$"] c ∧ c.phase = .resolving 1 ∧
    c.elements = [.state 0] ∧ c.forest = [.node "S" [.leaf "x"]] ∧
    Aligned .adrift ["x", "$"] c := by
  have hreached : Reached .adrift ["x", "$"] (Context.new .adrift ["x", "$"]).step.2.step.2 :=
    .step (.step (.new _ _))
  exact ⟨_, hreached, by decide +kernel, by decide +kernel, by decide +kernel,
    reached_aligned hreached⟩

end Context

end ShiftReduce
