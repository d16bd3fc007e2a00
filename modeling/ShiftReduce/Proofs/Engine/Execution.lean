import Mathlib.Data.Nat.Notation
import Mathlib.Tactic.Set
import ShiftReduce.Engine.Instruction

/-!
# What a phase does, on any table

A table need not come from a grammar: its rules, actions and targets can be at odds with each other.
`Advances` lists how a phase succeeds on an arbitrary table and `Halts` how it fails, each with the
context that it leaves. For a whole instruction that the table chooses `Executes` lists how it
succeeds, and it fails like its first phase or as `Breaks` says. The lists are exact
(`tick_eq_ok_iff`, `tick_eq_error_iff`, `step_cases`), so that what holds of every table follows by
cases on them and never from the operations themselves.
-/

namespace ShiftReduce

/-- A table whose rule can be matched but leads to no state. -/
def Table.adrift : Table where
  name := none
  terminals := ["x", "$"]
  nonterminals := ["S"]
  rules := [⟨["x"], "S"⟩]
  states := [⟨.ofList [("x", .shift 1)], ∅⟩, ⟨.ofList [("$", .reduce 1)], ∅⟩]

namespace Context

variable {c c' : Context} {k q : ℕ} {e : ParseError}

/-! ## Parts of instructions -/

/-- The next token is pushed with a state of the table. -/
inductive Shifts (c : Context) (q : ℕ) : Context → Prop
  | intro {t : InputToken} {rest : List InputToken} {row : Row} (hrow : c.table.row? q = some row)
      (hinput : c.input = t :: rest) :
      Shifts c q { c with
        input := rest
        frames := ⟨.token t.symbol, q⟩ :: c.frames
        subtrees := .leaf t.symbol :: c.subtrees
        stats := countShift c.stats }

/-- The right-hand side of a rule is popped, and its trees become the children of one. -/
inductive Matches (c : Context) (k : ℕ) : Context → Prop
  | intro {r : Rule} {above below : List Frame} {children trees : List Tree}
      (hrule : c.table.rule? k = some r) (hframes : c.frames = above ++ below)
      (hnames : above.map (·.symbol.name) = r.rhs.reverse)
      (htrees : c.subtrees = children.reverse ++ trees) (hlen : children.length = r.rhs.length) :
      Matches c k { c with frames := below, subtrees := .node r.lhs children :: trees }

/-- The left-hand side of a rule is pushed with its target, a state of the table. -/
inductive Resolves (c : Context) (k : ℕ) : String × ℕ → Context → Prop
  | intro {r : Rule} {q : ℕ} {row : Row} (hrule : c.table.rule? k = some r)
      (hgoto : c.table.goto? c.top r.lhs = some q) (hrow : c.table.row? q = some row) :
      Resolves c k (r.lhs, q) { c with frames := ⟨.marker r.lhs, q⟩ :: c.frames }

/-- Why the right-hand side of a rule cannot be popped. -/
inductive Mismatch (table : Table) (k : ℕ) : ParseError → Prop
  | noRule (hrule : table.rule? k = none) : Mismatch table k (noRule table k)
  | stackUnderflow : Mismatch table k .stackUnderflow
  | productionMismatch (position : ℕ) (expected found : String) :
      Mismatch table k (.productionMismatch k position expected found)

/-- Why the left-hand side of a rule cannot be pushed onto a stack with state `p` on top. -/
inductive Targetless (table : Table) (p k : ℕ) : ParseError → Prop
  | noRule (hrule : table.rule? k = none) : Targetless table p k (noRule table k)
  | unresolvedGoto {r : Rule} (hrule : table.rule? k = some r)
      (hgoto : table.goto? p r.lhs = none) : Targetless table p k (.unresolvedGoto p r.lhs)
  | noState {r : Rule} {q : ℕ} (hrule : table.rule? k = some r)
      (hgoto : table.goto? p r.lhs = some q) (hrow : table.row? q = none) :
      Targetless table p k (noState table q)

/-- A token is pushed exactly as `Shifts` says. -/
theorem pushToken_eq_ok_iff : c.pushToken q = .ok c' ↔ Shifts c q c' := by
  constructor
  · intro h
    unfold pushToken at h
    split at h
    · exact absurd h (by simp)
    · rename_i row hrow
      split at h
      · exact absurd h (by simp)
      · rename_i t rest hinput
        obtain rfl := Except.ok.inj h
        exact .intro hrow hinput
  · rintro ⟨hrow, hinput⟩
    simp only [pushToken, hrow, hinput]

/-- What is popped spells the symbols that were asked for. -/
theorem popSymbols_eq_ok_iff {symbols : List String} {frames below : List Frame} :
    popSymbols k symbols frames = .ok below ↔
      ∃ above, frames = above ++ below ∧ above.map (·.symbol.name) = symbols := by
  induction symbols generalizing frames with
  | nil => simp [popSymbols]
  | cons s before ih =>
    cases frames with
    | nil =>
      constructor
      · intro h
        exact absurd h (by simp [popSymbols])
      · rintro ⟨above, hframes, hnames⟩
        obtain ⟨rfl, -⟩ := List.append_eq_nil_iff.1 hframes.symm
        exact absurd hnames (by simp)
    | cons f frames =>
      rw [popSymbols]
      constructor
      · intro h
        split at h
        · rename_i hname
          obtain ⟨above, rfl, rfl⟩ := ih.1 h
          exact ⟨f :: above, rfl, by rw [List.map_cons, hname]⟩
        · exact absurd h (by simp)
      · rintro ⟨above, hframes, hnames⟩
        obtain ⟨f', above, rfl⟩ := List.exists_cons_of_ne_nil (l := above) fun hnil => by
          simp [hnil] at hnames
        obtain ⟨rfl, rfl⟩ := List.cons.inj hframes
        obtain ⟨hname, hnames⟩ := List.cons.inj hnames
        rw [if_pos hname]
        exact ih.2 ⟨above, rfl, hnames⟩

/-- A stack that does not spell the symbols is too short or shows another one. -/
theorem mismatch_of_popSymbols {table : Table} {symbols : List String} {frames : List Frame}
    (h : popSymbols k symbols frames = .error e) : Mismatch table k e := by
  induction symbols generalizing frames with
  | nil => exact absurd h (by simp [popSymbols])
  | cons s before ih =>
    cases frames with
    | nil =>
      obtain rfl := Except.error.inj h
      exact .stackUnderflow
    | cons f frames =>
      rw [popSymbols] at h
      split at h
      · exact ih h
      · obtain rfl := Except.error.inj h
        exact .productionMismatch ..

/-- A right-hand side is popped exactly as `Matches` says. -/
theorem matchRule_eq_ok_iff : c.matchRule k = .ok c' ↔ Matches c k c' := by
  constructor
  · intro h
    unfold matchRule at h
    split at h
    · exact absurd h (by simp)
    · rename_i r hrule
      split at h
      · exact absurd h (by simp)
      · rename_i below hpop
        obtain ⟨above, hframes, hnames⟩ := popSymbols_eq_ok_iff.1 hpop
        dsimp only at h
        split at h
        · exact absurd h (by simp)
        · rename_i hshort
          obtain rfl := Except.ok.inj h
          refine .intro hrule hframes hnames ?_ ?_
          · rw [List.reverse_reverse, List.take_append_drop]
          · rw [List.length_reverse, List.length_take]
            omega
  · rintro @⟨r, above, below, children, trees, hrule, hframes, hnames, htrees, hlen⟩
    have hpop : popSymbols k r.rhs.reverse c.frames = .ok below :=
      popSymbols_eq_ok_iff.2 ⟨above, hframes, hnames⟩
    have hlen' : children.reverse.length = r.rhs.length := by rw [List.length_reverse, hlen]
    have hshort : ¬ c.subtrees.length < r.rhs.length := by
      rw [htrees, List.length_append]
      omega
    have htake : c.subtrees.take r.rhs.length = children.reverse := by
      rw [htrees, List.take_left' hlen']
    have hdrop : c.subtrees.drop r.rhs.length = trees := by
      rw [htrees, List.drop_left' hlen']
    simp only [matchRule, hrule, hpop, if_neg hshort, htake, hdrop, List.reverse_reverse]

/-- Where a right-hand side is not popped, `Mismatch` says why. -/
theorem mismatch_of_matchRule (h : c.matchRule k = .error e) : Mismatch c.table k e := by
  unfold matchRule at h
  split at h
  · rename_i hrule
    obtain rfl := Except.error.inj h
    exact .noRule hrule
  · split at h
    · rename_i hpop
      obtain rfl := Except.error.inj h
      exact mismatch_of_popSymbols hpop
    · dsimp only at h
      split at h
      · obtain rfl := Except.error.inj h
        exact .stackUnderflow
      · exact absurd h (by simp)

/-- A left-hand side is pushed exactly as `Resolves` says. -/
theorem resolveGoto_eq_ok_iff {target : String × ℕ} :
    c.resolveGoto k = .ok (target, c') ↔ Resolves c k target c' := by
  constructor
  · intro h
    unfold resolveGoto at h
    split at h
    · exact absurd h (by simp)
    · rename_i r hrule
      split at h
      · exact absurd h (by simp)
      · rename_i q hgoto
        split at h
        · exact absurd h (by simp)
        · rename_i row hrow
          obtain ⟨rfl, rfl⟩ := Prod.mk.inj (Except.ok.inj h)
          exact .intro hrule hgoto hrow
  · rintro ⟨hrule, hgoto, hrow⟩
    simp only [resolveGoto, hrule, hgoto, hrow]

/-- Where a left-hand side is not pushed, `Targetless` says why. -/
theorem targetless_of_resolveGoto (h : c.resolveGoto k = .error e) :
    Targetless c.table c.top k e := by
  unfold resolveGoto at h
  split at h
  · rename_i hrule
    obtain rfl := Except.error.inj h
    exact .noRule hrule
  · rename_i r hrule
    split at h
    · rename_i hgoto
      obtain rfl := Except.error.inj h
      exact .unresolvedGoto hrule hgoto
    · rename_i q hgoto
      split at h
      · rename_i hrow
        obtain rfl := Except.error.inj h
        exact .noState hrule hgoto hrow
      · exact absurd h (by simp)

/-! ## Phases -/

/-- The phases that succeed, each with the context that it leaves. -/
inductive Advances (c : Context) : Progress → Context → Prop
  | accepted {t : InputToken} (hphase : c.phase = .awaiting) (hinput : c.input = [t])
      (hact : c.table.action? c.top t.symbol = some .accept) :
      Advances c .accepted { c with input := [], phase := .done }
  | shifted {t : InputToken} {rest : List InputToken} {q : ℕ} {c' : Context}
      (hphase : c.phase = .awaiting) (hinput : c.input = t :: rest)
      (hact : c.table.action? c.top t.symbol = some (.shift q)) (h : Shifts c q c') :
      Advances c (.shifted t.symbol q) c'
  | reduceStarted {t : InputToken} {rest : List InputToken} {k : ℕ} {r : Rule}
      (hphase : c.phase = .awaiting) (hinput : c.input = t :: rest)
      (hact : c.table.action? c.top t.symbol = some (.reduce k))
      (hrule : c.table.rule? k = some r) :
      Advances c (.reduceStarted k)
        { c with input := { t with inspected := true } :: rest, phase := .matching k }
  | matched {k : ℕ} {c' : Context} (hphase : c.phase = .matching k) (h : Matches c k c') :
      Advances c (.matched k) { c' with phase := .resolving k }
  | reduced {k : ℕ} {target : String × ℕ} {c' : Context} (hphase : c.phase = .resolving k)
      (h : Resolves c k target c') :
      Advances c (.reduced k target.1 target.2)
        { c' with phase := .awaiting, stats := countReduction c'.stats }

/-- The phases that fail, each with the context that it leaves. -/
inductive Halts (c : Context) : ParseError → Context → Prop
  | finished (hphase : c.phase = .done) : Halts c .finished c
  | astray (hphase : c.phase = .awaiting) (hrow : c.table.row? c.top = none) :
      Halts c (noState c.table c.top) c
  | inputExhausted {row : Row} (hphase : c.phase = .awaiting)
      (hrow : c.table.row? c.top = some row) (hinput : c.input = []) : Halts c .inputExhausted c
  | unresolvedAction {t : InputToken} {rest : List InputToken} {row : Row}
      (hphase : c.phase = .awaiting) (hrow : c.table.row? c.top = some row)
      (hinput : c.input = t :: rest) (hact : c.table.action? c.top t.symbol = none) :
      Halts c (.unresolvedAction c.top t.symbol c.expected)
        { c with input := { t with inspected := true } :: rest }
  | trailingInput {t : InputToken} {rest : List InputToken} (hphase : c.phase = .awaiting)
      (hinput : c.input = t :: rest) (hact : c.table.action? c.top t.symbol = some .accept)
      (hrest : rest ≠ []) :
      Halts c (.trailingInput rest.length)
        { c with input := { t with inspected := true } :: rest }
  | noState {t : InputToken} {rest : List InputToken} {q : ℕ} (hphase : c.phase = .awaiting)
      (hinput : c.input = t :: rest) (hact : c.table.action? c.top t.symbol = some (.shift q))
      (hrow : c.table.row? q = none) :
      Halts c (noState c.table q) { c with input := { t with inspected := true } :: rest }
  | noRule {t : InputToken} {rest : List InputToken} {k : ℕ} (hphase : c.phase = .awaiting)
      (hinput : c.input = t :: rest) (hact : c.table.action? c.top t.symbol = some (.reduce k))
      (hrule : c.table.rule? k = none) :
      Halts c (noRule c.table k) { c with input := { t with inspected := true } :: rest }
  | unmatched {k : ℕ} {e : ParseError} (hphase : c.phase = .matching k)
      (h : c.matchRule k = .error e) : Halts c e { c with phase := .awaiting }
  | unresolved {k : ℕ} {e : ParseError} (hphase : c.phase = .resolving k)
      (h : c.resolveGoto k = .error e) : Halts c e c

/-- An action needs a row. -/
theorem exists_row?_of_action? {t : Table} {symbol : String} {act : Action}
    (h : t.action? q symbol = some act) : ∃ row, t.row? q = some row := by
  obtain ⟨row, hrow, -⟩ := Option.bind_eq_some_iff.1 h
  exact ⟨row, hrow⟩

/-- Every phase succeeds in one of the ways listed or fails in one of the ways listed. -/
theorem advances_or_halts (c : Context) :
    (∃ p c', Advances c p c') ∨ ∃ e c', Halts c e c' := by
  cases hphase : c.phase with
  | done => exact .inr ⟨_, _, .finished hphase⟩
  | matching k =>
    cases hmatch : c.matchRule k with
    | error e => exact .inr ⟨_, _, .unmatched hphase hmatch⟩
    | ok c' => exact .inl ⟨_, _, .matched hphase (matchRule_eq_ok_iff.1 hmatch)⟩
  | resolving k =>
    cases hresolve : c.resolveGoto k with
    | error e => exact .inr ⟨_, _, .unresolved hphase hresolve⟩
    | ok target => exact .inl ⟨_, _, .reduced hphase (resolveGoto_eq_ok_iff.1 hresolve)⟩
  | awaiting =>
    cases hrow : c.table.row? c.top with
    | none => exact .inr ⟨_, _, .astray hphase hrow⟩
    | some row =>
      cases hinput : c.input with
      | nil => exact .inr ⟨_, _, .inputExhausted hphase hrow hinput⟩
      | cons t rest =>
        cases hact : c.table.action? c.top t.symbol with
        | none => exact .inr ⟨_, _, .unresolvedAction hphase hrow hinput hact⟩
        | some act =>
          cases act with
          | accept =>
            cases rest with
            | nil => exact .inl ⟨_, _, .accepted hphase hinput hact⟩
            | cons t' rest =>
              exact .inr ⟨_, _, .trailingInput hphase hinput hact (List.cons_ne_nil _ _)⟩
          | shift q =>
            cases hq : c.table.row? q with
            | none => exact .inr ⟨_, _, .noState hphase hinput hact hq⟩
            | some row' => exact .inl ⟨_, _, .shifted hphase hinput hact (.intro hq hinput)⟩
          | reduce k =>
            cases hrule : c.table.rule? k with
            | none => exact .inr ⟨_, _, .noRule hphase hinput hact hrule⟩
            | some r => exact .inl ⟨_, _, .reduceStarted hphase hinput hact hrule⟩

/-- With a lookahead for which there is an action, the first phase performs the action. -/
theorem tick_eq_perform {t : InputToken} {rest : List InputToken} {row : Row}
    (hphase : c.phase = .awaiting) (hrow : c.table.row? c.top = some row)
    (hinput : c.input = t :: rest) :
    c.tick =
      perform { c with input := { t with inspected := true } :: rest } c.top t.symbol := by
  unfold tick dispatch
  split
  · rename_i hdone
    exact absurd (hphase.symm.trans hdone) (by simp)
  · rw [hrow, hinput]
  · rename_i k hmatching
    exact absurd (hphase.symm.trans hmatching) (by simp)
  · rename_i k hresolving
    exact absurd (hphase.symm.trans hresolving) (by simp)

/-- Every way listed for a phase to succeed is one. -/
theorem Advances.tick_eq {p : Progress} (h : Advances c p c') : c.tick = (.ok p, c') := by
  cases h with
  | accepted hphase hinput hact =>
    obtain ⟨row, hrow⟩ := exists_row?_of_action? hact
    rw [tick_eq_perform hphase hrow hinput]
    simp only [perform, hact, List.tail_cons]
  | shifted hphase hinput hact h =>
    obtain ⟨row, hrow⟩ := exists_row?_of_action? hact
    rw [tick_eq_perform hphase hrow hinput]
    obtain ⟨hq, hinput'⟩ := h
    obtain ⟨rfl, rfl⟩ := List.cons.inj (hinput.symm.trans hinput')
    simp only [perform, hact, pushToken, hq]
  | reduceStarted hphase hinput hact hrule =>
    obtain ⟨row, hrow⟩ := exists_row?_of_action? hact
    rw [tick_eq_perform hphase hrow hinput]
    simp only [perform, hact, hrule]
  | matched hphase h => simp only [tick, hphase, matchRule_eq_ok_iff.2 h]
  | reduced hphase h => simp only [tick, hphase, resolveGoto_eq_ok_iff.2 h]

/-- Every way listed for a phase to fail is one. -/
theorem Halts.tick_eq (h : Halts c e c') : c.tick = (.error e, c') := by
  cases h with
  | finished hphase => rw [tick, hphase]
  | astray hphase hrow => rw [tick, hphase]; simp only [dispatch, hrow]
  | inputExhausted hphase hrow hinput => rw [tick, hphase]; simp only [dispatch, hrow, hinput]
  | unresolvedAction hphase hrow hinput hact =>
    rw [tick_eq_perform hphase hrow hinput]
    simp only [perform, hact, expected]
  | trailingInput hphase hinput hact hrest =>
    obtain ⟨row, hrow⟩ := exists_row?_of_action? hact
    rw [tick_eq_perform hphase hrow hinput]
    simp only [perform, hact, List.tail_cons]
  | noState hphase hinput hact hq =>
    obtain ⟨row, hrow⟩ := exists_row?_of_action? hact
    rw [tick_eq_perform hphase hrow hinput]
    simp only [perform, hact, pushToken, hq]
  | noRule hphase hinput hact hrule =>
    obtain ⟨row, hrow⟩ := exists_row?_of_action? hact
    rw [tick_eq_perform hphase hrow hinput]
    simp only [perform, hact, hrule]
  | unmatched hphase h => simp only [tick, hphase, h]
  | unresolved hphase h => simp only [tick, hphase, h]

/-- A phase succeeds in the ways listed and in no others. -/
theorem tick_eq_ok_iff {p : Progress} : c.tick = (.ok p, c') ↔ Advances c p c' := by
  refine ⟨fun h => ?_, Advances.tick_eq⟩
  rcases advances_or_halts c with ⟨p', c₁, hadv⟩ | ⟨e, c₁, hhalt⟩
  · obtain ⟨hp, rfl⟩ := Prod.mk.inj (h.symm.trans hadv.tick_eq)
    rwa [Except.ok.inj hp]
  · exact absurd (h.symm.trans hhalt.tick_eq) (by simp)

/-- A phase fails in the ways listed and in no others. -/
theorem tick_eq_error_iff : c.tick = (.error e, c') ↔ Halts c e c' := by
  refine ⟨fun h => ?_, Halts.tick_eq⟩
  rcases advances_or_halts c with ⟨p, c₁, hadv⟩ | ⟨e', c₁, hhalt⟩
  · exact absurd (h.symm.trans hadv.tick_eq) (by simp)
  · obtain ⟨he, rfl⟩ := Prod.mk.inj (h.symm.trans hhalt.tick_eq)
    rwa [Except.error.inj he]

/-- What every phase keeps, so does every instruction. -/
theorem stepWithin_keeps {P : Context → Prop} (htick : ∀ c, P c → P c.tick.2) {n : ℕ} (h : P c) :
    P (c.stepWithin n).2 := by
  induction n generalizing c with
  | zero => exact h
  | succ n ih =>
    have hkept := htick c h
    rw [stepWithin]
    split
    · rename_i e c' htick
      rwa [htick] at hkept
    · rename_i p c' htick
      rw [htick] at hkept
      split
      · exact hkept
      · exact ih hkept

/-! ### The later phases of a reduction -/

/-- With a rule to be matched, the phase that succeeds pops its right-hand side. -/
theorem Advances.of_matching {p : Progress} (hphase : c.phase = .matching k)
    (h : Advances c p c') :
    p = .matched k ∧ ∃ popped, Matches c k popped ∧ c' = { popped with phase := .resolving k } := by
  cases h with
  | accepted hphase' | shifted hphase' | reduceStarted hphase' | reduced hphase' =>
    exact absurd (hphase.symm.trans hphase') (by simp)
  | matched hphase' h =>
    obtain rfl := Phase.matching.inj (hphase.symm.trans hphase')
    exact ⟨rfl, _, h, rfl⟩

/-- With a target to be found, the phase that succeeds pushes the left-hand side. -/
theorem Advances.of_resolving {p : Progress} (hphase : c.phase = .resolving k)
    (h : Advances c p c') :
    ∃ target pushed, p = .reduced k target.1 target.2 ∧ Resolves c k target pushed ∧
      c' = { pushed with phase := .awaiting, stats := countReduction pushed.stats } := by
  cases h with
  | accepted hphase' | shifted hphase' | reduceStarted hphase' | matched hphase' =>
    exact absurd (hphase.symm.trans hphase') (by simp)
  | reduced hphase' h =>
    obtain rfl := Phase.resolving.inj (hphase.symm.trans hphase')
    exact ⟨_, _, rfl, h, rfl⟩

/-- With a rule to be matched, the phase that fails has popped nothing and gives the instruction
up. -/
theorem Halts.of_matching (hphase : c.phase = .matching k) (h : Halts c e c') :
    c.matchRule k = .error e ∧ c' = { c with phase := .awaiting } := by
  cases h with
  | finished hphase' | astray hphase' | inputExhausted hphase' | unresolvedAction hphase'
  | trailingInput hphase' | noState hphase' | noRule hphase' | unresolved hphase' =>
    exact absurd (hphase.symm.trans hphase') (by simp)
  | unmatched hphase' h =>
    obtain rfl := Phase.matching.inj (hphase.symm.trans hphase')
    exact ⟨h, rfl⟩

/-- With a target to be found, the phase that fails changes nothing. -/
theorem Halts.of_resolving (hphase : c.phase = .resolving k) (h : Halts c e c') :
    c.resolveGoto k = .error e ∧ c' = c := by
  cases h with
  | finished hphase' | astray hphase' | inputExhausted hphase' | unresolvedAction hphase'
  | trailingInput hphase' | noState hphase' | noRule hphase' | unmatched hphase' =>
    exact absurd (hphase.symm.trans hphase') (by simp)
  | unresolved hphase' h =>
    obtain rfl := Phase.resolving.inj (hphase.symm.trans hphase')
    exact ⟨h, rfl⟩

/-! ## Instructions -/

/-- The instructions that a context carries out which awaits one, each with the context that it
leaves. -/
inductive Executes (c : Context) : Action → Context → Prop
  | accept {t : InputToken} (hinput : c.input = [t])
      (hact : c.table.action? c.top t.symbol = some .accept) :
      Executes c .accept { c with input := [], phase := .done }
  | shift {t : InputToken} {rest : List InputToken} {q : ℕ} {c' : Context}
      (hinput : c.input = t :: rest) (hact : c.table.action? c.top t.symbol = some (.shift q))
      (h : Shifts c q c') : Executes c (.shift q) c'
  | reduce {t : InputToken} {rest : List InputToken} {k q : ℕ} {r : Rule} {row : Row}
      {above below : List Frame} {children trees : List Tree} (hinput : c.input = t :: rest)
      (hact : c.table.action? c.top t.symbol = some (.reduce k))
      (hrule : c.table.rule? k = some r) (hframes : c.frames = above ++ below)
      (hnames : above.map (·.symbol.name) = r.rhs.reverse)
      (htrees : c.subtrees = children.reverse ++ trees) (hlen : children.length = r.rhs.length)
      (hgoto : c.table.goto? (topOf below) r.lhs = some q) (hrow : c.table.row? q = some row) :
      Executes c (.reduce k) { c with
        input := { t with inspected := true } :: rest
        frames := ⟨.marker r.lhs, q⟩ :: below
        subtrees := .node r.lhs children :: trees
        phase := .awaiting
        stats := countReduction c.stats }

/-- A reduction is made of its phases. -/
theorem Executes.of_matches {t : InputToken} {rest : List InputToken} {popped pushed : Context}
    {target : String × ℕ} (hinput : c.input = t :: rest)
    (hact : c.table.action? c.top t.symbol = some (.reduce k)) (hmatch : Matches c k popped)
    (hresolve : Resolves popped k target pushed) :
    Executes c (.reduce k) { pushed with
      input := { t with inspected := true } :: rest
      phase := .awaiting
      stats := countReduction pushed.stats } := by
  obtain ⟨hrule, hframes, hnames, htrees, hlen⟩ := hmatch
  obtain ⟨hrule', hgoto, hrow⟩ := hresolve
  obtain rfl := Option.some.inj (hrule.symm.trans hrule')
  exact .reduce hinput hact hrule hframes hnames htrees hlen hgoto hrow

variable {n : ℕ} {act : Action} {p : Progress}

/-- An instruction fails with a phase that fails. -/
theorem stepWithin_of_halts (h : Halts c e c') : c.stepWithin (n + 1) = (.error e, c') := by
  rw [stepWithin, h.tick_eq]

/-- An instruction ends with a phase that completes it. -/
theorem stepWithin_of_completed (h : Advances c p c') (hp : p.completed = some act) :
    c.stepWithin (n + 1) = (.ok act, c') := by
  rw [stepWithin, h.tick_eq]
  simp only [hp]

/-- A phase that completes nothing is followed by the others. -/
theorem stepWithin_of_pending (h : Advances c p c') (hp : p.completed = none) :
    c.stepWithin (n + 1) = c'.stepWithin n := by
  rw [stepWithin, h.tick_eq]
  simp only [hp]

/-- Every way listed for an instruction to succeed is one. -/
theorem Executes.step_eq (hphase : c.phase = .awaiting) (h : Executes c act c') :
    c.step = (.ok act, c') := by
  unfold step
  cases h with
  | accept hinput hact => exact stepWithin_of_completed (.accepted hphase hinput hact) rfl
  | shift hinput hact h => exact stepWithin_of_completed (.shifted hphase hinput hact h) rfl
  | @reduce t rest k q r row above below children trees hinput hact hrule hframes hnames htrees hlen
      hgoto hrow =>
    -- the phases that follow are carried out on the contexts that they lead to
    set c₁ : Context := { c with
      input := { t with inspected := true } :: rest, phase := .matching k } with hc₁
    have hmatch : Matches c₁ k _ := .intro hrule hframes hnames htrees hlen
    set c₂ : Context := { c₁ with
      frames := below, subtrees := .node r.lhs children :: trees, phase := .resolving k } with hc₂
    have hresolve : Resolves c₂ k _ _ := .intro hrule hgoto hrow
    rw [stepWithin_of_pending (.reduceStarted hphase hinput hact hrule) rfl,
      stepWithin_of_pending (.matched rfl hmatch) rfl]
    exact stepWithin_of_completed (.reduced rfl hresolve) rfl

/-- How a reduction that the table chooses fails after its first phase, with the context that it
leaves. -/
inductive Breaks (c : Context) : ParseError → Context → Prop
  | unmatched {t : InputToken} {rest : List InputToken} {k : ℕ} {e : ParseError}
      (hinput : c.input = t :: rest) (hact : c.table.action? c.top t.symbol = some (.reduce k))
      (h : Mismatch c.table k e) :
      Breaks c e { c with input := { t with inspected := true } :: rest, phase := .awaiting }
  | targetless {t : InputToken} {rest : List InputToken} {k : ℕ} {e : ParseError} {r : Rule}
      {above below : List Frame} {children trees : List Tree} (hinput : c.input = t :: rest)
      (hact : c.table.action? c.top t.symbol = some (.reduce k))
      (hrule : c.table.rule? k = some r) (hframes : c.frames = above ++ below)
      (hnames : above.map (·.symbol.name) = r.rhs.reverse)
      (htrees : c.subtrees = children.reverse ++ trees) (hlen : children.length = r.rhs.length)
      (h : Targetless c.table (topOf below) k e) :
      Breaks c e { c with
        input := { t with inspected := true } :: rest
        frames := below
        subtrees := .node r.lhs children :: trees
        phase := .resolving k }

/-- The phases of a reduction behind the first one. -/
theorem stepWithin_matching_cases (hphase : c.phase = .matching k) (n : ℕ) :
    (∃ popped target pushed, Matches c k popped ∧
      Resolves { popped with phase := .resolving k } k target pushed ∧
      c.stepWithin (n + 2) = (.ok (.reduce k),
        { pushed with phase := .awaiting, stats := countReduction pushed.stats })) ∨
    (∃ e, Mismatch c.table k e ∧
      c.stepWithin (n + 2) = (.error e, { c with phase := .awaiting })) ∨
    ∃ e popped, Matches c k popped ∧ Targetless popped.table popped.top k e ∧
      c.stepWithin (n + 2) = (.error e, { popped with phase := .resolving k }) := by
  rcases advances_or_halts c with ⟨p, c₁, hadv⟩ | ⟨e, c₁, hhalt⟩
  · obtain ⟨rfl, popped, hmatch, rfl⟩ := hadv.of_matching hphase
    rw [stepWithin_of_pending hadv rfl]
    rcases advances_or_halts { popped with phase := .resolving k } with
      ⟨p, c₂, hadv'⟩ | ⟨e, c₂, hhalt⟩
    · obtain ⟨target, pushed, rfl, hresolve, rfl⟩ := hadv'.of_resolving rfl
      exact .inl ⟨popped, target, pushed, hmatch, hresolve, stepWithin_of_completed hadv' rfl⟩
    · obtain ⟨herror, rfl⟩ := hhalt.of_resolving rfl
      have htargetless := targetless_of_resolveGoto herror
      exact .inr (.inr ⟨e, popped, hmatch, htargetless, stepWithin_of_halts hhalt⟩)
  · obtain ⟨herror, rfl⟩ := hhalt.of_matching hphase
    exact .inr (.inl ⟨e, mismatch_of_matchRule herror, stepWithin_of_halts hhalt⟩)

/-- An instruction of a context that awaits one succeeds as listed, or fails in its first phase, or
is a reduction and fails later. -/
theorem step_cases (hphase : c.phase = .awaiting) :
    (∃ act c', c.step = (.ok act, c') ∧ Executes c act c') ∨
      ∃ e c', c.step = (.error e, c') ∧ (Halts c e c' ∨ Breaks c e c') := by
  unfold step
  rcases advances_or_halts c with ⟨p, c₁, hadv⟩ | ⟨e, c₁, hhalt⟩
  · cases hadv with
    | accepted _ hinput hact =>
      exact .inl ⟨_, _, stepWithin_of_completed (.accepted hphase hinput hact) rfl,
        .accept hinput hact⟩
    | shifted _ hinput hact hshift =>
      exact .inl ⟨_, _, stepWithin_of_completed (.shifted hphase hinput hact hshift) rfl,
        .shift hinput hact hshift⟩
    | @reduceStarted t rest k _ _ hinput hact hrule =>
      rw [stepWithin_of_pending (.reduceStarted hphase hinput hact hrule) rfl]
      set c₁ : Context := { c with
        input := { t with inspected := true } :: rest, phase := .matching k } with hc₁
      rcases stepWithin_matching_cases (c := c₁) rfl 0 with
        ⟨popped, target, pushed, hmatch, hresolve, hstep⟩ | ⟨e, hmismatch, hstep⟩ |
          ⟨e, popped, hmatch, htargetless, hstep⟩
      · refine .inl ⟨_, _, hstep, ?_⟩
        obtain ⟨hrule, hframes, hnames, htrees, hlen⟩ := hmatch
        obtain ⟨hrule', hgoto, hrow⟩ := hresolve
        obtain rfl := Option.some.inj (hrule.symm.trans hrule')
        exact .reduce hinput hact hrule hframes hnames htrees hlen hgoto hrow
      · exact .inr ⟨_, _, hstep, .inr (.unmatched hinput hact hmismatch)⟩
      · obtain ⟨hrule, hframes, hnames, htrees, hlen⟩ := hmatch
        exact .inr ⟨_, _, hstep,
          .inr (.targetless hinput hact hrule hframes hnames htrees hlen htargetless)⟩
    | matched hmatching => exact absurd (hphase.symm.trans hmatching) (by simp)
    | reduced hresolving => exact absurd (hphase.symm.trans hresolving) (by simp)
  · exact .inr ⟨e, c₁, stepWithin_of_halts hhalt, .inl hhalt⟩

/-- What a context carries out that awaits an instruction is as listed. -/
theorem executes_of_step (hphase : c.phase = .awaiting) (h : c.step = (.ok act, c')) :
    Executes c act c' := by
  rcases step_cases hphase with ⟨act', c₁, hstep, hexec⟩ | ⟨e, c₁, hstep, -⟩
  · obtain ⟨hact, rfl⟩ := Prod.mk.inj (h.symm.trans hstep)
    rwa [Except.ok.inj hact]
  · exact absurd (h.symm.trans hstep) (by simp)

/-- Only the first phase of an instruction can find that there is no action. -/
theorem halts_of_step_unresolvedAction {a : String} {expected : List String}
    (hphase : c.phase = .awaiting)
    (h : c.step = (.error (.unresolvedAction q a expected), c')) :
    Halts c (.unresolvedAction q a expected) c' := by
  rcases step_cases hphase with ⟨act, c₁, hstep, -⟩ | ⟨e, c₁, hstep, hfail⟩
  · exact absurd (h.symm.trans hstep) (by simp)
  obtain ⟨he, rfl⟩ := Prod.mk.inj (h.symm.trans hstep)
  obtain rfl := Except.error.inj he
  rcases hfail with hhalt | hbreak
  · exact hhalt
  · cases hbreak with
    | unmatched _ _ hmismatch => nomatch hmismatch
    | targetless _ _ _ _ _ _ _ htargetless => nomatch htargetless

/-! ## Instructions that the caller chooses -/

/-- A shift succeeds or leaves the context as it is. -/
theorem shift_cases (c : Context) (q : ℕ) :
    (∃ c', c.shift q = (.ok (), c') ∧ c.phase = .awaiting ∧ Shifts c q c') ∨
      ∃ e, c.shift q = (.error e, c) := by
  unfold shift ensureAwaiting
  cases hphase : c.phase with
  | awaiting =>
    cases hpush : c.pushToken q with
    | error e => exact .inr ⟨e, rfl⟩
    | ok c' => exact .inl ⟨c', rfl, rfl, pushToken_eq_ok_iff.1 hpush⟩
  | matching | resolving | done => exact .inr ⟨_, rfl⟩

/-- A reduction succeeds, or leaves the context as it is, or fails with its right-hand side
popped. -/
theorem reduce_cases (c : Context) (k : ℕ) :
    (∃ popped target pushed, c.phase = .awaiting ∧ Matches c k popped ∧
      Resolves popped k target pushed ∧
      c.reduce k = (.ok (), { pushed with stats := countReduction pushed.stats })) ∨
    (∃ e, c.reduce k = (.error e, c) ∧
      (e = .finished ∨ e = .notIdle ∨ Mismatch c.table k e)) ∨
    ∃ e popped, c.reduce k = (.error e, popped) ∧ c.phase = .awaiting ∧ Matches c k popped ∧
      Targetless popped.table popped.top k e := by
  unfold reduce ensureAwaiting
  cases hphase : c.phase with
  | matching | resolving => exact .inr (.inl ⟨_, rfl, .inr (.inl rfl)⟩)
  | done => exact .inr (.inl ⟨_, rfl, .inl rfl⟩)
  | awaiting =>
    cases hmatch : c.matchRule k with
    | error e => exact .inr (.inl ⟨e, rfl, .inr (.inr (mismatch_of_matchRule hmatch))⟩)
    | ok popped =>
      have hpopped := matchRule_eq_ok_iff.1 hmatch
      cases hresolve : popped.resolveGoto k with
      | error e =>
        exact .inr (.inr ⟨e, popped, by simp only [hresolve], rfl, hpopped,
          targetless_of_resolveGoto hresolve⟩)
      | ok target =>
        exact .inl ⟨popped, target.1, target.2, rfl, hpopped, resolveGoto_eq_ok_iff.1 hresolve,
          by simp only [hresolve]⟩

end Context

end ShiftReduce
