import ShiftReduce.Proofs.Engine.Foresight
import ShiftReduce.Proofs.Engine.Lookahead
import ShiftReduce.Proofs.Engine.Termination

/-!
# The terminals that an error expects

An error lists the terminals for which the state on top of the stack has an action. Whether one of
them is read in the end is not up to this state: a reduction is an action at every terminal that can
follow its left-hand side on some stack, and on the stack at hand a reduction later there may be no
action any more. So every terminal that can come next on the stack is in the list, and exactly these
terminals are read, while the others in the list are rejected after some reductions
(`Build.run_expected`).
-/

namespace ShiftReduce

open Context

namespace Context

/-- The context with one token left to read. -/
def offer (c : Context) (a : String) : Context := { c with input := [⟨a, false⟩] }

/-- After some reductions a token is shifted or the input is accepted. -/
inductive Consumes : Context → Prop
  | shift {c c' : Context} {q : ℕ} (hstep : c.step = (.ok (.shift q), c')) : Consumes c
  | accept {c c' : Context} (hstep : c.step = (.ok .accept, c')) : Consumes c
  | reduce {c c' : Context} {k : ℕ} (hstep : c.step = (.ok (.reduce k), c')) (h : Consumes c') :
      Consumes c

variable {g : Grammar} {name : Option String} {c c' : Context} {symbols rest : List Symbol}
  {u : InputToken} {a : String} {q t k : ℕ} {expected : List String}

/-- A terminal at which the next instruction fails is not taken. -/
theorem not_consumes_of_error {e : ParseError} (hstep : c.step = (.error e, c')) :
    ¬ Consumes c := by
  rintro (hstep' | hstep' | hstep') <;> exact absurd (hstep.symm.trans hstep') (by simp)

/-- A reduction leaves it open whether the terminal is taken. -/
theorem consumes_iff_of_reduce (hstep : c.step = (.ok (.reduce k), c')) :
    Consumes c ↔ Consumes c' := by
  refine ⟨fun h => ?_, .reduce hstep⟩
  cases h with
  | shift hstep' | accept hstep' => exact absurd (hstep.symm.trans hstep') (by simp)
  | reduce hstep' h =>
    obtain ⟨-, rfl⟩ := Prod.mk.inj (hstep.symm.trans hstep')
    exact h

/-! ## What can come next is read -/

/-- A token that comes next behind the stack is read. -/
theorem consumes_of_viable (hg : g.WellFormed) (hc : g.automaton.conflicts = [])
    (h : Viable g symbols rest) (hbegins : Begins g rest t) (hready : Ready g name symbols c)
    (hinput : c.input = [u]) (hu : g.augment.name (.terminal t) = u.symbol) : Consumes c := by
  induction h generalizing c u with
  | whole =>
    cases hbegins with
    | endMarker =>
      exact .accept (step_of_accept hg hready hinput hu (Viable.action?_whole hc hready.path))
  | shift h ih =>
    cases hbegins with
    | terminal t rest =>
      obtain ⟨q, -, hact⟩ := h.action?_shift hc hready.path
      exact .shift (step_of_shift hg hready hinput hu hact)
  | @reduce p symbols rest hp h ih =>
    obtain ⟨k, hpk, hact⟩ := h.action?_reduce hg hc hp hready.path hbegins
    obtain ⟨children, trees, hlen, htrees⟩ :=
      Tree.exists_children (n := p.rhs.length) c.subtrees (by simp [hready.length_eq])
    obtain ⟨q, hq, hstep⟩ := step_of_reduce hg hready hinput hu hpk hact hlen htrees
    exact .reduce hstep (ih hbegins (hready.reduce hlen htrees hq) rfl hu)

/-- A token that is read comes next behind the stack. -/
theorem Consumes.canFollow (hg : g.WellFormed) (h : Consumes c) (hready : Ready g name symbols c)
    (hinput : c.input = [u]) :
    ∃ t, g.augment.name (.terminal t) = u.symbol ∧ CanFollow g symbols t := by
  induction h generalizing symbols u with
  | shift hstep =>
    have hstepped := hready.stepped hg
    rw [hstep] at hstepped
    cases hstepped with
    | shifted hinput' hn hact =>
      obtain ⟨rfl, -⟩ := List.cons.inj (hinput.symm.trans hinput')
      exact ⟨_, hn, hready.path.canFollow_of_shift hg hact⟩
  | accept hstep =>
    have hstepped := hready.stepped hg
    rw [hstep] at hstepped
    cases hstepped with
    | accepted hinput' hn hact =>
      obtain ⟨rfl, -⟩ := List.cons.inj (hinput.symm.trans hinput')
      exact ⟨_, hn, hready.path.canFollow_of_accept hg hact⟩
  | reduce hstep _ ih =>
    have hstepped := hready.stepped hg
    rw [hstep] at hstepped
    cases hstepped with
    | reduced hinput' hn hact hp hsymbols hlen htrees hq =>
      obtain ⟨rfl, rfl⟩ := List.cons.inj (hinput.symm.trans hinput')
      rw [hsymbols] at hready ⊢
      obtain ⟨t, hname, hfollow⟩ := ih (hready.reduce hlen htrees hq) rfl
      have hmem := Grammar.mem_productions_of_augment (exists_production_of_reduce hact).1 hp
      exact ⟨t, hname, hfollow.reduce hmem⟩

/-! ## What is listed -/

/-- The expected terminals are those for which the state on top has an action. -/
theorem mem_expected_iff : a ∈ c.expected ↔ ∃ act, c.table.action? c.top a = some act := by
  unfold expected Table.expected Table.action?
  cases c.table.row? c.top with
  | none => simp
  | some row => exact OrderedMap.mem_keys

/-- A token that is read is listed. -/
theorem Consumes.mem_expected (h : Consumes c) (hphase : c.phase = .awaiting)
    (hinput : c.input = [u]) : u.symbol ∈ c.expected := by
  have hexec : ∃ act c', Executes c act c' := by
    cases h with
    | shift hstep | accept hstep | reduce hstep =>
      exact ⟨_, _, executes_of_step hphase hstep⟩
  obtain ⟨act, c', hexec⟩ := hexec
  rw [mem_expected_iff]
  cases hexec with
  | accept hinput' hact | shift hinput' hact | reduce hinput' hact =>
    obtain ⟨rfl, -⟩ := List.cons.inj (hinput.symm.trans hinput')
    exact ⟨_, hact⟩

/-- The error of a run lists what the state on top of the stack has actions for. -/
theorem RunsTo.expected_eq (hrun : RunsTo c (.error (.unresolvedAction q a expected), c'))
    (hphase : c.phase = .awaiting) : c'.expected = expected := by
  generalize houtcome : (Except.error (ParseError.unresolvedAction q a expected), c') = outcome
    at hrun
  induction hrun with
  | done => simp at houtcome
  | failed _ hstep =>
    obtain ⟨he, rfl⟩ := Prod.mk.inj houtcome
    obtain rfl := Except.error.inj he
    cases halts_of_step_unresolvedAction hphase hstep with
    | unresolvedAction => rfl
    | unmatched hphase' | unresolved hphase' =>
      exact absurd (hphase.symm.trans hphase') (by simp)
  | step _ hstep hrun ih =>
    have hexec := executes_of_step hphase hstep
    refine ih (hexec.phase_eq hphase ?_) houtcome
    rintro rfl
    have hdone := (RunsTo.done hexec.phase_eq_done).unique hrun
    rw [← houtcome] at hdone
    exact absurd hdone (by simp)

/-! ## What cannot come next is rejected -/

/-- An instruction fails at a single token only without an action. -/
theorem Ready.action?_eq_none {e : ParseError} (hg : g.WellFormed) (h : Ready g name symbols c)
    (hinput : c.input = [u]) (hstep : c.step = (.error e, c')) :
    c.table.action? c.top u.symbol = none := by
  have hstepped := h.stepped hg
  rw [hstep] at hstepped
  cases hstepped with
  | failed hnone =>
    rw [Option.eq_none_iff_forall_ne_some]
    intro act hact
    rw [h.table_eq] at hact
    obtain ⟨n, hn, hact⟩ := (Build.action?_eq_some_iff hg).1 hact
    -- tokens behind an accepted one are the only other fault
    exact absurd rfl (hnone u [] n act hinput hn hact).2

/-- A token that is listed but not read is reduced at. -/
theorem Ready.exists_reduce (hg : g.WellFormed) (h : Ready g name symbols c)
    (hinput : c.input = [u]) (hlisted : u.symbol ∈ c.expected) (hnot : ¬ Consumes c) :
    ∃ k c', c.step = (.ok (.reduce k), c') := by
  have hstepped := h.stepped hg
  generalize hstep : c.step = outcome at hstepped
  cases hstepped with
  | failed =>
    obtain ⟨act, hact⟩ := mem_expected_iff.1 hlisted
    exact absurd (hact.symm.trans (h.action?_eq_none hg hinput hstep)) (by simp)
  | accepted => exact absurd (Consumes.accept hstep) hnot
  | shifted => exact absurd (Consumes.shift hstep) hnot
  | reduced => exact ⟨_, _, rfl⟩

/-- The only error at a single token is that it has no action. -/
theorem Ready.eq_unresolvedAction {e : ParseError} (hg : g.WellFormed) (h : Ready g name symbols c)
    (hinput : c.input = [u]) (hstep : c.step = (.error e, c')) :
    e = .unresolvedAction c.top u.symbol c.expected := by
  obtain ⟨row, hrow⟩ := (Build.exists_row?_iff name).2 h.path.top_lt
  rw [← h.table_eq] at hrow
  have hact := h.action?_eq_none hg hinput hstep
  have hhalts := stepWithin_of_halts (n := 2) (.unresolvedAction h.phase_eq hrow hinput hact)
  exact Except.error.inj (congrArg Prod.fst (hstep.symm.trans hhalts))

/-- A token that is not read is rejected, if the run over it ends. -/
theorem RunsTo.rejects {outcome : Outcome Unit} (hg : g.WellFormed) (hrun : RunsTo c outcome)
    (h : Ready g name symbols c) (hinput : c.input = [u]) (hnot : ¬ Consumes c) :
    ∃ q expected, outcome.1 = .error (.unresolvedAction q u.symbol expected) := by
  induction hrun generalizing symbols u with
  | done hphase => exact absurd hphase h.phase_ne
  | failed _ hstep => exact ⟨_, _, congrArg Except.error (h.eq_unresolvedAction hg hinput hstep)⟩
  | step _ hstep _ ih =>
    have hstepped := h.stepped hg
    rw [hstep] at hstepped
    cases hstepped with
    | accepted => exact absurd (Consumes.accept hstep) hnot
    | shifted => exact absurd (Consumes.shift hstep) hnot
    | reduced hinput' hn hact hp hsymbols hlen htrees hq =>
      obtain ⟨rfl, rfl⟩ := List.cons.inj (hinput.symm.trans hinput')
      rw [hsymbols] at h
      have hnot' := fun hread => hnot (.reduce hstep hread)
      exact ih (u := { u with inspected := true }) (h.reduce hlen htrees hq) rfl hnot'

/-- Another token can be offered at any point of a parse. -/
theorem Invariant.offer {ts : List String} (h : Invariant g name ts c symbols [] [])
    (hphase : c.phase = .awaiting) (a : String) :
    Invariant g name (Tree.forestYield c.forest ++ [a]) (c.offer a) symbols [] [] where
  table_eq := h.table_eq
  path := h.path
  standing := .awaiting hphase
  trees := h.trees
  tokens := List.append_nil _
  shifts := h.shifts
  reductions := h.reductions

/-- With the invariant, a context between two instructions is ready for the next one. -/
theorem Invariant.ready {ts : List String} (h : Invariant g name ts c symbols [] [])
    (hphase : c.phase = .awaiting) : Ready g name symbols c :=
  ⟨h.table_eq, hphase, h.path, h.length_eq⟩

end Context

/-- The frames hold the symbols in their form on the stack. -/
theorem Path.map_stackSymbol {g : Grammar} {symbols : List Symbol} {frames : List Frame}
    (h : Path g symbols frames) :
    symbols.map g.augment.stackSymbol = frames.map (·.symbol) := by
  induction h with
  | nil => rfl
  | cons _ _ ih => rw [List.map_cons, List.map_cons, ih]

/-! ## An error of a run -/

/-- A grammar in which `c` or `d` follows an `A`, depending on what is in front of it. -/
def Grammar.enclosed : Grammar where
  terminals := ⟨["a", "c", "b", "d", "x"], by decide⟩
  nonterminals := ⟨["S", "A"], by decide⟩
  productions := [⟨0, [.terminal 0, .nonterminal 1, .terminal 1]⟩,
    ⟨0, [.terminal 2, .nonterminal 1, .terminal 3]⟩, ⟨1, [.terminal 4]⟩]
  productions_ne_nil := by decide

/-- The grammar is what its three lines are read as. -/
theorem Grammar.read_enclosed : read "S -> a A c\nS -> b A d\nA -> x" = .ok enclosed := by
  decide +kernel

/-- Every nonterminal of the grammar derives terminals. -/
theorem Grammar.productive_enclosed {n : ℕ} (hn : enclosed.InRange (.nonterminal n)) :
    enclosed.Productive (.nonterminal n) := by
  have hleaf : ∀ t < 5, Tree.Spells enclosed (.terminal t) (.leaf (enclosed.name (.terminal t))) :=
    fun t ht => Tree.spells_leaf ht
  have hA : Tree.Spells enclosed (.nonterminal 1) (.node "A" [.leaf "x"]) :=
    Tree.spells_node (p := ⟨1, [.terminal 4]⟩) (by decide) (.cons (hleaf 4 (by decide)) .nil)
  have hS : Tree.Spells enclosed (.nonterminal 0)
      (.node "S" [.leaf "a", .node "A" [.leaf "x"], .leaf "c"]) :=
    Tree.spells_node (p := ⟨0, [.terminal 0, .nonterminal 1, .terminal 1]⟩) (by decide)
      (.cons (hleaf 0 (by decide)) (.cons hA (.cons (hleaf 1 (by decide)) .nil)))
  have hn : n < 2 := hn
  obtain rfl | rfl : n = 0 ∨ n = 1 := by omega
  · exact ⟨_, hS⟩
  · exact ⟨_, hA⟩

/-- The end of the input is met behind an `a` and an `x`. -/
def Context.enclosed : Context where
  table := (Build.ofGrammar Grammar.enclosed none).table
  input := [⟨"$", true⟩]
  frames := [⟨.token "x", 5⟩, ⟨.token "a", 2⟩]
  subtrees := [.leaf "x", .leaf "a"]
  phase := .awaiting
  stats := ⟨2, 0⟩

/-- Where `c` is offered, it is taken. -/
theorem Context.consumes_enclosed : Consumes (enclosed.offer "c") := by
  have hreduce : (enclosed.offer "c").step = (.ok (.reduce 3), (enclosed.offer "c").step.2) := by
    decide +kernel
  have hshift : (enclosed.offer "c").step.2.step =
      (.ok (.shift 7), (enclosed.offer "c").step.2.step.2) := by decide +kernel
  exact .reduce hreduce (.shift hshift)

/-- Before `d` the `x` is reduced to an `A`, behind which `d` is refused. -/
theorem Context.not_consumes_enclosed : ¬ Consumes (enclosed.offer "d") := by
  have hreduce : (enclosed.offer "d").step = (.ok (.reduce 3), (enclosed.offer "d").step.2) := by
    decide +kernel
  have herror : (enclosed.offer "d").step.2.step =
      (.error (.unresolvedAction 4 "d" ["c"]), (enclosed.offer "d").step.2.step.2) := by
    decide +kernel
  rw [consumes_iff_of_reduce hreduce]
  exact not_consumes_of_error herror

namespace Build

/-- The table is the one of the grammar. -/
theorem ofText_enclosed : ofText "S -> a A c\nS -> b A d\nA -> x" none =
    .ok (ofGrammar Grammar.enclosed none) :=
  ofText_eq_ok_iff.2 ⟨_, Grammar.read_enclosed, rfl⟩

/-- It has no conflicts. -/
theorem conflicts_enclosed : (ofGrammar Grammar.enclosed none).conflicts = [] := by decide +kernel

/-- The run on `a x` fails behind `x` and expects `c` and `d`. -/
theorem run_enclosed :
    (Context.new (ofGrammar Grammar.enclosed none).table ["a", "x", "$"]).runWithin 3 =
      some (.error (.unresolvedAction 5 "$" ["c", "d"]), .enclosed) := by decide +kernel

/-- Without conflicts in the table, what is offered instead of a token without an action is read if
and only if it can come next behind the symbols on the stack. All that can is listed in the error.
What is listed besides is rejected by an error of the same kind, behind at least one reduction. -/
theorem run_expected {text : String} {name : Option String} {b : Build} {ts : List String}
    {fuel q : ℕ} {a : String} {expected : List String} {c : Context}
    (hb : ofText text name = .ok b) (hc : b.conflicts = [])
    (hrun : (Context.new b.table ts).runWithin fuel =
      some (.error (.unresolvedAction q a expected), c)) :
    ∃ symbols, symbols.map b.source.augment.stackSymbol = c.frames.map (·.symbol) ∧
      (∀ u, Consumes (c.offer u) ↔
        ∃ t, b.source.augment.name (.terminal t) = u ∧ CanFollow b.source symbols t) ∧
      (∀ u, Consumes (c.offer u) → u ∈ expected) ∧
      ∀ u ∈ expected, ¬ Consumes (c.offer u) →
        (∃ k c', (c.offer u).step = (.ok (.reduce k), c')) ∧
        (∀ m outcome, (c.offer u).runWithin m = some outcome →
          ∃ q' expected', outcome.1 = .error (.unresolvedAction q' u expected')) ∧
        ((∀ n, b.source.Reachable n → b.source.Productive (.nonterminal n)) →
          ∃ m outcome, (c.offer u).runWithin m = some outcome) := by
  obtain ⟨g, hread, rfl⟩ := ofText_eq_ok_iff.1 hb
  have hg := Grammar.wellFormed_of_read hread
  have hruns := runsTo_of_runWithin hrun
  have hphase := hruns.exists_prefix.1
  have hupheld : Upheld g name ts c :=
    (Upheld.runsTo hg ⟨_, _, _, invariant_new g name ts⟩ hruns).1
  obtain ⟨symbols, h⟩ := hupheld.awaiting hphase
  have hoffer : ∀ u, Ready g name symbols (c.offer u) := fun u => (h.offer hphase u).ready hphase
  have hexpected : ∀ u, (c.offer u).expected = expected := fun _ => hruns.expected_eq rfl
  refine ⟨symbols, h.path.map_stackSymbol, fun u => ⟨fun hread => ?_, ?_⟩, fun u hread => ?_,
    fun u hu hnot => ⟨?_, fun m outcome hm => ?_, fun hproductive => ?_⟩⟩
  · exact hread.canFollow hg (hoffer u) rfl
  · rintro ⟨t, ht, rest, hviable, hbegins⟩
    exact consumes_of_viable hg hc hviable hbegins (hoffer u) rfl ht
  · have hmem := hread.mem_expected (hoffer u).phase_eq rfl
    rwa [hexpected] at hmem
  · refine (hoffer u).exists_reduce hg rfl ?_ hnot
    rwa [hexpected]
  · exact (runsTo_of_runWithin hm).rejects hg (hoffer u) rfl hnot
  · have hends : ¬ Endless g name (Tree.forestYield c.forest ++ [u]) (c.offer u) :=
      not_endless hg hc hproductive
    obtain ⟨outcome, hrun⟩ := exists_runsTo ⟨_, _, _, h.offer hphase u⟩ hphase hends
    obtain ⟨m, hm⟩ := hrun.exists_runWithin
    exact ⟨m, outcome, hm⟩

/-- Behind `a` and `x` both `c` and `d` are listed; `c` can come next and `d` is rejected. -/
theorem run_expected_enclosed : ∃ b c, ofText "S -> a A c\nS -> b A d\nA -> x" none = .ok b ∧
    b.conflicts = [] ∧ (Context.new b.table ["a", "x", "$"]).runWithin 3 =
      some (.error (.unresolvedAction 5 "$" ["c", "d"]), c) ∧
    (∃ symbols t, symbols.map b.source.augment.stackSymbol = c.frames.map (·.symbol) ∧
      b.source.augment.name (.terminal t) = "c" ∧ CanFollow b.source symbols t) ∧
    ∃ m outcome q expected, (c.offer "d").runWithin m = some outcome ∧
      outcome.1 = .error (.unresolvedAction q "d" expected) := by
  refine ⟨_, _, ofText_enclosed, conflicts_enclosed, run_enclosed, ?_⟩
  obtain ⟨symbols, hsymbols, hread, -, hlisted⟩ :=
    run_expected ofText_enclosed conflicts_enclosed run_enclosed
  obtain ⟨t, ht, hfollow⟩ := (hread "c").1 consumes_enclosed
  obtain ⟨-, hrejects, hends⟩ := hlisted "d" (by decide) not_consumes_enclosed
  obtain ⟨m, outcome, hm⟩ := hends fun n hn =>
    Grammar.productive_enclosed (hn.inRange (Grammar.wellFormed_of_read Grammar.read_enclosed))
  obtain ⟨q, expected, houtcome⟩ := hrejects m outcome hm
  exact ⟨⟨symbols, t, hsymbols, ht, hfollow⟩, m, outcome, q, expected, hm, houtcome⟩

/-- Of the terminals that an error lists not all are read. -/
theorem run_expected_ne : ∃ b c, ofText "S -> a A c\nS -> b A d\nA -> x" none = .ok b ∧
    b.conflicts = [] ∧ (Context.new b.table ["a", "x", "$"]).runWithin 3 =
      some (.error (.unresolvedAction 5 "$" ["c", "d"]), c) ∧
    "d" ∈ ["c", "d"] ∧ ¬ Consumes (c.offer "d") :=
  ⟨_, _, ofText_enclosed, conflicts_enclosed, run_enclosed, by decide, not_consumes_enclosed⟩

end Build

end ShiftReduce
