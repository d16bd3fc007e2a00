import Mathlib.Data.Fintype.Pigeonhole
import Mathlib.Order.Interval.Finset.Nat
import ShiftReduce.Proofs.Engine.Completeness
import ShiftReduce.Proofs.Engine.Invariant
import ShiftReduce.Proofs.Engine.Sessions
import ShiftReduce.Proofs.Grammar.Productive

/-!
# Parses end

A reduction reads nothing, so what has to be ruled out is an endless sequence of reductions at one
lookahead, which need not be a terminal that can come next. If every nonterminal that can occur is
productive, each stack of such a sequence can be completed (`Path.completable`), and so can the
first one, by the same terminals. Without conflicts the first terminal of the completion determines
the reductions up to there. Some terminal comes first infinitely often, and determines them all:
a completion that begins with it would have to reduce without end.

Without productivity there are grammars with tables without conflicts on which a parse reduces
without end: see `run_endless`.
-/

namespace ShiftReduce

open Context

variable {g : Grammar} {name : Option String}

/-! ## Every stack can be completed -/

/-- Every stack can be completed. -/
theorem Path.completable {symbols : List Symbol} {frames : List Frame} (hg : g.WellFormed)
    (hproductive : ∀ n, g.Reachable n → g.Productive (.nonterminal n))
    (h : Path g symbols frames) : ∃ rest, Completable g symbols rest := by
  obtain ⟨rest, hviable⟩ := h.viable hg
  exact hviable.completable hg hproductive

/-! ## Endless sequences of reductions -/

/-- Stacks each of which a reduction turns into the next one. -/
structure Reductions (g : Grammar) (stack : ℕ → List Symbol) (frames : ℕ → List Frame) :
    Prop where
  path : ∀ m, Path g (stack m) (frames m)
  reduce : ∀ m, ∃ p ∈ g.productions, ∃ below,
    stack m = p.rhs.reverse ++ below ∧ stack (m + 1) = .nonterminal p.lhs :: below

/-- The action of the stack at a terminal is the reduction to the next stack. -/
def ReducedAt (g : Grammar) (stack : ℕ → List Symbol) (frames : ℕ → List Frame) (m b : ℕ) : Prop :=
  ∃ k p below, g.augment.productions[k]? = some p ∧ stack m = p.rhs.reverse ++ below ∧
    stack (m + 1) = .nonterminal p.lhs :: below ∧
    g.automaton.action? (topOf (frames m)) b = some (.reduce k)

namespace Reductions

variable {stack : ℕ → List Symbol} {frames : ℕ → List Frame} {rest : List ℕ} {m b : ℕ}

/-- What completes a later stack completes an earlier one. -/
theorem completable_back (h : Reductions g stack frames) (i : ℕ)
    (hrest : Completable g (stack (m + i)) rest) : Completable g (stack m) rest := by
  induction i with
  | zero => exact hrest
  | succ i ih =>
    obtain ⟨p, hp, below, hbefore, hafter⟩ := h.reduce (m + i)
    rw [← Nat.add_assoc, hafter] at hrest
    apply ih
    rw [hbefore]
    exact hrest.reduce hp

/-- The next stack's completion begins with a terminal at which this stack is reduced. -/
theorem reducedAt_of_completable (hg : g.WellFormed) (hc : g.automaton.conflicts = [])
    (h : Reductions g stack frames) (hrest : Completable g (stack (m + 1)) rest) :
    ReducedAt g stack frames m (rest.headD g.augment.endMarker) := by
  obtain ⟨p, hp, below, hbefore, hafter⟩ := h.reduce m
  rw [hafter] at hrest
  obtain ⟨n, hn⟩ := hrest
  -- any trees will do, since they do not matter to the actions
  obtain ⟨T, hT⟩ := hn (List.replicate (below.length + 1) (.leaf "")) (by simp)
  have hpath := h.path m
  rw [hbefore] at hpath
  obtain ⟨k, hk, hact⟩ :=
    Viable.action?_reduce hg hc hp hpath hT.viable (Completes.begins g rest)
  exact ⟨k, p, below, hk, hbefore, hafter, hact⟩

/-- If all stacks are reduced at a terminal, no completion of one of them begins with it. -/
theorem not_completes (hg : g.WellFormed) (hc : g.automaton.conflicts = [])
    (h : Reductions g stack frames) (hact : ∀ m, ReducedAt g stack frames m b)
    {T : Tree} {n : ℕ} {symbols : List Symbol} {trees : List Tree}
    (hT : Completes g T n symbols trees rest) (hm : stack m = symbols) :
    rest.headD g.augment.endMarker ≠ b := by
  rintro rfl
  -- the completion would have to begin with the reduction, and after it with the next one
  induction hT generalizing m with
  | whole =>
    obtain ⟨k, p, below, -, -, -, hreduce⟩ := hact m
    have hpath := h.path m
    rw [hm] at hpath
    rw [List.headD_nil, Viable.action?_whole hc hpath] at hreduce
    cases Option.some.inj hreduce
  | @shift n t symbols trees rest hT =>
    obtain ⟨k, p, below, -, -, -, hreduce⟩ := hact m
    have hpath := h.path m
    rw [hm] at hpath
    obtain ⟨q, -, hshift⟩ := Viable.action?_shift hc hpath hT.viable
    rw [List.headD_cons, hshift] at hreduce
    cases Option.some.inj hreduce
  | @reduce n p symbols trees children rest hp hlen hT ih =>
    obtain ⟨k, p', below, hk, hbefore, hafter, hreduce⟩ := hact m
    have hpath := h.path m
    rw [hm] at hpath
    obtain ⟨k', hk', hreduce'⟩ :=
      Viable.action?_reduce hg hc hp hpath hT.viable (Completes.begins g rest)
    rw [hreduce] at hreduce'
    cases Option.some.inj hreduce'
    obtain rfl := Option.some.inj (hk.symm.trans hk')
    refine ih (m := m + 1) ?_ hact
    rw [hafter, List.append_cancel_left (hbefore.symm.trans hm)]

/-- There is no endless sequence of reductions. -/
theorem false (hg : g.WellFormed) (hc : g.automaton.conflicts = [])
    (hproductive : ∀ n, g.Reachable n → g.Productive (.nonterminal n))
    (h : Reductions g stack frames) : False := by
  have hcompletable : ∀ m, ∃ rest, Completable g (stack (m + 1)) rest :=
    fun m => (h.path (m + 1)).completable hg hproductive
  choose rest hrest using hcompletable
  have hlt : ∀ m, (rest m).headD g.augment.endMarker < g.augment.terminals.size := by
    intro m
    obtain ⟨k, p, below, -, -, -, hact⟩ := h.reducedAt_of_completable hg hc (hrest m)
    exact Build.inRange_of_action? hg hact
  -- some terminal begins the completions of stacks that come as late as one likes
  obtain ⟨b, hb⟩ := Finite.exists_infinite_fiber
    fun m => (⟨_, hlt m⟩ : Fin g.augment.terminals.size)
  have hlate : ∀ m, ∃ m' > m, (rest m').headD g.augment.endMarker = b := by
    intro m
    obtain ⟨m', hm', hlt'⟩ := (Set.infinite_coe_iff.1 hb).exists_gt m
    exact ⟨m', hlt', congrArg Fin.val hm'⟩
  -- each stack is completed as a later one is, by terminals that begin with that terminal
  have hact : ∀ m, ReducedAt g stack frames m b := by
    intro m
    obtain ⟨m', hm', hhead⟩ := hlate m
    rw [← hhead]
    refine h.reducedAt_of_completable hg hc (h.completable_back (m' - m) ?_)
    rw [show m + 1 + (m' - m) = m' + 1 by omega]
    exact hrest m'
  obtain ⟨m, -, hhead⟩ := hlate 0
  obtain ⟨n, hn⟩ := hrest m
  obtain ⟨T, hT⟩ := hn (List.replicate (stack (m + 1)).length (.leaf "")) (by simp)
  exact h.not_completes hg hc hact hT rfl hhead

end Reductions

/-! ## Endless runs -/

namespace Context

variable {ts : List String} {c c' : Context} {symbols : List Symbol}

/-- A context whose run does not end. -/
structure Endless (g : Grammar) (name : Option String) (ts : List String) (c : Context) : Prop where
  upheld : Upheld g name ts c
  phase_eq : c.phase = .awaiting
  not_runsTo : ∀ outcome, ¬ RunsTo c outcome

/-- In an endless run an instruction succeeds and leads to an endless run. It shifts, or it reduces
what is on the stack. -/
theorem Endless.step (hg : g.WellFormed) (h : Endless g name ts c) :
    Endless g name ts c.step.2 ∧ (c.step.2.input.length < c.input.length ∨
      c.step.2.input.length = c.input.length ∧ ∀ symbols, Path g symbols c.frames →
        ∃ p ∈ g.productions, ∃ below, symbols = p.rhs.reverse ++ below ∧
          Path g (.nonterminal p.lhs :: below) c.step.2.frames) := by
  obtain ⟨symbols, hready⟩ := h.upheld.ready h.phase_eq
  have hstepped := hready.stepped hg
  have hupheld := (h.upheld.step hg).1
  have hnext : ∀ act c', c.step = (.ok act, c') → ∀ outcome, ¬ RunsTo c' outcome :=
    fun act c' hstep outcome hrun => h.not_runsTo outcome (.step hready.phase_ne hstep hrun)
  have hfail : ∀ e c', c.step ≠ (.error e, c') :=
    fun e c' hstep => h.not_runsTo _ (.failed hready.phase_ne hstep)
  generalize c.step = outcome at hupheld hstepped hnext hfail ⊢
  cases hstepped with
  | failed => exact absurd rfl (hfail _ _)
  | accepted => exact absurd (.done rfl) (hnext _ _ rfl _)
  | shifted hinput =>
    exact ⟨⟨hupheld, h.phase_eq, hnext _ _ rfl⟩, .inl (by simp [hinput])⟩
  | @reduced t rest n k q p below children trees hinput hn hact hp hsymbols hlen htrees hq =>
    refine ⟨⟨hupheld, rfl, hnext _ _ rfl⟩, .inr ⟨by simp [hinput], fun symbols' hpath' => ?_⟩⟩
    obtain rfl := hpath'.symbols_unique hg hready.path
    have hmem := Grammar.mem_productions_of_augment (exists_production_of_reduce hact).1 hp
    rw [hsymbols] at hready
    exact ⟨p, hmem, below, hsymbols, (hready.reduce hlen htrees hq).path⟩

/-- Without conflicts and with productive nonterminals no run is endless. -/
theorem not_endless (hg : g.WellFormed) (hc : g.automaton.conflicts = [])
    (hproductive : ∀ n, g.Reachable n → g.Productive (.nonterminal n)) :
    ¬ Endless g name ts c := by
  induction hlen : c.input.length using Nat.strong_induction_on generalizing c with
  | _ len ih =>
    intro hendless
    -- as long as nothing is shifted the run goes on with reductions
    have hseq : ∀ m, Endless g name ts ((fun c => c.step.2)^[m] c) ∧
        ((fun c => c.step.2)^[m] c).input.length = len := by
      intro m
      induction m with
      | zero => exact ⟨hendless, hlen⟩
      | succ m ihm =>
        rw [Function.iterate_succ_apply']
        obtain ⟨hnext, hless | ⟨heq, -⟩⟩ := ihm.1.step hg
        · exact absurd hnext (ih _ (by omega) rfl)
        · exact ⟨hnext, heq.trans ihm.2⟩
    have hpath : ∀ m, ∃ symbols, Path g symbols ((fun c => c.step.2)^[m] c).frames := by
      intro m
      obtain ⟨symbols, _, _, hinv⟩ := (hseq m).1.upheld
      exact ⟨symbols, hinv.path⟩
    -- the stacks of the run are an endless sequence of reductions
    choose stack hstack using hpath
    refine Reductions.false hg hc hproductive ⟨hstack, fun m => ?_⟩
    have hsucc := hseq (m + 1)
    have hstack' := hstack (m + 1)
    rw [Function.iterate_succ_apply'] at hsucc hstack'
    obtain ⟨-, hless | ⟨-, hreduce⟩⟩ := (hseq m).1.step hg
    · have := (hseq m).2
      omega
    · obtain ⟨p, hp, below, hbefore, hafter⟩ := hreduce _ (hstack m)
      exact ⟨p, hp, below, hbefore, hstack'.symbols_unique hg hafter⟩

/-! ## Runs and sessions -/

/-- A run ends if no run is endless. -/
theorem exists_runsTo (h : Upheld g name ts c) (hphase : c.phase = .awaiting)
    (hendless : ¬ Endless g name ts c) : ∃ outcome, RunsTo c outcome := by
  by_contra hnone
  exact hendless ⟨h, hphase, fun outcome hrun => hnone ⟨outcome, hrun⟩⟩

end Context

namespace Build

/-- Without conflicts in the table a parse ends, if every nonterminal that the start symbol reaches
derives something: within some number of instructions it is finished or an instruction has failed,
and so a run and a session end. -/
theorem run_terminates {text : String} {name : Option String} {b : Build}
    (hb : ofText text name = .ok b) (hc : b.conflicts = [])
    (hproductive : ∀ n, b.source.Reachable n → b.source.Productive (.nonterminal n))
    (ts : List String) :
    (∃ n outcome, (Context.new b.table ts).runWithin n = some outcome) ∧
    ∃ n outcome, ((Session.new b.table).start ts).runWithin n = some outcome := by
  obtain ⟨g, hread, rfl⟩ := ofText_eq_ok_iff.1 hb
  have hg := Grammar.wellFormed_of_read hread
  have hupheld : Upheld g name ts (Context.new (ofGrammar g name).table ts) :=
    ⟨_, _, _, invariant_new g name ts⟩
  obtain ⟨outcome, hrun⟩ := exists_runsTo hupheld rfl (not_endless hg hc hproductive)
  obtain ⟨n, hn⟩ := hrun.exists_runWithin
  refine ⟨⟨n, outcome, hn⟩, ?_⟩
  exact Session.exists_runWithin rfl rfl hrun

/-- A parse of an opening parenthesis alone ends. -/
theorem run_terminates_nested : ∃ b, ofText "S -> ( S )\nS ->" none = .ok b ∧ b.conflicts = [] ∧
    (∀ n, b.source.Reachable n → b.source.Productive (.nonterminal n)) ∧
    ∃ n outcome, (Context.new b.table ["(", "$"]).runWithin n = some outcome := by
  have hreachable : ∀ n, Grammar.nested.Reachable n → n = 0 := by
    intro n hn
    cases hn with
    | start => rfl
    | step hp _ hn =>
      rcases List.mem_cons.1 hp with rfl | hp
      · simpa using hn
      · obtain rfl := List.mem_singleton.1 hp
        simp at hn
  have hproductive : ∀ n, Grammar.nested.Reachable n →
      Grammar.nested.Productive (.nonterminal n) := by
    intro n hn
    obtain rfl := hreachable n hn
    exact ⟨_, rfl, Tree.isDerivation_nested_empty⟩
  have hrun := (run_terminates ofText_nested conflicts_nested hproductive ["(", "$"]).1
  exact ⟨_, ofText_nested, conflicts_nested, hproductive, hrun⟩

end Build

/-! ## Without productivity -/

/-- A grammar in which `P` derives nothing. -/
def Grammar.bottomless : Grammar where
  terminals := ⟨["x", "t"], by decide⟩
  nonterminals := ⟨["S", "P", "B"], by decide⟩
  productions := [⟨0, [.nonterminal 1]⟩, ⟨0, [.terminal 0, .nonterminal 2, .terminal 1]⟩,
    ⟨1, [.nonterminal 2, .nonterminal 1]⟩, ⟨2, []⟩]
  productions_ne_nil := by decide

/-- The grammar is what its four lines are read as. -/
theorem Grammar.read_bottomless : read "S -> P\nS -> x B t\nP -> B P\nB ->" = .ok bottomless := by
  decide +kernel

/-- A parse in the states 0 and 4, both of which reduce `B` to go to state 4. -/
structure Context.Bottomless (c : Context) : Prop where
  ready : ∃ symbols, Ready .bottomless none symbols c
  input_eq : ∃ inspected, c.input = [⟨"t", inspected⟩]
  top_eq : c.top = 0 ∨ c.top = 4

/-- Each instruction adds one more `B`. -/
theorem Context.Bottomless.step {c : Context} (h : c.Bottomless) :
    c.phase ≠ .done ∧ ∃ c', c.step = (.ok (.reduce 4), c') ∧ c'.Bottomless := by
  obtain ⟨symbols, hready⟩ := h.ready
  obtain ⟨inspected, hinput⟩ := h.input_eq
  have hg := Grammar.wellFormed_of_read Grammar.read_bottomless
  have hp : Grammar.bottomless.augment.productions[4]? = some ⟨2, []⟩ := rfl
  have hname : Grammar.bottomless.augment.name (.terminal 1) = "t" := by decide +kernel
  have hact : Grammar.bottomless.automaton.action? c.top 1 = some (.reduce 4) := by
    rcases h.top_eq with htop | htop <;> rw [htop] <;> decide +kernel
  have htarget : Grammar.bottomless.automaton.target? c.top (.nonterminal 2) = some 4 := by
    rcases h.top_eq with htop | htop <;> rw [htop] <;> decide +kernel
  have hchildren : ([] : List Tree).length = 0 := rfl
  obtain ⟨q, hq, hstep⟩ :=
    step_of_reduce (p := ⟨2, []⟩) hg hready hinput hname hp hact hchildren rfl
  obtain rfl := Option.some.inj (hq.symm.trans htarget)
  exact ⟨hready.phase_ne, _, hstep, ⟨_, hready.reduce (p := ⟨2, []⟩) hchildren rfl hq⟩,
    ⟨true, rfl⟩, .inr rfl⟩

/-- No number of instructions suffices. -/
theorem Context.Bottomless.runWithin {c : Context} (h : c.Bottomless) (n : ℕ) :
    c.runWithin n = none := by
  induction n generalizing c with
  | zero => exact runWithin_zero h.step.1
  | succ n ih =>
    obtain ⟨hphase, c', hstep, hc'⟩ := h.step
    rw [runWithin_of_step hphase hstep]
    exact ih hc'

/-- A table without conflicts on which no number of instructions suffices for the input `t`. -/
theorem Build.run_endless : ∃ b, ofText "S -> P\nS -> x B t\nP -> B P\nB ->" none = .ok b ∧
    b.conflicts = [] ∧ ∀ n, (Context.new b.table ["t"]).runWithin n = none := by
  have hconflicts : (ofGrammar Grammar.bottomless none).conflicts = [] := by decide +kernel
  have hstart : (Context.new (ofGrammar Grammar.bottomless none).table ["t"]).Bottomless :=
    ⟨⟨[], rfl, rfl, .nil, rfl⟩, ⟨false, rfl⟩, .inl rfl⟩
  exact ⟨_, ofText_eq_ok_iff.2 ⟨_, Grammar.read_bottomless, rfl⟩, hconflicts, hstart.runWithin⟩

end ShiftReduce
