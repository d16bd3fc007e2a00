import ShiftReduce.Proofs.Engine.Choice
import ShiftReduce.Proofs.Engine.Sessions

/-!
# Inputs with a common beginning

Two contexts stand `Beside` each other if they differ in the end of their inputs alone. A phase that
looks at a token in front of that end does the same on both, unless it accepts or finds tokens
behind the end marker: only there does the length of the rest matter. The contexts then still stand
beside each other, and so do those of two runs over inputs that begin alike, up to the first
instruction whose lookahead lies behind the common beginning (`prefix_determines_steps`).
-/

namespace ShiftReduce

namespace Context

variable {c c' d : Context} {r r' w : List InputToken} {p : Progress} {e : ParseError} {n : ℕ}

/-- The second context is the first one with `r'` in place of the tokens `r` that end its input. -/
inductive Beside (r r' : List InputToken) (c : Context) : Context → Prop
  | intro {w : List InputToken} (hinput : c.input = w ++ r) :
      Beside r r' c { c with input := w ++ r' }

/-- The parse has come to the same point, whatever is left of the input. -/
structure SameParse (c d : Context) : Prop where
  elements_eq : d.elements = c.elements
  forest_eq : d.forest = c.forest
  stats_eq : d.stats = c.stats
  phase_eq : d.phase = c.phase

/-- Two contexts that differ in the rest of their inputs stand at the same place of a parse. -/
theorem Beside.sameParse (h : Beside r r' c d) : SameParse c d := by
  cases h
  exact ⟨rfl, rfl, rfl, rfl⟩

/-- Runs over inputs with a common beginning start beside each other. -/
theorem beside_new (table : Table) (u v v' : List String) :
    Beside (v.map (⟨·, false⟩)) (v'.map (⟨·, false⟩))
      (new table (u ++ v)) (new table (u ++ v')) := by
  have hinput : (new table (u ++ v)).input = u.map (⟨·, false⟩) ++ v.map (⟨·, false⟩) :=
    List.map_append
  have hother : new table (u ++ v') =
      { new table (u ++ v) with input := u.map (⟨·, false⟩) ++ v'.map (⟨·, false⟩) } := by
    rw [← List.map_append]
    rfl
  rw [hother]
  exact .intro hinput

/-! ## Phases -/

/-- A lookahead in front of the end of the input is the first of the tokens there. -/
theorem exists_eq_cons_of_lookahead {t : InputToken} {rest : List InputToken}
    (hinput : c.input = w ++ r) (hlook : r.length < c.input.length)
    (hnext : c.input = t :: rest) : ∃ w', w = t :: w' ∧ rest = w' ++ r := by
  cases w with
  | nil =>
    rw [hinput] at hlook
    exact absurd hlook (Nat.lt_irrefl _)
  | cons t' w' =>
    obtain ⟨rfl, rfl⟩ := List.cons.inj (hinput.symm.trans hnext)
    exact ⟨w', rfl, rfl⟩

/-- A phase that succeeds without accepting does so beside. -/
theorem Beside.advances (h : Beside r r' c d) (hadv : Advances c p c') (hp : p ≠ .accepted)
    (hlook : c.phase = .awaiting → r.length < c.input.length) :
    ∃ d', Advances d p d' ∧ Beside r r' c' d' := by
  obtain ⟨hinput⟩ := h
  cases hadv with
  | accepted => exact absurd rfl hp
  | shifted hphase hnext hact hshift =>
    obtain ⟨hrow, hnext'⟩ := hshift
    obtain ⟨rfl, rfl⟩ := List.cons.inj (hnext.symm.trans hnext')
    obtain ⟨w, rfl, rfl⟩ := exists_eq_cons_of_lookahead hinput (hlook hphase) hnext
    exact ⟨_, .shifted hphase rfl hact (.intro hrow rfl), .intro rfl⟩
  | @reduceStarted t _ k _ hphase hnext hact hrule =>
    obtain ⟨w, rfl, rfl⟩ := exists_eq_cons_of_lookahead hinput (hlook hphase) hnext
    have hbeside : Beside r r'
        { c with input := { t with inspected := true } :: (w ++ r), phase := .matching k }
        { c with input := { t with inspected := true } :: (w ++ r'), phase := .matching k } :=
      .intro (w := _ :: w) rfl
    exact ⟨_, .reduceStarted hphase rfl hact hrule, hbeside⟩
  | matched hphase hmatch =>
    obtain ⟨hrule, hframes, hnames, htrees, hlen⟩ := hmatch
    exact ⟨_, .matched hphase (.intro hrule hframes hnames htrees hlen), .intro hinput⟩
  | reduced hphase hresolve =>
    obtain ⟨hrule, hgoto, hrow⟩ := hresolve
    exact ⟨_, .reduced hphase (.intro hrule hgoto hrow), .intro hinput⟩

/-- A phase that fails, but not for what stands behind the lookahead, does so beside. -/
theorem Beside.halts (h : Beside r r' c d) (hhalt : Halts c e c') (he : ∀ k, e ≠ .trailingInput k)
    (hlook : c.phase = .awaiting → r.length < c.input.length) :
    ∃ d', Halts d e d' ∧ Beside r r' c' d' := by
  obtain @⟨front, hinput⟩ := h
  -- the lookahead is marked on both sides
  have marked {t : InputToken} {w : List InputToken} :
      Beside r r' { c with input := { t with inspected := true } :: (w ++ r) }
        { c with input := { t with inspected := true } :: (w ++ r') } := .intro (w := _ :: w) rfl
  cases hhalt with
  | finished hphase => exact ⟨_, .finished hphase, .intro hinput⟩
  | astray hphase hrow => exact ⟨_, .astray hphase hrow, .intro hinput⟩
  | inputExhausted hphase _ hnext =>
    have hlook := hlook hphase
    rw [hnext] at hlook
    exact absurd hlook (Nat.not_lt_zero _)
  | unresolvedAction hphase hrow hnext hact =>
    obtain ⟨w, rfl, rfl⟩ := exists_eq_cons_of_lookahead hinput (hlook hphase) hnext
    exact ⟨_, .unresolvedAction hphase hrow rfl hact, marked⟩
  | trailingInput => exact absurd rfl (he _)
  | noState hphase hnext hact hrow =>
    obtain ⟨w, rfl, rfl⟩ := exists_eq_cons_of_lookahead hinput (hlook hphase) hnext
    exact ⟨_, .noState hphase rfl hact hrow, marked⟩
  | noRule hphase hnext hact hrule =>
    obtain ⟨w, rfl, rfl⟩ := exists_eq_cons_of_lookahead hinput (hlook hphase) hnext
    exact ⟨_, .noRule hphase rfl hact hrule, marked⟩
  | @unmatched k _ hphase hmatch =>
    have hother := matchRule_with c (front ++ r') c.phase k
    rw [hmatch] at hother
    exact ⟨_, .unmatched hphase hother, .intro hinput⟩
  | @unresolved k _ hphase hresolve =>
    have hother := resolveGoto_with c (front ++ r') c.phase k
    rw [hresolve] at hother
    exact ⟨_, .unresolved hphase hother, .intro hinput⟩

/-! ## Instructions -/

/-- What decides an instruction lies in front of the end of the input. -/
structure DecidedBefore (r : List InputToken) (c : Context) (outcome : Except ParseError Action) :
    Prop where
  look : c.phase = .awaiting → r.length < c.input.length
  ne_accept : outcome ≠ .ok .accept
  ne_trailingInput : ∀ k, outcome ≠ .error (.trailingInput k)

/-- The rest of an instruction is carried out beside, with the same outcome. -/
theorem Beside.stepWithin (h : Beside r r' c d) (hdecided : DecidedBefore r c (c.stepWithin n).1) :
    (d.stepWithin n).1 = (c.stepWithin n).1 ∧
      Beside r r' (c.stepWithin n).2 (d.stepWithin n).2 := by
  induction n generalizing c d with
  | zero => exact ⟨rfl, h⟩
  | succ n ih =>
    obtain ⟨hlook, haccept, htrailing⟩ := hdecided
    rcases advances_or_halts c with ⟨p, c', hadv⟩ | ⟨e, c', hhalt⟩
    · cases hp : p.completed with
      | some act =>
        have hstep := stepWithin_of_completed (n := n) hadv hp
        rw [hstep] at haccept ⊢
        have hne : p ≠ .accepted := by
          rintro rfl
          exact haccept (congrArg Except.ok (Option.some.inj hp).symm)
        obtain ⟨d', hadv', hbeside⟩ := h.advances hadv hne hlook
        rw [stepWithin_of_completed hadv' hp]
        exact ⟨rfl, hbeside⟩
      | none =>
        have hne : p ≠ .accepted := by
          rintro rfl
          exact absurd hp (by simp [Progress.completed])
        obtain ⟨d', hadv', hbeside⟩ := h.advances hadv hne hlook
        rw [stepWithin_of_pending hadv hp] at haccept htrailing ⊢
        rw [stepWithin_of_pending hadv' hp]
        -- within a reduction no token is looked at
        refine ih hbeside ⟨fun hphase => ?_, haccept, htrailing⟩
        cases hadv with
        | accepted | shifted | reduced => exact absurd hp (by simp [Progress.completed])
        | reduceStarted | matched => exact absurd hphase (by simp)
    · have hstep := stepWithin_of_halts (n := n) hhalt
      rw [hstep] at htrailing ⊢
      have hne : ∀ k, e ≠ .trailingInput k := fun k he => htrailing k (congrArg Except.error he)
      obtain ⟨d', hhalt', hbeside⟩ := h.halts hhalt hne hlook
      rw [stepWithin_of_halts hhalt']
      exact ⟨rfl, hbeside⟩

/-- A run is carried on beside, instruction by instruction. -/
theorem Beside.afterSteps (h : Beside r r' c d)
    (hdecided : ∀ i < n, DecidedBefore r (c.afterSteps i) (c.afterSteps i).step.1) :
    (∀ i < n, (d.afterSteps i).step.1 = (c.afterSteps i).step.1) ∧
      Beside r r' (c.afterSteps n) (d.afterSteps n) := by
  induction n with
  | zero => exact ⟨fun i hi => absurd hi (Nat.not_lt_zero i), h⟩
  | succ n ih =>
    obtain ⟨hbefore, hbeside⟩ := ih fun i hi => hdecided i (Nat.lt_succ_of_lt hi)
    obtain ⟨hlast, hnext⟩ := hbeside.stepWithin (hdecided n (Nat.lt_succ_self n))
    refine ⟨fun i hi => ?_, ?_⟩
    · rcases Nat.lt_succ_iff_lt_or_eq.1 hi with hi | rfl
      · exact hbefore i hi
      · exact hlast
    · rw [afterSteps_succ, afterSteps_succ]
      exact hnext

/-! ## Runs over inputs with a common beginning -/

/-- The next token is one of `u`, and what is left of `u` stands in front of `v`. -/
def LooksInto (u v : List String) (c : Context) : Prop :=
  ∃ read a rest, u = read ++ a :: rest ∧ c.remaining = a :: rest ++ v

/-- A context that looks into the common beginning has more input left than what comes behind it. -/
theorem LooksInto.length_lt {u v : List String} (h : LooksInto u v c) :
    (v.map (⟨·, false⟩ : String → InputToken)).length < c.input.length := by
  obtain ⟨read, a, rest, -, hremaining⟩ := h
  have hlength := congrArg List.length hremaining
  simp only [remaining, List.length_map, List.length_append, List.length_cons] at hlength ⊢
  omega

/-- On any table, the instructions that look at tokens of a common beginning of two inputs are the
same ones over both, as long as none accepts, and lead to the same parse; and what fails on a token
of the common beginning fails in the same way over both, unless it is for tokens behind the end
marker. -/
theorem prefix_determines_steps (table : Table) (u v v' : List String) (n : ℕ)
    (hsteps : ∀ i < n, LooksInto u v ((new table (u ++ v)).afterSteps i) ∧
      ∃ act, ((new table (u ++ v)).afterSteps i).step.1 = .ok act ∧ act ≠ .accept) :
    (∀ i < n, ((new table (u ++ v')).afterSteps i).step.1 =
      ((new table (u ++ v)).afterSteps i).step.1) ∧
    (∀ i ≤ n, SameParse ((new table (u ++ v)).afterSteps i)
      ((new table (u ++ v')).afterSteps i)) ∧
    ∀ e, LooksInto u v ((new table (u ++ v)).afterSteps n) →
      ((new table (u ++ v)).afterSteps n).step.1 = .error e → (∀ k, e ≠ .trailingInput k) →
      ((new table (u ++ v')).afterSteps n).step.1 = .error e ∧
        SameParse ((new table (u ++ v)).afterSteps n).step.2
          ((new table (u ++ v')).afterSteps n).step.2 := by
  have hdecided : ∀ i < n, DecidedBefore (v.map (⟨·, false⟩))
      ((new table (u ++ v)).afterSteps i) ((new table (u ++ v)).afterSteps i).step.1 := by
    intro i hi
    obtain ⟨hlook, act, hact, hne⟩ := hsteps i hi
    rw [hact]
    exact ⟨fun _ => hlook.length_lt, by simpa using hne, by simp⟩
  have hbeside := beside_new table u v v'
  refine ⟨(hbeside.afterSteps hdecided).1, fun i hi => ?_, fun e hlook hstep he => ?_⟩
  · have hfirst := hbeside.afterSteps (n := i) fun j hj => hdecided j (Nat.lt_of_lt_of_le hj hi)
    exact hfirst.2.sameParse
  · have hfails : DecidedBefore (v.map (⟨·, false⟩)) ((new table (u ++ v)).afterSteps n)
        ((new table (u ++ v)).afterSteps n).step.1 := by
      rw [hstep]
      exact ⟨fun _ => hlook.length_lt, by simp, by simpa using he⟩
    obtain ⟨hsame, hleft⟩ := (hbeside.afterSteps hdecided).2.stepWithin hfails
    exact ⟨hsame.trans hstep, hleft.sameParse⟩

/-- A shift and then a reduction that finds no target, with nothing behind its lookahead and with
another token there. -/
theorem prefix_determines_steps_adrift :
    (∃ c, (new .adrift ["x", "$"]).step = (.ok (.shift 1), c) ∧
      c.step.1 = .error (.unresolvedGoto 0 "S")) ∧
    ((new .adrift ["x", "$", "y"]).afterSteps 0).step.1 = .ok (.shift 1) ∧
    SameParse ((new .adrift ["x", "$"]).afterSteps 1)
      ((new .adrift ["x", "$", "y"]).afterSteps 1) ∧
    ((new .adrift ["x", "$", "y"]).afterSteps 1).step.1 = .error (.unresolvedGoto 0 "S") := by
  obtain ⟨hsteps, hparses, hfails⟩ := prefix_determines_steps .adrift ["x", "$"] [] ["y"] 1 (by
    intro i hi
    obtain rfl := Nat.lt_one_iff.1 hi
    exact ⟨⟨[], "x", ["$"], rfl, rfl⟩, .shift 1, rfl, by simp⟩)
  refine ⟨⟨_, rfl, rfl⟩, hsteps 0 Nat.one_pos, hparses 1 (Nat.le_refl 1), ?_⟩
  exact (hfails (.unresolvedGoto 0 "S") ⟨["x"], "$", [], rfl, rfl⟩ rfl (by simp)).1

end Context

end ShiftReduce
