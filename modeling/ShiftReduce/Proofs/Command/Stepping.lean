import ShiftReduce.Command.Replay
import ShiftReduce.Proofs.Engine.Sessions
import ShiftReduce.Proofs.Table.Exchange

/-!
# Going back is stopping earlier

The command counts its instructions up while it goes forward and down while it goes back. Its count
is the length of the session's history all the time, since an instruction that is carried out makes
both one greater and one that is undone makes both one less; so it is never taken below zero
(`retreat?`). A session on a run is known by the length of its history (`Session.Trails.unique`),
which makes going back the same as having stopped earlier (`run_stepped_back`).
-/

namespace ShiftReduce

open Context

namespace Session

variable {c₀ : Context} {s s' : Session}

/-- Going forward keeps the table of the session. -/
theorem table_forward (s : Session) : s.forward.2.table = s.table := by
  rw [forward]
  split
  · rfl
  · split
    · rfl
    · split <;> rfl

/-- A session on a run is known by the length of its history. -/
theorem Trails.unique (h : Trails c₀ s) (h' : Trails c₀ s') (htable : s.table = s'.table)
    (hlength : s.history.length = s'.history.length) : s = s' := by
  obtain ⟨c, hs, htrail⟩ := h
  obtain ⟨c', hs', htrail'⟩ := h'
  have hcontext : c = c' := by rw [htrail.eq_afterSteps, htrail'.eq_afterSteps, hlength]
  have hhistory : s.history = s'.history := by
    have heq : s.history.reverse.map Except.ok =
        s'.history.reverse.map (Except.ok : _ → Except ParseError Snapshot) := by
      rw [htrail.history_eq, htrail'.history_eq, hlength]
    exact List.reverse_inj.1 ((List.map_inj_right fun _ _ => Except.ok.inj).1 heq)
  obtain ⟨table, context, history⟩ := s
  obtain ⟨table', context', history'⟩ := s'
  obtain rfl : table = table' := htable
  obtain rfl : history = history' := hhistory
  obtain rfl : context = some c := hs
  obtain rfl : context' = some c' := hs'
  rw [hcontext]

end Session

namespace Replay

variable {c₀ : Context} {s s' : Session} {limit count k m : ℕ} {lines : String}

/-! ## Going forward -/

/-- The count and the history grow together. -/
theorem advance_trails (h : Session.Trails c₀ s) (h₀ : c₀.isIdle = true)
    (hcount : s.history.length = count)
    (hadvance : advance limit count s = (lines, .ok (k, s'))) :
    Session.Trails c₀ s' ∧ s'.history.length = k ∧ s'.table = s.table := by
  induction limit generalizing count s lines with
  | zero =>
    obtain ⟨-, heq⟩ := Prod.mk.inj hadvance
    obtain ⟨rfl, rfl⟩ := Prod.mk.inj (Except.ok.inj heq)
    exact ⟨h, hcount, rfl⟩
  | succ limit ih =>
    rw [advance] at hadvance
    split at hadvance
    · obtain ⟨-, heq⟩ := Prod.mk.inj hadvance
      obtain ⟨rfl, rfl⟩ := Prod.mk.inj (Except.ok.inj heq)
      exact ⟨h, hcount, rfl⟩
    · split at hadvance
      · exact absurd hadvance (by simp)
      · rename_i act s₁ hforward
        obtain ⟨h₁, hlength⟩ := h.forward h₀ hforward
        have htable : s₁.table = s.table := by rw [← s.table_forward, hforward]
        obtain ⟨-, hrest⟩ := Prod.mk.inj hadvance
        rw [← htable]
        exact ih h₁ (hlength.trans (congrArg (· + 1) hcount)) (Prod.ext rfl hrest)

/-- What has been carried out can be stopped at any place before. -/
theorem exists_advance_eq (hadvance : advance limit count s = (lines, .ok (k, s')))
    (hm : count + m ≤ k) : ∃ lines' s₁, advance m count s = (lines', .ok (count + m, s₁)) := by
  induction limit generalizing count s lines m with
  | zero =>
    obtain ⟨-, heq⟩ := Prod.mk.inj hadvance
    obtain ⟨rfl, rfl⟩ := Prod.mk.inj (Except.ok.inj heq)
    obtain rfl : m = 0 := by omega
    exact ⟨_, _, rfl⟩
  | succ limit ih =>
    cases m with
    | zero => exact ⟨_, _, rfl⟩
    | succ m =>
      rw [advance] at hadvance
      split at hadvance
      · obtain ⟨-, heq⟩ := Prod.mk.inj hadvance
        obtain ⟨rfl, -⟩ := Prod.mk.inj (Except.ok.inj heq)
        omega
      · rename_i hfinished
        split at hadvance
        · exact absurd hadvance (by simp)
        · rename_i act s₁ hforward
          obtain ⟨-, hrest⟩ := Prod.mk.inj hadvance
          obtain ⟨lines', s₂, heq⟩ := ih (m := m) (Prod.ext rfl hrest) (by omega)
          refine ⟨sessionLine (count + 1) act.display s₁ ++ lines', s₂, ?_⟩
          rw [advance, if_neg hfinished, hforward]
          simp only [heq, Nat.add_assoc, Nat.add_comm 1 m]

/-! ## Going back -/

/-- Going back with a count that cannot be taken below zero; `none` where that is tried. -/
def retreat? : ℕ → ℕ → Session → Option (String × Except ParseError (ℕ × Session))
  | 0, count, s => some ("", .ok (count, s))
  | limit + 1, count, s =>
    match s.back with
    | (.error e, _) => some ("", .error e)
    | (.ok false, s) => some ("", .ok (count, s))
    | (.ok true, s) =>
      match count with
      | 0 => none
      | count + 1 => (retreat? limit count s).map fun (lines, result) =>
        (sessionLine count "back" s ++ lines, result)

/-- Where the count is not taken below zero, it is right. -/
theorem retreat_of_retreat? {result : String × Except ParseError (ℕ × Session)}
    (h : retreat? limit count s = some result) : retreat limit count s = result := by
  induction limit generalizing count s result with
  | zero => exact Option.some.inj h
  | succ limit ih =>
    rw [retreat?] at h
    rw [retreat]
    rcases hback : s.back with ⟨e | undone, s₁⟩ <;> rw [hback] at h
    · exact Option.some.inj h
    · cases undone with
      | false => exact Option.some.inj h
      | true =>
        cases count with
        | zero => exact absurd h (by simp)
        | succ count =>
          obtain ⟨⟨lines, rest⟩, hrest, rfl⟩ := Option.map_eq_some_iff.1 h
          simp only [Nat.add_sub_cancel, ih hrest]

/-- The lines for `n` instructions of a run that are undone behind the first `k`. -/
def undoneLines (c₀ : Context) (k n : ℕ) : List String :=
  (List.range n).map fun i => line (k - (i + 1)) "back" (c₀.afterSteps (k - (i + 1)))

/-- There is one line for each instruction that is undone. -/
theorem length_undoneLines (c₀ : Context) (k n : ℕ) : (undoneLines c₀ k n).length = n := by
  rw [undoneLines, List.length_map, List.length_range]

/-- The first line is for the instruction that was carried out last, and the others follow. -/
theorem undoneLines_succ (c₀ : Context) (k n : ℕ) : undoneLines c₀ (k + 1) (n + 1) =
    line k "back" (c₀.afterSteps k) :: undoneLines c₀ k n := by
  have hfirst : k + 1 - (0 + 1) = k := by rw [Nat.zero_add, Nat.add_sub_cancel]
  rw [undoneLines, List.range_succ_eq_map, List.map_cons, List.map_map, hfirst, undoneLines]
  refine congrArg _ (List.map_congr_left fun i _ => ?_)
  simp only [Function.comp_apply, Nat.succ_eq_add_one, Nat.add_sub_add_right]

/-- The count and the history shrink together, to the end of the history at most. -/
theorem exists_retreat?_eq (back : ℕ) (h : Session.Trails c₀ s) (hlength : s.history.length = k) :
    ∃ s', retreat? back k s =
        some (String.join (undoneLines c₀ k (min back k)), .ok (k - min back k, s')) ∧
      Session.Trails c₀ s' ∧ s'.history.length = k - min back k ∧ s'.table = s.table := by
  induction back generalizing k s with
  | zero =>
    rw [Nat.zero_min]
    exact ⟨s, by simp [retreat?, undoneLines], h, hlength, rfl⟩
  | succ back ih =>
    obtain ⟨c, hs, htrail⟩ := h
    generalize hhistory : s.history = history at htrail hlength
    cases htrail with
    | start =>
      have hback : s.back = (.ok false, s) := by rw [Session.back, hs, hhistory]
      subst hlength
      refine ⟨s, ?_, ⟨_, hs, hhistory ▸ .start⟩, by rw [hhistory]; rfl, rfl⟩
      rw [retreat?, hback]
      simp [undoneLines]
    | @step c' _ _ snapshot older htrail hsnapshot _ =>
      subst hlength
      have hback := Session.back_eq hs hhistory hsnapshot
      obtain ⟨s', heq, h', hlength', htable⟩ :=
        ih (s := { s with context := some c', history := older }) ⟨c', rfl, htrail⟩ rfl
      refine ⟨s', ?_, h', ?_, htable⟩
      · rw [retreat?, hback]
        simp only [List.length_cons]
        rw [Nat.succ_min_succ, undoneLines_succ, String.join_cons, heq, ← htrail.eq_afterSteps]
        simp [sessionLine]
      · rw [List.length_cons, Nat.succ_min_succ, Nat.succ_sub_succ]
        exact hlength'

/-! ## The command -/

/-- The session that the command ends with, unless an instruction or its undoing fails. -/
def ending (table : Table) (tokens : List String) (options : ReplayOptions) : Option Session :=
  match advance (options.steps.getD noLimit) 0 ((Session.new table).start tokens) with
  | (_, .error _) => none
  | (_, .ok (count, s)) => (retreat options.back count s).2.toOption.map (·.2)

/-- The same command, stopped after `k` instructions and without going back. -/
def stoppedAfter (options : ReplayOptions) (k : ℕ) : ReplayOptions :=
  { options with steps := some k, back := 0 }

/-- From the session `s` behind `k` instructions the command goes back by `n`, to the session
`s'`. -/
structure GoesBack (table : Table) (tokens : List String) (options : ReplayOptions) (k n : ℕ)
    (s s' : Session) : Prop where
  /-- As many instructions are undone as are asked for and have been carried out. -/
  eq_min : n = min options.back k
  /-- The count is not taken below zero. -/
  retreat?_eq : retreat? options.back k s = some (retreat options.back k s)
  /-- Going back does not fail, and a line is printed for each instruction that is undone. -/
  retreat_eq : retreat options.back k s =
    (String.join (undoneLines (.new table tokens) k n), .ok (k - n, s'))
  length_lines : (undoneLines (.new table tokens) k n).length = n
  ending_eq : ending table tokens options = some s'
  /-- The command that is stopped earlier ends with the same session. -/
  ending_stoppedAfter_eq : ending table tokens (stoppedAfter options (k - n)) = some s'

/-- If the command goes forward by `k` instructions none of which fails, it goes back by as many as
it is asked to and has, and what it ends with and prints last is what it would have ended with and
printed last if it had been stopped there. -/
theorem run_stepped_back {file input : String} {content : Except FileError String}
    {table : Table} {tokens : List String} (options : ReplayOptions)
    (hprepare : prepare file content input = .ok (table, tokens))
    (hadvance : advance (options.steps.getD noLimit) 0 ((Session.new table).start tokens) =
      (lines, .ok (k, s))) :
    ∃ n s' c lines', GoesBack table tokens options k n s s' ∧ s'.context = some c ∧
      run file content input options =
        ⟨lines ++ String.join (undoneLines (.new table tokens) k n) ++
          forestText options.asJson c, none⟩ ∧
      run file content input (stoppedAfter options (k - n)) =
        ⟨lines' ++ forestText options.asJson c, none⟩ := by
  have hstart : Session.Trails (.new table tokens) ((Session.new table).start tokens) :=
    Session.trails_start _ tokens
  obtain ⟨h, hlength, htable⟩ := advance_trails hstart rfl rfl hadvance
  obtain ⟨s', hretreat?, h', hlength', htable'⟩ := exists_retreat?_eq options.back h hlength
  obtain ⟨n, hn⟩ : ∃ n, n = min options.back k := ⟨_, rfl⟩
  rw [← hn] at hretreat? hlength'
  have hretreat := retreat_of_retreat? hretreat?
  -- the session that stops earlier has a history of the same length
  obtain ⟨lines', s₁, hshorter⟩ := exists_advance_eq (m := k - n) hadvance (by omega)
  rw [Nat.zero_add] at hshorter
  obtain ⟨h₁, hlength₁, htable₁⟩ := advance_trails hstart rfl rfl hshorter
  have htables : s'.table = s₁.table := by rw [htable', htable, htable₁]
  obtain rfl : s' = s₁ := h'.unique h₁ htables (hlength'.trans hlength₁.symm)
  obtain ⟨c, hcontext, -⟩ := h'
  refine ⟨n, s', c, lines', ⟨hn, ?_, hretreat, length_undoneLines _ k n, ?_, ?_⟩, hcontext, ?_, ?_⟩
  · rw [hretreat?, hretreat]
  · simp only [ending, hadvance, hretreat, Except.toOption, Option.map_some]
  · simp only [ending, stoppedAfter, Option.getD_some, hshorter, retreat, Except.toOption,
      Option.map_some]
  · simp only [run, hprepare, hadvance, hretreat, hcontext, Option.map_some, Option.getD_some]
  · simp only [run, hprepare, stoppedAfter, Option.getD_some, hshorter, retreat, hcontext,
      Option.map_some, String.append_empty]

/-- One token is shifted and accepted. The acceptance is undone, as if it had been stopped there. -/
theorem run_stepped_back_lone : ∃ s s' c lines lines',
    GoesBack .lone ["x", "$"] ⟨some 5, 1, false⟩ 2 1 s s' ∧
    run "table.json" (.ok Table.lone.toJson) "x" ⟨some 5, 1, false⟩ =
      ⟨lines ++ String.join (undoneLines (.new .lone ["x", "$"]) 2 1) ++ forestText false c, none⟩ ∧
    run "table.json" (.ok Table.lone.toJson) "x" ⟨some 1, 0, false⟩ =
      ⟨lines' ++ forestText false c, none⟩ := by
  have hload : Table.load (.ok Table.lone.toJson) = .ok .lone := by
    rw [Table.load, Table.ofJson, Table.toJson,
      Json.decode_ofList (Table.reads_writeFields (by decide))]
    rfl
  have htokens : (Tokenizer.ofTerminals Table.lone.terminals).tokenize "x" = .ok ["x"] := rfl
  have hprepare : prepare "table.json" (.ok Table.lone.toJson) "x" =
      .ok (.lone, closeInput ["x"]) := by
    rw [prepare, hload]
    dsimp only
    rw [htokens]
  have hclosed : closeInput ["x"] = ["x", "$"] := by decide
  rw [hclosed] at hprepare
  obtain ⟨n, s', c, lines', hback, -, hrun, hshorter⟩ :=
    run_stepped_back ⟨some 5, 1, false⟩ hprepare rfl
  obtain rfl : n = 1 := hback.eq_min
  exact ⟨_, s', c, _, lines', hback, hrun, hshorter⟩

end Replay

end ShiftReduce
