import ShiftReduce.Command.Replay
import ShiftReduce.Proofs.Engine.Completeness
import ShiftReduce.Proofs.Engine.Lookahead
import ShiftReduce.Proofs.Engine.Sessions
import ShiftReduce.Proofs.Grammar.Lexical
import ShiftReduce.Proofs.Tokenizer.Spacing

/-!
# From a written sentence to its tree

The command cuts its input into terminals, puts the end marker behind them unless it is there, and
steps a session to the end. Without conflicts this leads from a sentence, written with spaces
between its terminals, to a tree of the sentence. A grammar may have the end marker among its
terminals. A sentence that ends with it is taken to be closed already, so its input runs out; it
has to be written with one more end marker.
-/

namespace ShiftReduce

open Text Context

/-- The session comes to its end without an error and leaves one tree, in which the start symbol
derives `w`. -/
def Session.Parses (g : Grammar) (w : List String) (s : Session) : Prop :=
  ∃ fuel n s' c T, s.runWithin fuel = some (.ok n, s') ∧ s'.isFinished = true ∧
    s'.context = some c ∧ c.forest = [T] ∧ T.Spells g (.nonterminal g.start) ∧ T.yield = w

namespace Build

variable {g : Grammar} {name : Option String} {w : List String}

/-! ## The tokenizer of a table -/

/-- The terminals of a table are those of the grammar and the end marker. -/
theorem mem_terminals_iff {a : String} :
    a ∈ (ofGrammar g name).table.terminals ↔ a ∈ g.terminals.names ∨ a = endMarker :=
  Vocabulary.mem_add

/-- Spaced terminals of the grammar, and end markers, are what their text is cut into. -/
theorem tokenize_intercalate {text : String} (hread : Grammar.read text = .ok g)
    (hw : ∀ a ∈ w, a ∈ g.terminals.names ∨ a = endMarker)
    (hunbroken : ∀ a ∈ w, Unbroken a.toList) :
    (Tokenizer.ofTerminals (ofGrammar g name).table.terminals).tokenize (" ".intercalate w) =
      .ok w := by
  refine Tokenizer.tokenize_of_spaced ?_ ?_ (Tokenizer.spaced_intercalate w)
  · intro a ha
    rcases mem_terminals_iff.1 ha with ha | rfl
    · exact (Grammar.isSymbol_of_read hread a ha).unbroken_or_breaks
    · exact .inl Tokenizer.unbroken_endMarker
  · intro a ha
    refine ⟨.inl (mem_terminals_iff.2 (hw a ha)), ?_, hunbroken a ha⟩
    rcases hw a ha with ha | rfl
    · exact (Grammar.isSymbol_of_read hread a ha).ne_nil
    · decide +kernel

/-! ## The session on a sentence -/

/-- A session on the table of a grammar without conflicts parses every sentence of it. -/
theorem parses_of_isSentence (hg : g.WellFormed) (hc : g.automaton.conflicts = [])
    (hw : g.IsSentence w) :
    ((Session.new (ofGrammar g name).table).start (w ++ [endMarker])).Parses g w := by
  obtain ⟨T, hT, rfl⟩ := hw
  obtain ⟨_, c, hrun, hforest⟩ := exists_run_of_spells name hg hc hT
  have hruns := runsTo_of_runWithin hrun
  obtain ⟨fuel, result, s, hsession, hcontext, hmap⟩ :=
    Session.exists_runWithin_of_runsTo
      (s := (Session.new (ofGrammar g name).table).start (T.yield ++ [endMarker])) rfl rfl hruns
  have hfinished : s.isFinished = true := by
    rw [Session.isFinished_eq hcontext, isFinished_iff]
    exact hruns.phase_eq rfl
  cases result with
  | error e => exact absurd hmap (by simp [Except.map])
  | ok n => exact ⟨fuel, n, s, c, T, hsession, hfinished, hcontext, hforest, hT, rfl⟩

/-- Without an end marker behind it a sentence runs out, even if it ends with one of its own. -/
theorem exhausted_of_isSentence (hg : g.WellFormed) (hc : g.automaton.conflicts = [])
    (hw : g.IsSentence w) :
    ∃ fuel s, ((Session.new (ofGrammar g name).table).start w).runWithin fuel =
      some (.error .inputExhausted, s) := by
  obtain ⟨T, hT, rfl⟩ := hw
  obtain ⟨_, c, hrun, -⟩ := exists_run_of_spells name hg hc hT
  obtain ⟨v, t, c', hinput, hruns⟩ := (runsTo_of_runWithin hrun).exhausted rfl
  have hv : v = T.yield.map (⟨·, false⟩) := by
    have hsplit : (T.yield.map fun a => (⟨a, false⟩ : InputToken)) ++ [⟨endMarker, false⟩] =
        v ++ [t] := by
      rw [← hinput]
      simp [Context.new]
    exact (List.append_inj_left' hsplit rfl).symm
  subst hv
  obtain ⟨fuel, result, s, hsession, -, hmap⟩ :=
    Session.exists_runWithin_of_runsTo
      (s := (Session.new (ofGrammar g name).table).start T.yield) rfl rfl hruns
  cases result with
  | ok n => exact absurd hmap (by simp [Except.map])
  | error e =>
    obtain rfl := Except.error.inj hmap
    exact ⟨fuel, s, hsession⟩

/-! ## The command on a sentence -/

/-- Without conflicts a sentence of terminals that hold no blanks, written with spaces between them,
is cut into its terminals and parsed, unless it ends with the end marker. A sentence that does runs
out, and any sentence is parsed with an end marker written behind it. -/
theorem replay_sentence {text : String} {b : Build} (hb : ofText text name = .ok b)
    (hc : b.conflicts = []) (hw : b.source.IsSentence w)
    (hunbroken : ∀ a ∈ w, Unbroken a.toList) :
    (Tokenizer.ofTerminals b.table.terminals).tokenize (" ".intercalate w) = .ok w ∧
    (w.getLast? ≠ some endMarker →
      ((Session.new b.table).start (Replay.closeInput w)).Parses b.source w) ∧
    (w.getLast? = some endMarker →
      ∃ fuel s, ((Session.new b.table).start (Replay.closeInput w)).runWithin fuel =
        some (.error .inputExhausted, s)) ∧
    (Tokenizer.ofTerminals b.table.terminals).tokenize (" ".intercalate (w ++ [endMarker])) =
      .ok (w ++ [endMarker]) ∧
    ((Session.new b.table).start (Replay.closeInput (w ++ [endMarker]))).Parses b.source w := by
  obtain ⟨g, hread, rfl⟩ := ofText_eq_ok_iff.1 hb
  have hg := Grammar.wellFormed_of_read hread
  have hterminals : ∀ a ∈ w, a ∈ g.terminals.names := by
    obtain ⟨T, hT, rfl⟩ := hw
    exact hT.isDerivation.mem_terminals hg
  have hmarked : ∀ a ∈ w ++ [endMarker], (a ∈ g.terminals.names ∨ a = endMarker) ∧
      Unbroken a.toList := by
    intro a ha
    rcases List.mem_append.1 ha with ha | ha
    · exact ⟨.inl (hterminals a ha), hunbroken a ha⟩
    · obtain rfl := List.mem_singleton.1 ha
      exact ⟨.inr rfl, Tokenizer.unbroken_endMarker⟩
  refine ⟨tokenize_intercalate hread (fun a ha => .inl (hterminals a ha)) hunbroken, ?_, ?_,
    tokenize_intercalate hread (fun a ha => (hmarked a ha).1) (fun a ha => (hmarked a ha).2), ?_⟩
  · intro hlast
    rw [Replay.closeInput, if_neg hlast]
    exact parses_of_isSentence hg hc hw
  · intro hlast
    rw [Replay.closeInput, if_pos hlast]
    exact exhausted_of_isSentence hg hc hw
  · rw [Replay.closeInput, if_pos (List.getLast?_concat ..)]
    exact parses_of_isSentence hg hc hw

end Build

/-- The grammar whose one sentence ends with the end marker. -/
def Grammar.marked : Grammar where
  terminals := ⟨["x", "$"], by decide⟩
  nonterminals := ⟨["S"], List.nodup_singleton _⟩
  productions := [⟨0, [.terminal 0, .terminal 1]⟩]
  productions_ne_nil := by decide

/-- The grammar derives a sentence that ends with the end marker. -/
theorem Grammar.isSentence_marked : Grammar.marked.IsSentence ["x", "$"] := by
  refine ⟨.node "S" [.leaf "x", .leaf "$"], ⟨rfl, ?_⟩, by decide +kernel⟩
  refine .node (p := ⟨0, [.terminal 0, .terminal 1]⟩) (by decide) rfl ?_
  intro c hc
  simp only [List.mem_cons, List.not_mem_nil, or_false] at hc
  rcases hc with rfl | rfl
  · exact .leaf (by decide)
  · exact .leaf (by decide)

namespace Build

/-- The grammar is what its line is read as. -/
theorem ofText_marked : ofText "S -> x $" none = .ok (ofGrammar Grammar.marked none) :=
  ofText_eq_ok_iff.2 ⟨_, by decide +kernel, rfl⟩

/-- Its table has no conflicts. -/
theorem conflicts_marked : (ofGrammar Grammar.marked none).conflicts = [] := by decide +kernel

/-- One pair of parentheses is parsed, and the sentence that ends with the end marker is parsed with
another one behind it. -/
theorem replay_sentence_nested :
    (∃ b, ofText "S -> ( S )\nS ->" none = .ok b ∧
      ((Session.new b.table).start (Replay.closeInput ["(", ")"])).Parses b.source ["(", ")"]) ∧
    ∃ b, ofText "S -> x $" none = .ok b ∧
      (∃ fuel s, ((Session.new b.table).start (Replay.closeInput ["x", "$"])).runWithin fuel =
        some (.error .inputExhausted, s)) ∧
      (Tokenizer.ofTerminals b.table.terminals).tokenize "x $ $" = .ok ["x", "$", "$"] ∧
      ((Session.new b.table).start (Replay.closeInput ["x", "$", "$"])).Parses b.source
        ["x", "$"] := by
  have hnested : Grammar.nested.IsSentence ["(", ")"] :=
    ⟨_, ⟨rfl, Tree.isDerivation_nested⟩, by decide +kernel⟩
  obtain ⟨-, hparses, -⟩ :=
    replay_sentence ofText_nested conflicts_nested hnested (by decide +kernel)
  obtain ⟨-, -, hruns, htokens, hmarked⟩ :=
    replay_sentence ofText_marked conflicts_marked Grammar.isSentence_marked (by decide +kernel)
  have htext : " ".intercalate (["x", "$"] ++ [endMarker]) = "x $ $" := by decide +kernel
  rw [htext] at htokens
  exact ⟨⟨_, ofText_nested, hparses (by decide)⟩, _, ofText_marked, hruns rfl, htokens, hmarked⟩

/-- The sentence that ends with the end marker is not parsed as it stands, since no end marker is
put behind it. -/
theorem replay_marked : ∃ b s, ofText "S -> x $" none = .ok b ∧ b.conflicts = [] ∧
    b.source.IsSentence ["x", "$"] ∧ (∀ a ∈ ["x", "$"], Unbroken a.toList) ∧
    (Tokenizer.ofTerminals b.table.terminals).tokenize (" ".intercalate ["x", "$"]) =
      .ok ["x", "$"] ∧
    Replay.closeInput ["x", "$"] = ["x", "$"] ∧
    ((Session.new b.table).start ["x", "$"]).runWithin 3 = some (.error .inputExhausted, s) := by
  have hrun : (((Session.new (ofGrammar Grammar.marked none).table).start ["x", "$"]).runWithin
      3).map Prod.fst = some (.error .inputExhausted) := by decide +kernel
  obtain ⟨⟨_, s⟩, hrun, rfl⟩ := Option.map_eq_some_iff.1 hrun
  exact ⟨_, s, ofText_marked, conflicts_marked, Grammar.isSentence_marked, by decide +kernel,
    by decide +kernel, by decide, hrun⟩

end Build

end ShiftReduce
