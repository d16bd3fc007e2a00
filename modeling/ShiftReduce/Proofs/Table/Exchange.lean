import ShiftReduce.Proofs.Json.Nested
import ShiftReduce.Table.Layout

/-!
# Exchanging tables

A table whose numbers are below the bound is read back from its JSON, whatever its names and keys
are made of. There is one lemma for each part of a table, which says that the part is read back from
what is written for it (`Rule.reads_write`, `Row.reads_write`); the fields of a record put its parts
together.
-/

namespace ShiftReduce

open Json

/-! ## Tables of numbers that can be read -/

instance : DecidablePred Action.Bounded
  | .accept => inferInstanceAs (Decidable True)
  | .shift n => inferInstanceAs (Decidable (n < numberBound))
  | .reduce n => inferInstanceAs (Decidable (n < numberBound))

/-- The numbers in a row are below the bound. -/
structure Row.Bounded (r : Row) : Prop where
  actions : ∀ e ∈ r.actions.entries, e.2.Bounded
  goto : ∀ e ∈ r.goto.entries, e.2 < numberBound

instance : DecidablePred Row.Bounded := fun _ =>
  decidable_of_iff' _ ⟨fun h => And.intro h.actions h.goto, fun h => ⟨h.1, h.2⟩⟩

/-- The numbers in a table are below the bound. -/
def Table.Bounded (t : Table) : Prop := ∀ r ∈ t.states, r.Bounded

instance : DecidablePred Table.Bounded := fun t =>
  inferInstanceAs (Decidable (∀ r ∈ t.states, r.Bounded))

/-! ## The parts of a table -/

/-- Names are read back. -/
theorem reads_names (level : ℕ) (names : List String) :
    Reads readNames (writeNames level names) (.ok names) :=
  reads_array_ok (fun name _ => reads_text name) .indented level

/-- A string is read as the action that it is the written form of, or refused with its text. -/
theorem reads_readAction (s : String) : Reads readAction (string s)
    (match Action.read s with
      | some a => .ok a
      | none => .error (.mismatch (badAction s))) where
  opens := (reads_text s).opens
  eq blank rest hblank hrest := by
    simp only [readAction, bind, Except.bind, (reads_text s).eq blank rest hblank hrest, Except.map]
    cases Action.read s <;> rfl

/-- Actions with numbers below the bound are read back. -/
theorem reads_action {a : Action} (ha : a.Bounded) :
    Reads readAction (string a.display) (.ok a) := by
  have h := reads_readAction a.display
  rwa [Action.read_display ha] at h

namespace Rule

/-- What is written for the fields of a rule. -/
def written (level : ℕ) (r : Rule) : List (Written Rule) := [
  ⟨writeNames (level + 1) r.rhs, .ok fun r' => { r' with rhs := r.rhs }⟩,
  ⟨string r.lhs, .ok fun r' => { r' with lhs := r.lhs }⟩]

/-- Each field of a rule is read back from what is written for it. -/
theorem writes_fields (level : ℕ) (r : Rule) : List.Forall₂ Writes shape.fields (r.written level) :=
  .cons (reads_names _ _).writes <| .cons (reads_text _).writes .nil

/-- A rule is read back. -/
theorem reads_write (level : ℕ) (r : Rule) : Reads reader (r.write level) (.ok r) :=
  shape.reads_object (r.writes_fields level) (.all (by decide)) _ .indented level

end Rule

namespace Row

/-- What is written for the fields of a row. -/
def written (level : ℕ) (r : Row) : List (Written Row) := [
  ⟨object .indented (level + 1) (r.actions.entries.map fun (t, a) => (t, string a.display)),
    .ok fun r' => { r' with actions := r.actions }⟩,
  ⟨object .indented (level + 1) (r.goto.entries.map fun (n, q) => (n, number q)),
    .ok fun r' => { r' with goto := r.goto }⟩]

/-- Each field of a row is read back from what is written for it. -/
theorem writes_fields (level : ℕ) {r : Row} (hr : r.Bounded) :
    List.Forall₂ Writes shape.fields (r.written level) := by
  have hactions := reads_map (fun a : Action => string a.display)
    (fun e he => reads_action (hr.actions e he)) .indented (level + 1)
  have hgoto := reads_map number (fun e he => reads_natural (hr.goto e he)) .indented (level + 1)
  exact .cons hactions.writes <| .cons hgoto.writes .nil

/-- A row is read back. -/
theorem reads_write (level : ℕ) {r : Row} (hr : r.Bounded) :
    Reads reader (r.write level) (.ok r) :=
  shape.reads_object (writes_fields level hr) (.all (by decide)) _ .indented level

end Row

namespace Table

/-- What is written for the fields of a table behind its name. -/
def written (t : Table) : List (Written Table) := [
  ⟨writeNames 1 t.terminals, .ok fun t' => { t' with terminals := t.terminals }⟩,
  ⟨writeNames 1 t.nonterminals, .ok fun t' => { t' with nonterminals := t.nonterminals }⟩,
  ⟨array .indented 1 (t.rules.map (Rule.write 2)), .ok fun t' => { t' with rules := t.rules }⟩,
  ⟨array .indented 1 (t.states.map (Row.write 2)), .ok fun t' => { t' with states := t.states }⟩]

/-- Each field of a table is read back from what is written for it, the name apart, which may be
missing. -/
theorem writes_fields {t : Table} (ht : t.Bounded) :
    List.Forall₂ Writes shape.fields.tail t.written := by
  have hrules := reads_array_ok (fun r (_ : r ∈ t.rules) => r.reads_write 2) .indented 1
  have hstates := reads_array_ok (fun r hr => Row.reads_write 2 (ht r hr)) .indented 1
  exact .cons (reads_names _ _).writes <| .cons (reads_names _ _).writes <|
    .cons hrules.writes <| .cons hstates.writes .nil

/-- A table is read back. -/
theorem reads_writeFields {t : Table} (ht : t.Bounded) :
    Reads reader (object .indented 0 t.writeFields) (.ok t) := by
  have hfields := writes_fields ht
  obtain ⟨name, terminals, nonterminals, rules, states⟩ := t
  cases name with
  | none =>
    have hsupplies : Shape.Supplies shape.fields.tail shape.fields :=
      ⟨List.tail_sublist _, by decide, by simp [shape]⟩
    exact shape.reads_object hfields hsupplies _ .indented 0
  | some n =>
    have hname : Writes ⟨"name", false, optionalText.map fun n t => { t with name := n }⟩
        ⟨string n, .ok fun t : Table => { t with name := some n }⟩ := (reads_optionalText n).writes
    exact shape.reads_object (.cons hname hfields) (.all (by decide)) _ .indented 0

/-- A table whose numbers are below the bound is read back from its JSON. -/
theorem ofJson_toJson {t : Table} (ht : t.Bounded) : ofJson t.toJson = .ok t :=
  decode_ofList (reads_writeFields ht)

/-- A table of the greatest numbers and of names that have to be escaped, with an empty row. -/
def extreme : Table where
  name := some "\"\\"
  terminals := ["\n", "", "é"]
  nonterminals := []
  rules := [⟨[], "\x07"⟩]
  states := [
    ⟨.ofList [("\n", .shift 18446744073709551615), ("", .reduce 18446744073709551615)],
      .ofList [("\x07", 18446744073709551615)]⟩,
    ⟨∅, ∅⟩]

/-- The table with the greatest numbers is read back. -/
theorem ofJson_toJson_extreme : extreme.Bounded ∧ ofJson extreme.toJson = .ok extreme :=
  ⟨by decide, ofJson_toJson (by decide)⟩

end Table

end ShiftReduce
