import ShiftReduce.Proofs.Grammar.Reading

/-!
# The symbols of a grammar that was read

A line is cut into words without blanks and into single blanks, so every name in the vocabularies of
a grammar that was read is one of the two (`isSymbol_of_read`).
-/

namespace ShiftReduce

namespace Grammar

open Text

variable {half line : List Char} {symbols : List String} {r : NamedRule}

/-- What a line can hold as a symbol: a word without blanks, or a blank. -/
structure IsSymbol (a : String) : Prop where
  ne_nil : a.toList ≠ []
  unbroken_or_breaks : Unbroken a.toList ∨ Breaks a.toList

/-- A blank that separates nothing is a symbol by itself. -/
theorem isSymbol_of_blank {c : Char} (h : isBlank c = true) : IsSymbol (String.ofList [c]) where
  ne_nil := by simp
  unbroken_or_breaks := by
    right
    intro d hd
    obtain rfl : c = d := by simpa using hd
    exact h

/-- What a half of a line is cut into are symbols. -/
theorem Lexes.isSymbol (h : Lexes half symbols) : ∀ a ∈ symbols, IsSymbol a := by
  induction h with
  | nil => exact fun _ ha => absurd ha List.not_mem_nil
  | gap _ _ ih => exact ih
  | blank hc _ _ ih => exact List.forall_mem_cons.2 ⟨isSymbol_of_blank hc, ih⟩
  | word hne ha _ _ ih => exact List.forall_mem_cons.2 ⟨⟨hne, .inl ha⟩, ih⟩

/-- The production of a line consists of symbols. -/
theorem Holds.isSymbol (h : Holds line r) : ∀ a ∈ r.lhs :: r.rhs, IsSymbol a := by
  obtain ⟨⟨-, hleft, -⟩, hright⟩ := h
  exact List.forall_mem_cons.2 ⟨hleft.isSymbol _ List.mem_cons_self, hright.isSymbol⟩

/-- The terminals of a grammar that was read are words and single blanks. -/
theorem isSymbol_of_read {g : Grammar} {text : String} (h : read text = .ok g) :
    ∀ a ∈ g.terminals.names, IsSymbol a := by
  obtain ⟨rules, hlines, hrules⟩ := exists_rules_of_read h
  intro a ha
  rw [(madeFrom_of_ofRules hrules).terminals, Vocabulary.mem_ofList, List.mem_filter] at ha
  -- what is written in the productions is written on the lines
  obtain ⟨r, hr, ha⟩ := List.mem_flatMap.1 ha.1
  obtain ⟨line, -, hread⟩ := exists_line_of_readLines hlines r hr
  exact (readLine_eq_some_iff.1 hread).isSymbol a ha

end Grammar

end ShiftReduce
