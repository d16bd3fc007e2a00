/-!
# Lines

`lines` cuts a text at its line feeds. A carriage return that stands directly before a line feed
belongs to the line end; one anywhere else belongs to the line, also at the end of a last line
that no line feed closes. A text that ends with a line feed has no empty last line.
-/

namespace ShiftReduce.Text

/-- The characters of a closed line, given from its last to its first. -/
def closeLine : List Char → List Char
  | '\r' :: line => line.reverse
  | line => line.reverse

/-- The lines of the rest of a text when `line`, last character first, has been read so far. -/
def linesFrom (line : List Char) : List Char → List (List Char)
  | [] => if line.isEmpty then [] else [line.reverse]
  | c :: rest =>
    if c = '\n' then closeLine line :: linesFrom [] rest else linesFrom (c :: line) rest

/-- The lines of a text. -/
def lines (cs : List Char) : List (List Char) := linesFrom [] cs

/-- The first line feed closes the line that has been read so far. -/
theorem linesFrom_append_newline {line : List Char} (h : '\n' ∉ line) (seen rest : List Char) :
    linesFrom seen (line ++ '\n' :: rest) = closeLine (line.reverse ++ seen) :: lines rest := by
  induction line generalizing seen with
  | nil => simp [linesFrom, lines]
  | cons c line ih =>
    have hc : c ≠ '\n' := fun e => h (by simp [e])
    have := ih (fun m => h (by simp [m])) (c :: seen)
    simp [linesFrom, hc, this]

/-- A line that holds no line feed and does not end in a carriage return is read back alone. -/
theorem lines_append_newline {line : List Char} (h : '\n' ∉ line) (hr : line.getLast? ≠ some '\r')
    (rest : List Char) : lines (line ++ '\n' :: rest) = line :: lines rest := by
  rw [lines, linesFrom_append_newline h, List.append_nil]
  congr 1
  rcases e : line.reverse with _ | ⟨c, cs⟩
  · simpa [closeLine] using e
  · have hl : line = cs.reverse ++ [c] := by
      have := congrArg List.reverse e
      simpa using this
    have hc : c ≠ '\r' := by
      intro hc
      apply hr
      simp [hl, hc]
    subst hl
    simp only [closeLine]
    split
    · rename_i heq
      exact absurd (List.cons.inj heq).1 hc
    · simp

end ShiftReduce.Text
