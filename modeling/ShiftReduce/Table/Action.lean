import ShiftReduce.Text.Numeral
import ShiftReduce.Text.Quoted

/-!
# Parse actions

What a parser does on a terminal: accept the input, shift the terminal and go to a state, or
reduce by a rule. The written forms are `accept`, `S` with the number of the state and `R` with
the number of the rule. A text is first matched with the pattern of these forms, which takes digits
of any script, and then its number is read, which takes those of ASCII alone. Main statement:
`read_display`.
-/

namespace ShiftReduce

/-- A single entry of the action table. -/
inductive Action where
  /-- The input is complete. -/
  | accept
  /-- Push the terminal and move to the state. -/
  | shift (state : Nat)
  /-- Replace the right-hand side of the rule, counted from 1, by its left-hand side. -/
  | reduce (rule : Nat)
deriving DecidableEq, Repr

namespace Action

/-- The written form. -/
def display : Action → String
  | accept => "accept"
  | shift state => "S" ++ state.repr
  | reduce rule => "R" ++ rule.repr

/-- The letter and the digits of a text that is one of the letters `S` and `R` with digits behind
it, at least one and of any script. -/
def form? : List Char → Option (Char × List Char)
  | [] => none
  | letter :: digits =>
    if (letter = 'S' ∨ letter = 'R') ∧ digits ≠ [] ∧ digits.all Text.isDecimal then
      some (letter, digits)
    else none

/-- The action of a written form. -/
def readChars (cs : List Char) : Option Action :=
  if cs = "accept".toList then some accept
  else
    match form? cs with
    | none => none
    | some (letter, digits) =>
      (Text.readNumber digits).map fun n => if letter = 'S' then shift n else reduce n

/-- The action of a written form. -/
def read (s : String) : Option Action := readChars s.toList

/-- The action shifts. -/
def isShift : Action → Bool
  | shift _ => true
  | _ => false

/-- The actions that shift are the shifts. -/
theorem isShift_iff {a : Action} : a.isShift = true ↔ ∃ n, a = shift n := by
  cases a <;> simp [isShift]

/-- The number in the action is below the bound. -/
def Bounded : Action → Prop
  | accept => True
  | shift n => n < numberBound
  | reduce n => n < numberBound

/-- The pattern takes the digits of every number. -/
theorem form?_toDigits {letter : Char} (h : letter = 'S' ∨ letter = 'R') (n : Nat) :
    form? (letter :: Nat.toDigits 10 n) = some (letter, Nat.toDigits 10 n) := by
  have hdigits : (Nat.toDigits 10 n).all Text.isDecimal = true :=
    List.all_eq_true.2 fun c hc =>
      Text.isDecimal_of_isDigit (Nat.isDigit_of_mem_toDigits (by decide) (by decide) hc)
  rw [form?, if_pos ⟨h, Nat.toDigits_ne_nil, hdigits⟩]

/-- A text that the pattern takes is read by its number. -/
theorem readChars_of_form? {letter : Char} {digits : List Char}
    (h : form? (letter :: digits) = some (letter, digits)) :
    readChars (letter :: digits) =
      (Text.readDigits digits).map fun n => if letter = 'S' then shift n else reduce n := by
  obtain ⟨hletter, -, hdigits⟩ : (letter = 'S' ∨ letter = 'R') ∧ digits ≠ [] ∧
      digits.all Text.isDecimal = true := by
    simpa [form?] using h
  have hne : letter :: digits ≠ "accept".toList := by
    intro heq
    have ha : letter = 'a' := (List.cons.inj heq).1
    rcases hletter with hs | hr
    · exact absurd (hs.symm.trans ha) (by decide)
    · exact absurd (hr.symm.trans ha) (by decide)
  rw [readChars, if_neg hne, h, ← Text.readNumber_of_isDecimal hdigits]

/-- The written form of an action is read as that action. -/
theorem read_display {a : Action} (h : a.Bounded) : read a.display = some a := by
  cases a with
  | accept => decide
  | shift n =>
    have hform := form?_toDigits (.inl rfl : 'S' = 'S' ∨ 'S' = 'R') n
    simp [read, display, Nat.toList_repr, readChars_of_form? hform, Text.readDigits_toDigits h]
  | reduce n =>
    have hform := form?_toDigits (.inr rfl : 'R' = 'S' ∨ 'R' = 'R') n
    simp [read, display, Nat.toList_repr, readChars_of_form? hform, Text.readDigits_toDigits h]

end Action

/-- A text that is no written form of an action, in words. -/
def badAction (s : String) : String := "bad action " ++ Text.quoted s

end ShiftReduce
