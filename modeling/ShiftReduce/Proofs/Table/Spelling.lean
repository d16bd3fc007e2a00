import Mathlib.Data.List.Induction
import Mathlib.Data.Nat.Digits.Defs
import ShiftReduce.Proofs.Table.Exchange

/-!
# Written forms of actions

The texts that are read as actions are `accept` and the letters `S` and `R` with a numeral behind
them, `Action.Written`; a numeral may begin with zeros. The value of a numeral is said by the
weights of its digits. Each action has one written form without superfluous zeros, which is the one
that it is displayed as (`Action.Written.display_eq_iff`), and every other text is refused.
-/

namespace ShiftReduce

open Json

/-! ## Numerals -/

/-- What decimal digits denote: the last one counts ones, and each one before it ten times as much
as the one behind it. -/
def decimalValue (digits : List Char) : ℕ :=
  Nat.ofDigits 10 (digits.reverse.map fun c => c.toNat - '0'.toNat)

/-- One more digit at the end counts ones and makes the others count ten times as much. -/
theorem decimalValue_concat (digits : List Char) (c : Char) :
    decimalValue (digits ++ [c]) = 10 * decimalValue digits + (c.toNat - '0'.toNat) := by
  rw [decimalValue, List.reverse_concat, List.map_cons, Nat.ofDigits_cons, Nat.add_comm]
  rfl

/-- What digits are read as is what they denote. -/
theorem ofDigitChars_eq_decimalValue (digits : List Char) :
    Nat.ofDigitChars 10 digits 0 = decimalValue digits := by
  induction digits using List.reverseRecOn with
  | nil => rfl
  | append_singleton digits c ih =>
    rw [Nat.ofDigitChars_append, ih, decimalValue_concat, Nat.ofDigitChars_cons,
      Nat.ofDigitChars_nil]

/-- The digits, at least one, are a numeral of the number, which is below the bound. -/
structure Numeral (digits : List Char) (n : ℕ) : Prop where
  ne_nil : digits ≠ []
  digit : ∀ c ∈ digits, '0' ≤ c ∧ c ≤ '9'
  value_eq : decimalValue digits = n
  lt : n < numberBound

/-- The digits of ASCII are those from zero to nine. -/
theorem isDigit_iff {c : Char} : c.isDigit = true ↔ '0' ≤ c ∧ c ≤ '9' := by
  simp [Char.isDigit, Char.le_def]

/-- The texts of digits that are read as a number are its numerals. -/
theorem readDigits_eq_some_iff {digits : List Char} {n : ℕ} :
    Text.readDigits digits = some n ↔ Numeral digits n := by
  rw [Text.readDigits, ofDigitChars_eq_decimalValue]
  simp only [Bool.and_eq_true, Bool.not_eq_true', List.isEmpty_eq_false_iff, List.all_eq_true,
    decide_eq_true_eq, Option.ite_none_right_eq_some, Option.some.injEq, isDigit_iff]
  constructor
  · rintro ⟨⟨⟨hne, hdigit⟩, hlt⟩, rfl⟩
    exact ⟨hne, hdigit, rfl, hlt⟩
  · rintro ⟨hne, hdigit, rfl, hlt⟩
    exact ⟨⟨⟨hne, hdigit⟩, hlt⟩, rfl⟩

/-- The digits of a numeral are decimal digits of some script. -/
theorem Numeral.all_isDecimal {digits : List Char} {n : ℕ} (h : Numeral digits n) :
    digits.all Text.isDecimal = true :=
  List.all_eq_true.2 fun c hc => Text.isDecimal_of_isDigit (isDigit_iff.2 (h.digit c hc))

/-- The digits of ASCII stand in one piece. -/
theorem toNat_of_digit {c : Char} (hc : '0' ≤ c ∧ c ≤ '9') : 48 ≤ c.toNat ∧ c.toNat ≤ 57 := by
  rw [Char.le_def, Char.le_def, UInt32.le_iff_toNat_le, UInt32.le_iff_toNat_le] at hc
  exact hc

/-- A digit denotes a number below ten. -/
theorem digit_lt_ten {c : Char} (hc : '0' ≤ c ∧ c ≤ '9') : c.toNat - '0'.toNat < 10 := by
  have hzero : '0'.toNat = 48 := rfl
  have hhigh := (toNat_of_digit hc).2
  omega

/-- The number of a digit is displayed as that digit. -/
theorem toDigits_digit {c : Char} (hc : '0' ≤ c ∧ c ≤ '9') :
    Nat.toDigits 10 (c.toNat - '0'.toNat) = [c] := by
  rw [Nat.toDigits_of_lt_base (digit_lt_ten hc), List.singleton_inj]
  apply Char.toNat_inj.1
  rw [Nat.toNat_digitChar_of_lt_ten (digit_lt_ten hc)]
  exact Nat.add_sub_of_le (toNat_of_digit hc).1

/-- Digits behind a number other than zero go on with its digits. -/
theorem toDigits_append {digits : List Char} (hdigits : ∀ c ∈ digits, '0' ≤ c ∧ c ≤ '9') {n : ℕ}
    (hn : 0 < n) :
    Nat.toDigits 10 n ++ digits = Nat.toDigits 10 (Nat.ofDigitChars 10 digits n) := by
  induction digits generalizing n with
  | nil => rw [List.append_nil, Nat.ofDigitChars_nil]
  | cons c digits ih =>
    obtain ⟨hc, hrest⟩ := List.forall_mem_cons.1 hdigits
    calc Nat.toDigits 10 n ++ c :: digits
        = Nat.toDigits 10 n ++ [c] ++ digits := by simp
      _ = Nat.toDigits 10 (10 * n + (c.toNat - '0'.toNat)) ++ digits := by
        rw [← toDigits_digit hc,
          Nat.toDigits_append_toDigits (by decide) hn (digit_lt_ten hc)]
      _ = Nat.toDigits 10 (Nat.ofDigitChars 10 (c :: digits) n) := by
        rw [ih hrest (by omega), Nat.ofDigitChars_cons]

/-- The first digit is a zero, and there are more. -/
def LeadingZero (digits : List Char) : Prop := ∃ c rest, digits = '0' :: c :: rest

/-- A numeral is what its number is displayed as, unless it begins with a superfluous zero. -/
theorem Numeral.toDigits_eq_iff {digits : List Char} {n : ℕ} (h : Numeral digits n) :
    Nat.toDigits 10 n = digits ↔ ¬ LeadingZero digits := by
  constructor
  · rintro hdigits ⟨c, rest, rfl⟩
    obtain rfl := eq_zero_of_head?_toDigits (n := n) (by rw [hdigits]; rfl)
    exact absurd hdigits (by simp)
  · intro hlead
    obtain ⟨hne, hdigit, rfl, -⟩ := h
    obtain ⟨c, rest, rfl⟩ := List.exists_cons_of_ne_nil hne
    obtain ⟨hc, hrest⟩ := List.forall_mem_cons.1 hdigit
    rw [← ofDigitChars_eq_decimalValue, Nat.ofDigitChars_cons, Nat.mul_zero, Nat.zero_add]
    cases rest with
    | nil => rw [Nat.ofDigitChars_nil, toDigits_digit hc]
    | cons d rest =>
      -- the first digit is a number other than zero, and the others go on with it
      have hpos : 0 < c.toNat - '0'.toNat := by
        refine Nat.pos_of_ne_zero fun hzero => hlead ⟨d, rest, ?_⟩
        have hdigits := toDigits_digit hc
        rw [hzero] at hdigits
        rw [← List.singleton_inj.1 (hdigits.symm.trans rfl : [c] = ['0'])]
      rw [← toDigits_append hrest hpos, toDigits_digit hc]
      rfl

namespace Action

variable {cs : List Char} {s : String} {a : Action}

/-! ## Actions -/

/-- The written forms of the actions. -/
inductive Written : List Char → Action → Prop
  | accept : Written "accept".toList accept
  | shift {digits : List Char} {n : ℕ} (h : Numeral digits n) : Written ('S' :: digits) (shift n)
  | reduce {digits : List Char} {n : ℕ} (h : Numeral digits n) : Written ('R' :: digits) (reduce n)

/-- The pattern takes the digits of every script and the number only those of ASCII, a sign the
number and not the pattern. Both together take a letter and a numeral. -/
theorem form?_readNumber_iff {letter : Char} {digits : List Char} {n : ℕ} :
    (form? cs = some (letter, digits) ∧ Text.readNumber digits = some n) ↔
      cs = letter :: digits ∧ (letter = 'S' ∨ letter = 'R') ∧ Numeral digits n := by
  constructor
  · rintro ⟨hform, hnumber⟩
    cases cs with
    | nil => exact absurd hform (by simp [form?])
    | cons c rest =>
      rw [form?, Option.ite_none_right_eq_some, Option.some.injEq, Prod.mk.injEq] at hform
      obtain ⟨⟨hletter, -, hdigits⟩, rfl, rfl⟩ := hform
      rw [Text.readNumber_of_isDecimal hdigits] at hnumber
      exact ⟨rfl, hletter, readDigits_eq_some_iff.1 hnumber⟩
  · rintro ⟨rfl, hletter, hnumeral⟩
    have hdigits := hnumeral.all_isDecimal
    rw [form?, if_pos ⟨hletter, hnumeral.ne_nil, hdigits⟩, Text.readNumber_of_isDecimal hdigits]
    exact ⟨rfl, readDigits_eq_some_iff.2 hnumeral⟩

/-- The texts that are read as an action are its written forms. -/
theorem readChars_eq_some_iff : readChars cs = some a ↔ Written cs a := by
  constructor
  · intro h
    unfold readChars at h
    split at h
    · rename_i hcs
      obtain rfl := Option.some.inj h
      exact hcs ▸ .accept
    · split at h
      · exact absurd h (by simp)
      · rename_i letter digits hform
        obtain ⟨n, hn, rfl⟩ := Option.map_eq_some_iff.1 h
        obtain ⟨rfl, rfl | rfl, hnumeral⟩ := form?_readNumber_iff.1 ⟨hform, hn⟩
        · exact .shift hnumeral
        · exact .reduce hnumeral
  · intro h
    cases h with
    | accept => rfl
    | shift h =>
      have hform := (form?_readNumber_iff.2 ⟨rfl, .inl rfl, h⟩).1
      rw [readChars_of_form? hform, readDigits_eq_some_iff.2 h]
      rfl
    | reduce h =>
      have hform := (form?_readNumber_iff.2 ⟨rfl, .inr rfl, h⟩).1
      rw [readChars_of_form? hform, readDigits_eq_some_iff.2 h]
      rfl

/-- The texts that are read as an action are its written forms. -/
theorem read_eq_some_iff : read s = some a ↔ Written s.toList a :=
  readChars_eq_some_iff

/-- An action is displayed as one of its written forms, if its number is below the bound. -/
theorem read_display_iff : read a.display = some a ↔ a.Bounded := by
  refine ⟨fun h => ?_, read_display⟩
  have hwritten := read_eq_some_iff.1 h
  generalize a.display.toList = cs at hwritten
  cases hwritten with
  | accept => trivial
  | shift hnumeral => exact hnumeral.lt
  | reduce hnumeral => exact hnumeral.lt

/-- A shift is displayed by its letter and the digits of its state. -/
theorem toList_display_shift (n : ℕ) : (shift n).display.toList = 'S' :: Nat.toDigits 10 n := by
  simp [display, Nat.toList_repr]

/-- A reduction is displayed by its letter and the digits of its rule. -/
theorem toList_display_reduce (n : ℕ) : (reduce n).display.toList = 'R' :: Nat.toDigits 10 n := by
  simp [display, Nat.toList_repr]

/-- A written form is what the action is displayed as, unless its numeral begins with a superfluous
zero. -/
theorem Written.display_eq_iff (h : Written s.toList a) :
    a.display = s ↔ ¬ LeadingZero s.toList.tail := by
  rw [← String.toList_inj]
  generalize s.toList = cs at h
  cases h with
  | accept =>
    refine iff_of_true rfl ?_
    rintro ⟨c, rest, h⟩
    have hhead : some 'c' = some '0' := congrArg List.head? h
    exact absurd hhead (by decide)
  | shift h => rw [toList_display_shift, List.cons_inj_right, h.toDigits_eq_iff, List.tail_cons]
  | reduce h => rw [toList_display_reduce, List.cons_inj_right, h.toDigits_eq_iff, List.tail_cons]

/-- The texts that are read as actions are their written forms; any other text is refused, and named
in the message. An action whose number is below the bound is read back from what it is displayed as,
and what is read is displayed as the same text exactly if there is no superfluous zero in it. -/
theorem read_written :
    (∀ s a, read s = some a ↔ Written s.toList a) ∧
    (∀ s, (∀ a, ¬ Written s.toList a) →
      read s = none ∧ Reads readAction (string s) (.error (.mismatch (badAction s)))) ∧
    (∀ a, read a.display = some a ↔ a.Bounded) ∧
    ∀ s a, read s = some a → (a.display = s ↔ ¬ LeadingZero s.toList.tail) := by
  refine ⟨fun s a => read_eq_some_iff, fun s h => ?_, fun a => read_display_iff, fun s a h => ?_⟩
  · have hnone : read s = none :=
      Option.eq_none_iff_forall_ne_some.2 fun a ha => h a (read_eq_some_iff.1 ha)
    have hreads := reads_readAction s
    rw [hnone] at hreads
    exact ⟨hnone, hreads⟩
  · exact (read_eq_some_iff.1 h).display_eq_iff

/-- Zeros in front are read but not displayed, and a sign is refused. -/
theorem read_written_padded :
    read "S007" = some (shift 7) ∧ ((shift 7).display = "S007" ↔ ¬ LeadingZero ['0', '0', '7']) ∧
    (∀ a, ¬ Written "S+1".toList a) ∧ read "S+1" = none ∧
    Reads readAction (string "S+1") (.error (.mismatch (badAction "S+1"))) := by
  obtain ⟨hread, hbad, -, hdisplay⟩ := read_written
  have hpadded : read "S007" = some (shift 7) := by decide +kernel
  have hsigned : ∀ a, ¬ Written "S+1".toList a := by
    intro a ha
    have hnone : read "S+1" = none := by decide +kernel
    exact absurd ((hread _ a).2 ha) (by simp [hnone])
  exact ⟨hpadded, hdisplay _ _ hpadded, hsigned, hbad _ hsigned⟩

end Action

end ShiftReduce
