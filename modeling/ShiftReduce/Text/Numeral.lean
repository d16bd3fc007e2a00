/-!
# Numerals

Two notions of a digit meet where a text holds a number. `isDecimal` decides the category `Nd`
(decimal digit) as Unicode 16 assigns it: each set of decimal digits stands in one piece, from its
zero to its nine, so the table holds the zeros. `readNumber` reads the numbers that fit into a
machine word; it takes the digits of ASCII alone, and a plus sign in front of them.
-/

namespace ShiftReduce

/-- Numbers lie below this bound, among them those of states and rules. -/
def numberBound : Nat := Nat.pow 2 64

namespace Text

/-- The code points of the decimal digits that stand for zero. -/
def zeros : List Nat := [
  0x30, 0x660, 0x6F0, 0x7C0, 0x966, 0x9E6, 0xA66, 0xAE6, 0xB66, 0xBE6, 0xC66, 0xCE6, 0xD66, 0xDE6,
  0xE50, 0xED0, 0xF20, 0x1040, 0x1090, 0x17E0, 0x1810, 0x1946, 0x19D0, 0x1A80, 0x1A90, 0x1B50,
  0x1BB0, 0x1C40, 0x1C50, 0xA620, 0xA8D0, 0xA900, 0xA9D0, 0xA9F0, 0xAA50, 0xABF0, 0xFF10, 0x104A0,
  0x10D30, 0x10D40, 0x11066, 0x110F0, 0x11136, 0x111D0, 0x112F0, 0x11450, 0x114D0, 0x11650,
  0x116C0, 0x116D0, 0x116DA, 0x11730, 0x118E0, 0x11950, 0x11BF0, 0x11C50, 0x11D50, 0x11DA0,
  0x11F50, 0x16130, 0x16A60, 0x16AC0, 0x16B50, 0x16D70, 0x1CCF0, 0x1D7CE, 0x1D7D8, 0x1D7E2,
  0x1D7EC, 0x1D7F6, 0x1E140, 0x1E2F0, 0x1E4F0, 0x1E5F1, 0x1E950, 0x1FBF0
]

/-- A decimal digit of any script. -/
def isDecimal (c : Char) : Bool := zeros.any fun low => low ≤ c.toNat && c.toNat ≤ low + 9

/-- The number that digits of ASCII, at least one, denote, if it is below the bound. -/
def readDigits (cs : List Char) : Option Nat :=
  if !cs.isEmpty && cs.all Char.isDigit && Nat.ofDigitChars 10 cs 0 < numberBound then
    some (Nat.ofDigitChars 10 cs 0)
  else none

/-- The number that a text denotes, if it is below the bound. -/
def readNumber : List Char → Option Nat
  | '+' :: digits => readDigits digits
  | digits => readDigits digits

/-- The digits of ASCII are among the decimal digits. -/
theorem isDecimal_of_isDigit {c : Char} (h : c.isDigit = true) : isDecimal c = true := by
  simp only [Char.isDigit, Bool.and_eq_true, decide_eq_true_eq] at h
  refine List.any_eq_true.2 ⟨0x30, List.mem_cons_self, ?_⟩
  rw [Bool.and_eq_true, decide_eq_true_eq, decide_eq_true_eq]
  exact ⟨UInt32.le_iff_toNat_le.1 h.1, UInt32.le_iff_toNat_le.1 h.2⟩

/-- A sign is no digit, so digits of any script are read without one. -/
theorem readNumber_of_isDecimal {cs : List Char} (h : cs.all isDecimal = true) :
    readNumber cs = readDigits cs := by
  unfold readNumber
  split
  · exact absurd (List.all_eq_true.1 h '+' List.mem_cons_self) (by decide)
  · rfl

/-- What a number is displayed as is read as that number. -/
theorem readDigits_toDigits {n : Nat} (h : n < numberBound) :
    readDigits (Nat.toDigits 10 n) = some n := by
  have digits : (Nat.toDigits 10 n).all Char.isDigit = true :=
    List.all_eq_true.2 fun c hc => Nat.isDigit_of_mem_toDigits (by decide) (by decide) hc
  have nonempty : (Nat.toDigits 10 n).isEmpty = false := by
    rw [List.isEmpty_eq_false_iff]
    exact Nat.toDigits_ne_nil
  simp [readDigits, digits, nonempty, Nat.ofDigitChars_ten_toDigits, h]

end Text

end ShiftReduce
