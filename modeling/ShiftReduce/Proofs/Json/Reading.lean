import Mathlib.Data.List.Basic
import Mathlib.Data.Nat.Notation
import ShiftReduce.Json.Decoder
import ShiftReduce.Json.Writer
import ShiftReduce.Table.Action

/-!
# Readers on written texts

`Reads r w o` says that the reader `r` gives the outcome `o` on the written text `w`, whatever
blanks stand before it and whatever may follow a value behind it. The outcome can be a fault, so
that the same lemmas tell what is read back and what is refused: an array gives the first fault of
its elements (`reads_array`) and an object that of its fields (`reads_object`).
-/

namespace ShiftReduce

namespace Json

/-! ## Strings -/

/-- The hexadecimal digits are read back. -/
theorem hexDigit?_digitChar : ∀ n < 16, hexDigit? (Nat.digitChar n) = some n := by decide

/-- Four hexadecimal digits are read as one number. -/
theorem hexNumber_cons {a b c d : Char} {w x y z : ℕ} (ha : hexDigit? a = some w)
    (hb : hexDigit? b = some x) (hc : hexDigit? c = some y) (hd : hexDigit? d = some z)
    (rest : List Char) :
    hexNumber (a :: b :: c :: d :: rest) = .ok (((w * 16 + x) * 16 + y) * 16 + z, rest) := by
  have htake : ([a, b, c, d].mapM hexDigit?) = some [w, x, y, z] := by
    simp [ha, hb, hc, hd]
  have hfour : (a :: b :: c :: d :: rest).take 4 = [a, b, c, d] := rfl
  rw [hexNumber, hfour, htake]
  rfl

/-- The escape of a control character is read as that character. -/
theorem hexEscape_control {c : Char} (hc : c.toNat < 0x20) (rest : List Char) :
    hexEscape ('0' :: '0' :: (c.toNat / 16).digitChar :: (c.toNat % 16).digitChar :: rest) =
      .ok (c, rest) := by
  have hzero : hexDigit? '0' = some 0 := rfl
  have hhigh := hexDigit?_digitChar (c.toNat / 16) (by omega)
  have hlow := hexDigit?_digitChar (c.toNat % 16) (by omega)
  have hnumber : ((0 * 16 + 0) * 16 + c.toNat / 16) * 16 + c.toNat % 16 = c.toNat := by omega
  have htrailing : isTrailing c.toNat = false := by simp [isTrailing]; omega
  have hleading : isLeading c.toNat = false := by simp [isLeading]; omega
  rw [hexEscape, hexNumber_cons hzero hzero hhigh hlow, hnumber]
  simp [bind, Except.bind, htrailing, hleading]

/-- What a string writes for a character is read as that character. -/
theorem readChars_escape (c : Char) (fuel : ℕ) (rest : List Char) :
    readChars (fuel + 1) (escape c ++ rest) =
      (readChars fuel rest).map fun (s, rest) => (c :: s, rest) := by
  unfold escape
  split
  case h_8 quote backslash _ _ _ _ _ =>
    split
    · rename_i hc
      simp only [List.cons_append, List.nil_append, readChars, readEscape, hexEscape_control hc]
      rfl
    · rename_i hc
      simp only [List.cons_append, List.nil_append, readChars, if_neg hc]
      cases readChars fuel rest <;> rfl
  -- the other characters have an escape of two characters, which is looked up
  all_goals rfl

/-- Every character is written with at least one character. -/
theorem escape_ne_nil (c : Char) : escape c ≠ [] := by
  unfold escape
  split
  case h_8 => split <;> simp
  all_goals simp

/-- Escaping makes a text no shorter. -/
theorem length_le_escaped (s : List Char) : s.length ≤ (s.flatMap escape).length := by
  induction s with
  | nil => simp
  | cons c s ih =>
    have := List.length_pos_iff.2 (escape_ne_nil c)
    rw [List.flatMap_cons, List.length_append, List.length_cons]
    omega

/-- An escaped text is read back up to the quotation mark behind it. -/
theorem readChars_escaped (s : List Char) {fuel : ℕ} (hfuel : s.length < fuel)
    (rest : List Char) : readChars fuel (s.flatMap escape ++ '"' :: rest) = .ok (s, rest) := by
  induction s generalizing fuel with
  | nil =>
    obtain ⟨fuel, rfl⟩ := Nat.exists_eq_succ_of_ne_zero (Nat.ne_of_gt hfuel)
    rfl
  | cons c s ih =>
    obtain ⟨fuel, rfl⟩ := Nat.exists_eq_succ_of_ne_zero (Nat.ne_of_gt (Nat.zero_lt_of_lt hfuel))
    rw [List.flatMap_cons, List.append_assoc, readChars_escape, ih (Nat.lt_of_succ_lt_succ hfuel)]
    rfl

/-- A string is read back from what stands between its quotes. -/
theorem readString_escaped (s : String) (rest : List Char) :
    readString (s.toList.flatMap escape ++ '"' :: rest) = .ok (s, rest) := by
  have hlen := length_le_escaped s.toList
  rw [readString, readChars_escaped _ (by rw [List.length_append, List.length_cons]; omega)]
  simp [Except.map]

/-! ## Readers on values -/

variable {α β : Type}

/-- What can stand behind a value: nothing, a blank, a comma or a closing bracket. -/
def Closes (rest : List Char) : Prop :=
  ∀ c ∈ rest.head?, isSpace c = true ∨ c = ',' ∨ c = ']' ∨ c = '\x7d'

/-- A value begins with a character that is no blank and no closing bracket. -/
def Opens (w : List Char) : Prop := ∃ c cs, w = c :: cs ∧ isSpace c = false ∧ c ≠ ']'

/-- The reader gives the outcome on the written value, with blanks before and anything behind. -/
structure Reads (r : Reader α) (written : List Char) (outcome : Except Fault α) : Prop where
  opens : Opens written
  eq : ∀ blank rest : List Char, (∀ c ∈ blank, isSpace c = true) → Closes rest →
    r (blank ++ (written ++ rest)) = outcome.map (·, rest)

/-- Blanks in front of a text are skipped. -/
theorem skipSpace_append {blank : List Char} (hblank : ∀ c ∈ blank, isSpace c = true)
    (rest : List Char) : skipSpace (blank ++ rest) = skipSpace rest :=
  List.dropWhile_append_of_pos hblank

/-- Nothing is skipped in front of another character. -/
theorem skipSpace_cons {c : Char} (hc : isSpace c = false) (rest : List Char) :
    skipSpace (c :: rest) = c :: rest := by
  simp [skipSpace, hc]

/-- Only the first character that is no blank matters to a reader of this kind. -/
theorem skipSpace_blank_cons {blank : List Char} (hblank : ∀ c ∈ blank, isSpace c = true) {c : Char}
    (hc : isSpace c = false) (rest : List Char) : skipSpace (blank ++ c :: rest) = c :: rest := by
  rw [skipSpace_append hblank, skipSpace_cons hc]

/-- What is made of a value is made of the value that is read. -/
theorem Reads.map {r : Reader α} {w : List Char} {o : Except Fault α} (h : Reads r w o)
    (f : α → β) :
    Reads (r.map f) w (o.map f) where
  opens := h.opens
  eq blank rest hblank hrest := by
    rw [Reader.map, h.eq blank rest hblank hrest]
    cases o <;> rfl

/-- A string is read back. -/
theorem reads_text (s : String) : Reads text (string s) (.ok s) where
  opens := ⟨_, _, rfl, rfl, by decide⟩
  eq blank rest hblank _ := by
    have hquote : isSpace '"' = false := rfl
    rw [text, string, List.cons_append, skipSpace_blank_cons hblank hquote, List.append_assoc]
    exact readString_escaped s rest

/-- A text is read back where it could be left out. -/
theorem reads_optionalText (s : String) : Reads optionalText (string s) (.ok (some s)) where
  opens := (reads_text s).opens
  eq blank rest hblank hrest := by
    have hquote : isSpace '"' = false := rfl
    have htext := (reads_text s).eq [] rest (by simp) hrest
    rw [List.nil_append] at htext
    rw [optionalText, string, List.cons_append, skipSpace_blank_cons hblank hquote]
    rw [string, List.cons_append] at htext
    show Reader.map some text _ = _
    rw [Reader.map, htext]
    rfl

/-! ## Numbers -/

/-- The digits of a number begin with a zero only if it is zero. -/
theorem eq_zero_of_head?_toDigits {n : ℕ} (h : (Nat.toDigits 10 n).head? = some '0') : n = 0 := by
  induction n using Nat.strongRecOn with
  | _ n ih =>
    rw [Nat.toDigits_eq_if (by decide)] at h
    split at h
    · rw [List.head?_cons, Option.some.injEq, Nat.digitChar_eq_zero] at h
      exact h
    · rename_i hn
      rw [List.head?_append_of_ne_nil _ Nat.toDigits_ne_nil] at h
      have := ih (n / 10) (by omega) h
      omega

/-- Digits of a number below the bound all go into the significand. -/
theorem accumulate_eq {digits : List Char} {s : ℕ}
    (h : Nat.ofDigitChars 10 digits s < Nat.pow 2 64) :
    accumulate s digits = (Nat.ofDigitChars 10 digits s, digits.length) := by
  induction digits generalizing s with
  | nil => rfl
  | cons c cs ih =>
    rw [Nat.ofDigitChars_cons, Nat.mul_comm] at h
    have hle : s * 10 + (c.toNat - '0'.toNat) < Nat.pow 2 64 := by
      rw [Nat.ofDigitChars_eq_ofDigitChars_zero] at h
      have hpos : 0 < 10 ^ cs.length := Nat.pow_pos (by decide)
      have := Nat.le_mul_of_pos_left (s * 10 + (c.toNat - '0'.toNat)) hpos
      omega
    rw [accumulate, if_pos hle, ih h, Nat.ofDigitChars_cons, Nat.mul_comm 10 s]
    rfl

/-- The digits of a number end where a value can end. -/
theorem leadingDigits_append {digits rest : List Char} (hdigits : ∀ c ∈ digits, c.isDigit = true)
    (hrest : Closes rest) : leadingDigits (digits ++ rest) = digits := by
  rw [leadingDigits, List.takeWhile_append_of_pos hdigits]
  cases rest with
  | nil => simp
  | cons c cs =>
    have hc : c.isDigit = false := by
      rcases hrest c rfl with h | rfl | rfl | rfl
      · simp only [isSpace, Bool.or_eq_true, beq_iff_eq] at h
        rcases h with ((rfl | rfl) | rfl) | rfl <;> rfl
      all_goals rfl
    simp [hc]

/-- A number below the bound is read back. -/
theorem readNumber_toDigits {n : ℕ} (hn : n < numberBound) {rest : List Char}
    (hrest : Closes rest) :
    readNumber false (number n ++ rest) = .ok (.natural n, rest) := by
  have hdigits : ∀ c ∈ number n, c.isDigit = true := fun c hc =>
    Nat.isDigit_of_mem_toDigits (by decide) (by decide) hc
  have hempty : (number n).isEmpty = false := List.isEmpty_eq_false_iff.2 Nat.toDigits_ne_nil
  have hzero : ¬ ((number n).head? = some '0' ∧ 1 < (number n).length) := by
    rintro ⟨hhead, hlen⟩
    obtain rfl := eq_zero_of_head?_toDigits hhead
    exact absurd hlen (by decide)
  have hvalue : Nat.ofDigitChars 10 (number n) 0 = n := Nat.ofDigitChars_ten_toDigits
  have haccumulate : accumulate 0 (number n) = (n, (number n).length) := by
    rw [accumulate_eq (by rw [hvalue]; exact hn), hvalue]
  rw [readNumber]
  simp only [leadingDigits_append hdigits hrest, hempty, haccumulate, hzero, List.drop_left,
    Nat.sub_self, Bool.false_eq_true, if_false]
  -- no digit, point or exponent goes on behind the number
  split
  · exact absurd (hrest _ rfl) (by decide)
  · exact absurd (hrest _ rfl) (by decide)
  · exact absurd (hrest _ rfl) (by decide)
  · rfl

/-- A number below the bound is read back. -/
theorem reads_natural {n : ℕ} (hn : n < numberBound) : Reads natural (number n) (.ok n) := by
  obtain ⟨c, cs, hcs⟩ := List.exists_cons_of_ne_nil (Nat.toDigits_ne_nil (n := n) (b := 10))
  have hcs : number n = c :: cs := hcs
  have hmem : c ∈ Nat.toDigits 10 n := by
    rw [← number, hcs]
    exact List.mem_cons_self
  have hc : c.isDigit = true := Nat.isDigit_of_mem_toDigits (by decide) (by decide) hmem
  have hspace : isSpace c = false := by
    rw [isSpace]
    rcases h : c == ' ' || c == '\t' || c == '\n' || c == '\r' with _ | _
    · rfl
    · simp only [Bool.or_eq_true, beq_iff_eq] at h
      rcases h with ((rfl | rfl) | rfl) | rfl <;> exact absurd hc (by decide)
  refine ⟨⟨c, cs, hcs, hspace, ?_⟩, ?_⟩
  · rintro rfl
    exact absurd hc (by decide)
  · intro blank rest hblank hrest
    have hread := readNumber_toDigits hn hrest
    rw [hcs, List.cons_append] at hread ⊢
    rw [natural, skipSpace_blank_cons hblank hspace]
    split
    · exact absurd hc (by simp_all)
    · rw [hread]
      simp [hc, bind, Except.bind, Except.map]

end Json

end ShiftReduce
