/-!
# Blank characters

`isBlank` decides the Unicode property `White_Space`. Trimming and the cutting of a text at its
first blank are stated over lists of characters, the form in which every reader of the library
takes its text.
-/

namespace ShiftReduce.Text

/-- A character with the Unicode property `White_Space`. -/
def isBlank (c : Char) : Bool :=
  let n := c.toNat
  (9 ≤ n && n ≤ 13) || n == 0x20 || n == 0x85 || n == 0xA0 || n == 0x1680 ||
    (0x2000 ≤ n && n ≤ 0x200A) || n == 0x2028 || n == 0x2029 || n == 0x202F || n == 0x205F ||
    n == 0x3000

/-- The text without its leading blanks. -/
def trimStart (cs : List Char) : List Char := cs.dropWhile isBlank

/-- The text without its blanks at both ends. -/
def trim (cs : List Char) : List Char := (trimStart (trimStart cs).reverse).reverse

/-- The leading run of characters that are not blank. -/
def firstWord (cs : List Char) : List Char := cs.takeWhile (!isBlank ·)

/-- The number of bytes of the text in UTF-8. -/
def byteLength (cs : List Char) : Nat := cs.foldr (fun c n => c.utf8Size + n) 0

/-- No character of the text is blank. -/
def Unbroken (cs : List Char) : Prop := ∀ c ∈ cs, isBlank c = false

instance (cs : List Char) : Decidable (Unbroken cs) :=
  decidable_of_iff (cs.all (!isBlank ·) = true) (by simp [Unbroken])

/-- The text is empty or begins with a blank. -/
def Breaks (cs : List Char) : Prop := ∀ c ∈ cs.head?, isBlank c = true

/-- Blanks in front of a text are trimmed off. -/
theorem trimStart_append_of_blank {bs : List Char} (h : ∀ c ∈ bs, isBlank c = true)
    (cs : List Char) : trimStart (bs ++ cs) = trimStart cs := by
  induction bs with
  | nil => rfl
  | cons b bs ih =>
    have hb : isBlank b = true := h b (by simp)
    have := ih fun c hc => h c (by simp [hc])
    simpa [trimStart, hb] using this

/-- A text that does not begin with a blank is not trimmed. -/
theorem trimStart_eq_self {cs : List Char} (h : ∀ c ∈ cs.head?, isBlank c = false) :
    trimStart cs = cs := by
  cases cs with
  | nil => rfl
  | cons c cs =>
    have hc : isBlank c = false := h c rfl
    simp [trimStart, hc]

/-- The first word ends where a blank stands or the text ends. -/
theorem firstWord_append {word rest : List Char} (hword : Unbroken word) (hrest : Breaks rest) :
    firstWord (word ++ rest) = word := by
  have hstop : rest.takeWhile (!isBlank ·) = [] := by
    cases rest with
    | nil => rfl
    | cons c rest =>
      have hc : isBlank c = true := hrest c rfl
      simp [hc]
  rw [firstWord, List.takeWhile_append_of_pos (by simpa [Unbroken] using hword), hstop,
    List.append_nil]

/-- A text is its first word and what stands behind it. -/
theorem exists_firstWord_append (cs : List Char) :
    ∃ rest, firstWord cs ++ rest = cs ∧ Unbroken (firstWord cs) ∧ Breaks rest := by
  refine ⟨cs.dropWhile (!isBlank ·), List.takeWhile_append_dropWhile, fun c hc => ?_,
    fun c hc => ?_⟩
  · simpa using List.all_eq_true.1 List.all_takeWhile c hc
  · have h := List.head?_dropWhile_not (!isBlank ·) cs
    rw [Option.mem_def.1 hc] at h
    simpa using h

/-- A word that begins a text ends where the first word of the text ends, or before. -/
theorem length_le_of_prefix {v cs rest : List Char} (hv : Unbroken v ∨ Breaks v)
    (hcs : Unbroken cs) (hne : cs ≠ []) (hrest : Breaks rest) (h : v <+: cs ++ rest) :
    v.length ≤ cs.length := by
  rcases List.prefix_or_prefix_of_prefix h (List.prefix_append cs rest) with hle | ⟨v', rfl⟩
  · exact hle.length_le
  cases v' with
  | nil => simp
  | cons d v' =>
    -- beyond the first word stands a blank, which a word does not hold
    obtain ⟨tail, rfl⟩ := (List.prefix_append_right_inj cs).1 h
    have hd : isBlank d = true := hrest d rfl
    rcases hv with hv | hv
    · have := hv d (by simp)
      exact absurd (hd.symm.trans this) (by simp)
    · obtain ⟨c, cs, rfl⟩ := List.exists_cons_of_ne_nil hne
      have hblank : isBlank c = true := hv c rfl
      have := hcs c List.mem_cons_self
      exact absurd (hblank.symm.trans this) (by simp)

@[simp] theorem byteLength_nil : byteLength [] = 0 := rfl

@[simp] theorem byteLength_cons (c : Char) (cs : List Char) :
    byteLength (c :: cs) = c.utf8Size + byteLength cs := rfl

/-- The bytes of two texts are counted together. -/
@[simp] theorem byteLength_append (as bs : List Char) :
    byteLength (as ++ bs) = byteLength as + byteLength bs := by
  induction as with
  | nil => simp
  | cons c as ih => rw [List.cons_append, byteLength_cons, ih, byteLength_cons, Nat.add_assoc]

/-- Every character takes at least one byte. -/
theorem byteLength_eq_zero {cs : List Char} (h : byteLength cs = 0) : cs = [] := by
  cases cs with
  | nil => rfl
  | cons c cs =>
    have hc := c.utf8Size_pos
    rw [byteLength_cons] at h
    omega

/-- The end of a text has no more bytes than the text. -/
theorem byteLength_le_of_suffix {as bs : List Char} (h : as <:+ bs) :
    byteLength as ≤ byteLength bs := by
  obtain ⟨front, rfl⟩ := h
  rw [byteLength_append]
  exact Nat.le_add_left _ _

/-- Of two prefixes of a text, the one with more characters has more bytes. -/
theorem length_le_of_byteLength_le {v w cs : List Char} (hv : v <+: cs) (hw : w <+: cs)
    (h : byteLength v ≤ byteLength w) : v.length ≤ w.length := by
  rcases List.prefix_or_prefix_of_prefix hv hw with hle | ⟨u, rfl⟩
  · exact hle.length_le
  · rw [byteLength_append] at h
    have hu : u = [] := byteLength_eq_zero (by omega)
    simp [hu]

/-- The bytes of a string are those of its characters. -/
theorem utf8ByteSize_eq_byteLength (s : String) : s.utf8ByteSize = byteLength s.toList := by
  suffices h : ∀ cs : List Char, (String.ofList cs).utf8ByteSize = byteLength cs by
    rw [← h, String.ofList_toList]
  intro cs
  induction cs with
  | nil => rfl
  | cons c cs ih =>
    have hcons : String.ofList (c :: cs) = String.singleton c ++ String.ofList cs := by
      rw [String.singleton_eq_ofList, ← String.ofList_append, List.singleton_append]
    rw [hcons, String.utf8ByteSize_append, String.utf8ByteSize_singleton, ih, byteLength_cons]

end ShiftReduce.Text
