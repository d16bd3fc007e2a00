import Mathlib.Data.List.Basic
import Mathlib.Data.Nat.Notation
import ShiftReduce.Tokenizer

/-!
# Maximal munch

What the tokenizer is meant to do is said without the order of its words: it skips blanks and cuts
off the longest word of the vocabulary that begins the text, again and again (`Munches`), until
nothing is left or no word begins what is left (`Unrecognized`).

The words are tried by their number of bytes, longer ones first, and the first that fits is taken.
All words that begin one text begin one another, so the first of them is the longest, also in
characters (`isLongestWord_of_next?`). A text is shorter by what is cut off it, so it comes to an
end (`exists_munches`), which the tokenizer follows (`Munches.cut_add`) and reports
(`tokenize_maximal_munch`).
-/

namespace ShiftReduce

open Text

/-! ## The words of a vocabulary -/

namespace Word

/-- A word spells the string that it is made from. -/
theorem ofString?_eq_some_iff {s : String} {w : Word} :
    ofString? s = some w ↔ s.toList = w.chars := by
  unfold ofString?
  split
  · rw [Option.some.injEq, Word.ext_iff]
  · rename_i h
    have hnil : s.toList = [] := not_not.1 h
    simp [hnil, w.ne_nil.symm]

/-- Words that come later are not longer. -/
theorem byteLength_le_of_lt {v w : Word} (h : compare v w = .lt) :
    byteLength w.chars ≤ byteLength v.chars := by
  have h : (longerFirst v w).then (compare v.chars w.chars) = .lt := h
  rcases Ordering.then_eq_lt.1 h with h | ⟨h, -⟩
  · exact Nat.le_of_lt (Nat.compare_eq_lt.1 h)
  · exact Nat.le_of_eq (Nat.compare_eq_eq.1 h)

end Word

namespace Tokenizer

variable {terminals : List String} {cs rest rest' : List Char} {a b : String} {ts : List String}

/-- The vocabulary for some terminals: those that are not empty, and the end marker. -/
structure IsWord (terminals : List String) (a : String) : Prop where
  mem : a ∈ terminals ∨ a = endMarker
  ne_nil : a.toList ≠ []

/-- The words of a tokenizer are the terminals that are not empty, and the end marker. -/
theorem mem_words {w : Word} :
    w ∈ (ofTerminals terminals).words ↔ IsWord terminals (String.ofList w.chars) := by
  have hspells (s : String) : s.toList = w.chars ↔ s = String.ofList w.chars := by
    rw [← String.toList_inj, String.toList_ofList]
  simp only [ofTerminals, OrderedSet.mem_ofList, List.mem_filterMap, Word.ofString?_eq_some_iff,
    hspells, exists_eq_right, List.mem_append, List.mem_singleton]
  exact ⟨fun h => ⟨h, by rw [String.toList_ofList]; exact w.ne_nil⟩, IsWord.mem⟩

/-- Each of them is one of its words. -/
theorem IsWord.exists_mem (h : IsWord terminals a) :
    ∃ w : Word, w.chars = a.toList ∧ w ∈ (ofTerminals terminals).words :=
  ⟨⟨a.toList, h.ne_nil⟩, rfl, mem_words.2 (by rwa [String.ofList_toList])⟩

/-- No word of the vocabulary that begins the text is longer than this one. -/
structure IsLongestWord (terminals : List String) (cs : List Char) (a : String) : Prop where
  isWord : IsWord terminals a
  begins : a.toList <+: cs
  length_le : ∀ b, IsWord terminals b → b.toList <+: cs → b.length ≤ a.length

/-- There is one longest word at the front of a text. -/
theorem IsLongestWord.eq (ha : IsLongestWord terminals cs a) (hb : IsLongestWord terminals cs b) :
    a = b := by
  have hlength : a.length = b.length :=
    Nat.le_antisymm (hb.length_le a ha.isWord ha.begins) (ha.length_le b hb.isWord hb.begins)
  rw [← String.length_toList, ← String.length_toList] at hlength
  have hbegins := List.prefix_of_prefix_length_le ha.begins hb.begins (Nat.le_of_eq hlength)
  exact String.toList_inj.1 (hbegins.eq_of_length hlength)

/-- The first word that begins the text is the longest one. -/
theorem isLongestWord_of_next? {w : Word} (h : (ofTerminals terminals).next? cs = some w) :
    IsLongestWord terminals cs (String.ofList w.chars) := by
  obtain ⟨hw, earlier, later, hmembers, hearlier⟩ := List.find?_eq_some_iff_append.1 h
  rw [List.isPrefixOf_iff_prefix] at hw
  have hmem : w ∈ (ofTerminals terminals).words := by
    rw [OrderedSet.mem_def, hmembers]
    exact List.mem_append_right _ List.mem_cons_self
  refine ⟨mem_words.1 hmem, by rwa [String.toList_ofList], fun b hb hpre => ?_⟩
  rw [← String.length_toList, ← String.length_toList, String.toList_ofList]
  obtain ⟨v, hvb, hv⟩ := hb.exists_mem
  rw [← hvb] at hpre ⊢
  rw [OrderedSet.mem_def, hmembers, List.mem_append, List.mem_cons] at hv
  rcases hv with hv | rfl | hv
  · -- an earlier word does not begin the text
    have := hearlier v hv
    simp [List.isPrefixOf_iff_prefix.2 hpre] at this
  · exact Nat.le_refl _
  · have hascending := (ofTerminals terminals).words.ascending
    rw [hmembers, List.pairwise_append, List.pairwise_cons] at hascending
    exact length_le_of_byteLength_le hpre hw (Word.byteLength_le_of_lt (hascending.2.1.1 v hv))

/-- No word is found exactly where none begins the text. -/
theorem next?_eq_none_iff :
    (ofTerminals terminals).next? cs = none ↔ ∀ a, IsWord terminals a → ¬ a.toList <+: cs := by
  rw [next?, List.find?_eq_none]
  constructor
  · intro h a ha hpre
    obtain ⟨w, hwa, hw⟩ := ha.exists_mem
    exact h w hw (by rwa [hwa, List.isPrefixOf_iff_prefix])
  · intro h w hw hpre
    refine h _ (mem_words.1 hw) ?_
    rwa [String.toList_ofList, ← List.isPrefixOf_iff_prefix]

/-- The longest word is the one that is found. -/
theorem IsLongestWord.exists_next? (h : IsLongestWord terminals cs a) :
    ∃ w, (ofTerminals terminals).next? cs = some w ∧ w.chars = a.toList := by
  cases hnext : (ofTerminals terminals).next? cs with
  | none => exact absurd h.begins (next?_eq_none_iff.1 hnext a h.isWord)
  | some w =>
    refine ⟨w, rfl, ?_⟩
    rw [← (isLongestWord_of_next? hnext).eq h, String.toList_ofList]

/-! ## What the text is cut into -/

/-- `rest` is the text without the blanks in front. -/
def SkipsTo (cs rest : List Char) : Prop :=
  ∃ blanks, cs = blanks ++ rest ∧ (∀ c ∈ blanks, isBlank c = true) ∧
    ∀ c ∈ rest.head?, isBlank c = false

/-- There is one way to skip blanks, which is the one that is taken. -/
theorem SkipsTo.trimStart_eq (h : SkipsTo cs rest) : trimStart cs = rest := by
  obtain ⟨blanks, rfl, hblanks, hrest⟩ := h
  rw [trimStart_append_of_blank hblanks, trimStart_eq_self hrest]

/-- Trimming skips the blanks in front. -/
theorem skipsTo_trimStart (cs : List Char) : SkipsTo cs (trimStart cs) := by
  refine ⟨cs.takeWhile isBlank, List.takeWhile_append_dropWhile.symm,
    List.all_eq_true.1 List.all_takeWhile, fun c hc => ?_⟩
  have h := List.head?_dropWhile_not isBlank cs
  rwa [← trimStart, Option.mem_def.1 hc] at h

/-- What stands behind the blanks is the end of the text. -/
theorem SkipsTo.suffix (h : SkipsTo cs rest) : rest <:+ cs := by
  obtain ⟨blanks, rfl, -⟩ := h
  exact List.suffix_append _ _

/-- Some longest words are cut off the text one after the other, each behind the blanks in front of
it, and `rest` is left. -/
inductive Munches (terminals : List String) : List Char → List String → List Char → Prop
  | nil (cs : List Char) : Munches terminals cs [] cs
  | cons {cs rest rest' : List Char} {a : String} {ts : List String}
      (hskip : SkipsTo cs (a.toList ++ rest)) (ha : IsLongestWord terminals (a.toList ++ rest) a)
      (h : Munches terminals rest ts rest') : Munches terminals cs (a :: ts) rest'

/-- What is left behind some words is the end of the text. -/
theorem Munches.suffix (h : Munches terminals cs ts rest) : rest <:+ cs := by
  induction h with
  | nil cs => exact List.suffix_refl cs
  | @cons _ rest _ a _ hskip _ _ ih =>
    exact (ih.trans (List.suffix_append a.toList rest)).trans hskip.suffix

/-- Each word takes a character at least. -/
theorem Munches.length_le (h : Munches terminals cs ts rest) : ts.length ≤ cs.length := by
  induction h with
  | nil => exact Nat.zero_le _
  | cons hskip ha _ ih =>
    have hlength := hskip.suffix.length_le
    have hpos := List.length_pos_iff.2 ha.isWord.ne_nil
    rw [List.length_append] at hlength
    rw [List.length_cons]
    omega

/-- Behind the blanks in front of it the text does not end, and no word begins what is there. -/
structure Stuck (terminals : List String) (cs rest : List Char) : Prop where
  skipsTo : SkipsTo cs rest
  ne_nil : rest ≠ []
  not_begins : ∀ a, IsWord terminals a → ¬ a.toList <+: rest

/-- The cutting comes to an end, where only blanks are left or no word begins the text. -/
theorem exists_munches (terminals : List String) (cs : List Char) :
    ∃ ts rest, Munches terminals cs ts rest ∧
      (SkipsTo rest [] ∨ ∃ behind, Stuck terminals rest behind) := by
  induction hn : cs.length using Nat.strongRecOn generalizing cs with
  | ind n ih =>
    have hskip := skipsTo_trimStart cs
    by_cases hnil : trimStart cs = []
    · exact ⟨[], cs, .nil cs, .inl (hnil ▸ hskip)⟩
    cases hnext : (ofTerminals terminals).next? (trimStart cs) with
    | none => exact ⟨[], cs, .nil cs, .inr ⟨_, hskip, hnil, next?_eq_none_iff.1 hnext⟩⟩
    | some w =>
      have hw := isLongestWord_of_next? hnext
      obtain ⟨rest, hrest⟩ := hw.begins
      rw [← hrest] at hskip hw
      have hlt : rest.length < n := by
        have hlength := hskip.suffix.length_le
        have hpos := List.length_pos_iff.2 hw.isWord.ne_nil
        rw [List.length_append] at hlength
        omega
      obtain ⟨ts, rest', h, hend⟩ := ih rest.length hlt rest rfl
      exact ⟨_, rest', .cons hskip hw h, hend⟩

/-! ## What the tokenizer answers -/

/-- Where only blanks are left, the cutting ends. -/
theorem cut_of_skipsTo_nil (t : Tokenizer) (h : SkipsTo cs []) (fuel offset : ℕ) :
    t.cut (fuel + 1) offset cs = .ok [] := by
  rw [cut, h.trimStart_eq]

/-- Where no word begins the text, the cutting fails there. -/
theorem cut_of_stuck (h : Stuck terminals cs rest) (fuel offset : ℕ) :
    (ofTerminals terminals).cut (fuel + 1) offset cs =
      .error ⟨String.ofList (firstWord rest), offset + (byteLength cs - byteLength rest)⟩ := by
  obtain ⟨hskip, hne, hnone⟩ := h
  obtain ⟨c, rest, rfl⟩ := List.exists_cons_of_ne_nil hne
  rw [cut, hskip.trimStart_eq]
  simp only [next?_eq_none_iff.2 hnone]

/-- The longest word is cut off behind the blanks. -/
theorem cut_succ (hskip : SkipsTo cs (a.toList ++ rest))
    (ha : IsLongestWord terminals (a.toList ++ rest) a) (fuel offset : ℕ) :
    (ofTerminals terminals).cut (fuel + 1) offset cs =
      ((ofTerminals terminals).cut fuel (offset + (byteLength cs - byteLength rest)) rest).map
        (a :: ·) := by
  have hbytes : byteLength a.toList + byteLength rest ≤ byteLength cs := by
    rw [← byteLength_append]
    exact byteLength_le_of_suffix hskip.suffix
  have hoffset : offset + (byteLength cs - byteLength (a.toList ++ rest)) + byteLength a.toList =
      offset + (byteLength cs - byteLength rest) := by
    rw [byteLength_append]
    omega
  obtain ⟨w, hnext, hw⟩ := ha.exists_next?
  obtain ⟨c, tail, htail⟩ := List.exists_cons_of_ne_nil
    (List.append_ne_nil_of_left_ne_nil ha.isWord.ne_nil rest)
  rw [htail] at hnext
  rw [cut, hskip.trimStart_eq, htail]
  simp only [hnext]
  rw [← htail, hw, hoffset, List.drop_left, String.ofList_toList]

/-- While there is fuel for them, the tokenizer cuts off the longest words and goes on behind. -/
theorem Munches.cut_add (h : Munches terminals cs ts rest) (fuel offset : ℕ) :
    (ofTerminals terminals).cut (fuel + ts.length) offset cs =
      ((ofTerminals terminals).cut fuel (offset + (byteLength cs - byteLength rest)) rest).map
        (ts ++ ·) := by
  induction h generalizing offset with
  | nil cs =>
    rw [Nat.sub_self]
    cases (ofTerminals terminals).cut fuel offset cs <;> rfl
  | @cons cs rest rest' a ts hskip ha h ih =>
    have hrest := byteLength_le_of_suffix h.suffix
    have hcs := byteLength_le_of_suffix ((List.suffix_append a.toList rest).trans hskip.suffix)
    rw [List.length_cons, ← Nat.add_assoc, cut_succ hskip ha, ih, Nat.add_assoc,
      Nat.sub_add_sub_cancel hcs hrest]
    cases (ofTerminals terminals).cut fuel _ rest' <;> rfl

/-- A text with fewer characters than there is fuel leaves fuel behind the words. -/
theorem Munches.exists_cut_eq (h : Munches terminals cs ts rest) {fuel : ℕ}
    (hfuel : cs.length < fuel) (offset : ℕ) : ∃ more,
    (ofTerminals terminals).cut fuel offset cs = ((ofTerminals terminals).cut (more + 1)
      (offset + (byteLength cs - byteLength rest)) rest).map (ts ++ ·) := by
  have hlength := h.length_le
  obtain ⟨more, rfl⟩ : ∃ more, fuel = more + 1 + ts.length := ⟨fuel - 1 - ts.length, by omega⟩
  exact ⟨more, h.cut_add _ _⟩

/-- The answer to a text that is cut into words up to some blanks. -/
theorem Munches.cut_of_skipsTo_nil (h : Munches terminals cs ts rest) (hend : SkipsTo rest [])
    {fuel : ℕ} (hfuel : cs.length < fuel) (offset : ℕ) :
    (ofTerminals terminals).cut fuel offset cs = .ok ts := by
  obtain ⟨more, hcut⟩ := h.exists_cut_eq hfuel offset
  rw [hcut, Tokenizer.cut_of_skipsTo_nil _ hend]
  simp [Except.map]

/-- The answer to a text at which the cutting is stuck. -/
theorem Munches.cut_of_stuck {behind : List Char} (h : Munches terminals cs ts rest)
    (hend : Stuck terminals rest behind) {fuel : ℕ} (hfuel : cs.length < fuel) (offset : ℕ) :
    (ofTerminals terminals).cut fuel offset cs = .error
      ⟨String.ofList (firstWord behind), offset + (byteLength cs - byteLength behind)⟩ := by
  have hrest := byteLength_le_of_suffix hend.skipsTo.suffix
  have hcs := byteLength_le_of_suffix h.suffix
  obtain ⟨more, hcut⟩ := h.exists_cut_eq hfuel offset
  rw [hcut, Tokenizer.cut_of_stuck hend, Nat.add_assoc, Nat.sub_add_sub_cancel hcs hrest]
  rfl

/-- A text that is cut to its end is cut into the words that are taken. -/
theorem Munches.tokenize_eq_ok {text : String} (h : Munches terminals text.toList ts rest)
    (hend : SkipsTo rest []) : (ofTerminals terminals).tokenize text = .ok ts :=
  h.cut_of_skipsTo_nil hend (Nat.lt_succ_self _) 0

/-- A text at which the cutting gets stuck is refused at that place. -/
theorem Munches.tokenize_eq_error {text : String} {behind : List Char}
    (h : Munches terminals text.toList ts rest) (hend : Stuck terminals rest behind) :
    (ofTerminals terminals).tokenize text = .error
      ⟨String.ofList (firstWord behind), byteLength text.toList - byteLength behind⟩ := by
  rw [tokenize, h.cut_of_stuck hend (Nat.lt_succ_self _), Nat.zero_add]

/-! ## Maximal munch -/

/-- The error tells the bytes in front of the place at which the cutting is stuck, and what stands
there up to the next blank. -/
inductive Unrecognized (terminals : List String) (text : String) : TokenizeError → Prop
  | intro {ts : List String} {cs : List Char} {front fragment rest : String}
      (htext : text = front ++ (fragment ++ rest)) (h : Munches terminals text.toList ts cs)
      (hend : Stuck terminals cs (fragment ++ rest).toList)
      (hfragment : Unbroken fragment.toList) (hrest : Breaks rest.toList) :
      Unrecognized terminals text ⟨fragment, front.utf8ByteSize⟩

/-- A text is unrecognized at the place at which the cutting gets stuck. -/
theorem unrecognized_iff {text : String} {e : TokenizeError} :
    Unrecognized terminals text e ↔ ∃ ts cs behind, Munches terminals text.toList ts cs ∧
      Stuck terminals cs behind ∧
      e = ⟨String.ofList (firstWord behind), byteLength text.toList - byteLength behind⟩ := by
  constructor
  · rintro @⟨ts, cs, front, fragment, rest, htext, h, hend, hfragment, hrest⟩
    refine ⟨ts, cs, _, h, hend, ?_⟩
    rw [String.toList_append, firstWord_append hfragment hrest, String.ofList_toList,
      utf8ByteSize_eq_byteLength, htext, String.toList_append, String.toList_append,
      byteLength_append, Nat.add_sub_cancel]
  · rintro ⟨ts, cs, behind, h, hend, rfl⟩
    obtain ⟨front, hfront⟩ := hend.skipsTo.suffix.trans h.suffix
    obtain ⟨rest, hrest, hunbroken, hbreaks⟩ := exists_firstWord_append behind
    have hbehind : (String.ofList (firstWord behind) ++ String.ofList rest).toList = behind := by
      rw [String.toList_append, String.toList_ofList, String.toList_ofList, hrest]
    have htext : text = String.ofList front ++
        (String.ofList (firstWord behind) ++ String.ofList rest) := by
      rw [← String.toList_inj, String.toList_append, hbehind, String.toList_ofList, hfront]
    have hoffset : byteLength text.toList - byteLength behind =
        (String.ofList front).utf8ByteSize := by
      rw [← hfront, byteLength_append, Nat.add_sub_cancel, utf8ByteSize_eq_byteLength,
        String.toList_ofList]
    rw [hoffset]
    exact .intro htext h (by rwa [hbehind]) (by rwa [String.toList_ofList])
      (by rwa [String.toList_ofList])

/-- The tokenizer skips blanks and takes the longest word, as often as it can. It answers with the
words if only blanks are left, and else with the place where no word begins the text. More fuel
than it takes does not change the answer. -/
theorem tokenize_maximal_munch (terminals : List String) (text : String) :
    (∀ ts, (ofTerminals terminals).tokenize text = .ok ts ↔
      ∃ rest, Munches terminals text.toList ts rest ∧ SkipsTo rest []) ∧
    (∀ e, (ofTerminals terminals).tokenize text = .error e ↔ Unrecognized terminals text e) ∧
    ∀ more, (ofTerminals terminals).cut (text.toList.length + 1 + more) 0 text.toList =
      (ofTerminals terminals).tokenize text := by
  obtain ⟨ts, rest, h, hend⟩ := exists_munches terminals text.toList
  refine ⟨fun ts' => ⟨fun hts' => ?_, ?_⟩, fun e => ⟨fun he => ?_, ?_⟩, fun more => ?_⟩
  · rcases hend with hend | ⟨behind, hend⟩
    · have heq := (h.tokenize_eq_ok hend).symm.trans hts'
      exact ⟨rest, Except.ok.inj heq ▸ h, hend⟩
    · exact absurd ((h.tokenize_eq_error hend).symm.trans hts') (by simp)
  · rintro ⟨rest', h', hend'⟩
    exact h'.tokenize_eq_ok hend'
  · rcases hend with hend | ⟨behind, hend⟩
    · exact absurd ((h.tokenize_eq_ok hend).symm.trans he) (by simp)
    · have heq := (h.tokenize_eq_error hend).symm.trans he
      exact unrecognized_iff.2 ⟨ts, rest, behind, h, hend, (Except.error.inj heq).symm⟩
  · intro he
    obtain ⟨ts', cs, behind, h', hend', rfl⟩ := unrecognized_iff.1 he
    exact h'.tokenize_eq_error hend'
  · have hfuel : text.toList.length < text.toList.length + 1 + more := by omega
    rcases hend with hend | ⟨behind, hend⟩
    · rw [h.cut_of_skipsTo_nil hend hfuel, h.tokenize_eq_ok hend]
    · rw [h.cut_of_stuck hend hfuel, h.tokenize_eq_error hend, Nat.zero_add]

/-- A word may begin another one, and the offset counts bytes. -/
example : (ofTerminals ["=", "==", "é", "é="]).tokenize "=== é=é ß=" = .error ⟨"ß=", 10⟩ := by
  decide +kernel

end Tokenizer

end ShiftReduce
