import Mathlib.Data.List.Basic
import Mathlib.Data.Nat.Notation
import ShiftReduce.Proofs.Tokenizer.Munch

/-!
# Texts of words with blanks between them

The longest word that begins a text does not reach beyond a blank that stands behind a word
(`isLongestWord_append`). Words of the vocabulary that hold no blanks are therefore not taken apart,
nor run together, where they stand with blanks between them: a text that spaces some words is cut
into these words (`tokenize_of_spaced`), also if some begin others. So cutting a text finds the
words with which it was written (`tokenize_spelled`).
-/

namespace ShiftReduce

namespace Tokenizer

open Text

/-! ## Spaced words -/

/-- The text consists of the words with blanks between them, and blanks or nothing at both ends. -/
inductive Spaced : List String → List Char → Prop
  | nil {blanks : List Char} (hblanks : ∀ c ∈ blanks, isBlank c = true) : Spaced [] blanks
  | cons {blanks rest : List Char} {a : String} {ts : List String}
      (hblanks : ∀ c ∈ blanks, isBlank c = true) (hbreaks : Breaks rest) (h : Spaced ts rest) :
      Spaced (a :: ts) (blanks ++ (a.toList ++ rest))

/-- Another blank in front of the text. -/
theorem Spaced.blank {ts : List String} {cs : List Char} {c : Char} (h : Spaced ts cs)
    (hc : isBlank c = true) : Spaced ts (c :: cs) := by
  cases h with
  | nil hblanks => exact .nil (by simpa [hc] using hblanks)
  | @cons blanks _ _ _ hblanks hbreaks h =>
    have hmore : ∀ d ∈ c :: blanks, isBlank d = true := by simpa [hc] using hblanks
    exact Spaced.cons hmore hbreaks h

/-- Words that are joined by single spaces are spaced. -/
theorem spaced_intercalate (ts : List String) : Spaced ts (" ".intercalate ts).toList := by
  have hspace : isBlank ' ' = true := by decide
  rw [String.toList_intercalate]
  induction ts with
  | nil => exact .nil (by simp)
  | cons a ts ih =>
    have hnil : ∀ c ∈ ([] : List Char), isBlank c = true := by simp
    cases ts with
    | nil =>
      have h := Spaced.cons (a := a) hnil (by simp [Breaks]) (Spaced.nil hnil)
      simpa using h
    | cons b ts =>
      have hbreaks : Breaks (' ' :: [' '].intercalate ((b :: ts).map String.toList)) := by
        intro c hc
        obtain rfl : ' ' = c := by simpa using hc
        exact hspace
      have h := Spaced.cons (a := a) hnil hbreaks (ih.blank hspace)
      simpa [List.intercalate_cons_cons] using h

/-! ## Cutting a spaced text -/

variable {terminals ts : List String} {a : String} {cs rest : List Char}

/-- A word without blanks is not taken for a longer one if a blank or nothing stands behind it. -/
theorem isLongestWord_append
    (hterminals : ∀ a, IsWord terminals a → Unbroken a.toList ∨ Breaks a.toList)
    (ha : IsWord terminals a) (h : Unbroken a.toList) (hrest : Breaks rest) :
    IsLongestWord terminals (a.toList ++ rest) a := by
  refine ⟨ha, List.prefix_append _ _, fun b hb hpre => ?_⟩
  rw [← String.length_toList, ← String.length_toList]
  exact length_le_of_prefix (hterminals b hb) h ha.ne_nil hrest hpre

/-- Words of the vocabulary that hold no blanks are what their spaced text is cut into. -/
theorem Spaced.exists_munches (h : Spaced ts cs)
    (hterminals : ∀ a, IsWord terminals a → Unbroken a.toList ∨ Breaks a.toList)
    (hts : ∀ a ∈ ts, IsWord terminals a ∧ Unbroken a.toList) :
    ∃ rest, Munches terminals cs ts rest ∧ SkipsTo rest [] := by
  induction h with
  | @nil blanks hblanks => exact ⟨blanks, .nil _, blanks, by simp, hblanks, by simp⟩
  | @cons blanks rest a ts hblanks hbreaks h ih =>
    obtain ⟨ha, hunbroken⟩ := hts a List.mem_cons_self
    obtain ⟨rest', hrest', hend⟩ := ih fun b hb => hts b (List.mem_cons_of_mem _ hb)
    have hskip : SkipsTo (blanks ++ (a.toList ++ rest)) (a.toList ++ rest) := by
      refine ⟨blanks, rfl, hblanks, fun c hc => hunbroken c ?_⟩
      rw [List.head?_append_of_ne_nil _ ha.ne_nil] at hc
      exact List.mem_of_mem_head? hc
    exact ⟨rest', .cons hskip (isLongestWord_append hterminals ha hunbroken hbreaks) hrest', hend⟩

/-- The end marker holds no blank. -/
theorem unbroken_endMarker : Unbroken endMarker.toList := by decide +kernel

/-- The tokenizer for a list of terminals cuts the spaced text of some terminals that hold no blanks
into these terminals. -/
theorem tokenize_of_spaced {terminals : List String} {text : String}
    (hterminals : ∀ a ∈ terminals, Unbroken a.toList ∨ Breaks a.toList)
    (hts : ∀ a ∈ ts, (a ∈ terminals ∨ a = endMarker) ∧ a.toList ≠ [] ∧ Unbroken a.toList)
    (h : Spaced ts text.toList) : (ofTerminals terminals).tokenize text = .ok ts := by
  have hwords : ∀ a, IsWord terminals a → Unbroken a.toList ∨ Breaks a.toList := by
    intro a ha
    rcases ha.mem with ha | rfl
    · exact hterminals a ha
    · exact .inl unbroken_endMarker
  have hunbroken : ∀ a ∈ ts, IsWord terminals a ∧ Unbroken a.toList := by
    intro a ha
    obtain ⟨hmem, hne, hunbroken⟩ := hts a ha
    exact ⟨⟨hmem, hne⟩, hunbroken⟩
  obtain ⟨rest, hmunches, hend⟩ := h.exists_munches hwords hunbroken
  exact hmunches.tokenize_eq_ok hend

/-! ## Writing words with gaps -/

/-- The words one after the other, each with its gap behind it, and `front` in front of all. -/
def spelled (front : String) : List (String × String) → String
  | [] => front
  | (word, gap) :: rest => front ++ (word ++ spelled gap rest)

/-- Only the last gap may be empty, so that neighbours are kept apart. -/
structure Apart (front : String) (words : List (String × String)) : Prop where
  front_blank : ∀ c ∈ front.toList, isBlank c = true
  gap_blank : ∀ w ∈ words, ∀ c ∈ w.2.toList, isBlank c = true
  gap_ne : ∀ w ∈ words.dropLast, w.2 ≠ ""

/-- The words behind the first one are kept apart. -/
theorem Apart.tail {front word gap : String} {rest : List (String × String)}
    (h : Apart front ((word, gap) :: rest)) : Apart gap rest where
  front_blank := h.gap_blank _ List.mem_cons_self
  gap_blank := fun w hw => h.gap_blank w (List.mem_cons_of_mem _ hw)
  gap_ne := by
    intro w hw
    cases rest with
    | nil => exact absurd hw List.not_mem_nil
    | cons _ _ => exact h.gap_ne w (List.mem_cons_of_mem _ hw)

/-- Behind a word the text ends or goes on with the word's gap. -/
theorem Apart.breaks {front word gap : String} {rest : List (String × String)}
    (h : Apart front ((word, gap) :: rest)) : Breaks (spelled gap rest).toList := by
  have hblank : ∀ c ∈ gap.toList, isBlank c = true := h.gap_blank _ List.mem_cons_self
  intro c hc
  cases rest with
  | nil => exact hblank c (List.mem_of_mem_head? hc)
  | cons next rest =>
    have hgap : gap.toList ≠ [] := by
      simpa using h.gap_ne (word, gap) List.mem_cons_self
    rw [spelled, String.toList_append, List.head?_append_of_ne_nil _ hgap] at hc
    exact hblank c (List.mem_of_mem_head? hc)

/-- Words that are kept apart are spaced in the text that they spell. -/
theorem Apart.spaced {front : String} {words : List (String × String)} (h : Apart front words) :
    Spaced (words.map Prod.fst) (spelled front words).toList := by
  induction words generalizing front with
  | nil => exact .nil h.front_blank
  | cons w words ih =>
    obtain ⟨word, gap⟩ := w
    have hspaced := Spaced.cons (a := word) h.front_blank h.breaks (ih h.tail)
    rwa [← String.toList_append, ← String.toList_append] at hspaced

/-- Terminals that are not empty and hold no blanks are found again in a text that writes them, and
end markers, with blanks between them, however the terminals begin or make up one another. -/
theorem tokenize_spelled {terminals : List String} {front : String} {words : List (String × String)}
    (hterminals : ∀ a ∈ terminals, a ≠ "" ∧ Unbroken a.toList)
    (hwords : ∀ w ∈ words, w.1 ∈ terminals ∨ w.1 = endMarker) (h : Apart front words) :
    (ofTerminals terminals).tokenize (spelled front words) = .ok (words.map Prod.fst) := by
  refine tokenize_of_spaced (fun a ha => .inl (hterminals a ha).2) (fun a ha => ?_) h.spaced
  obtain ⟨w, hw, rfl⟩ := List.mem_map.1 ha
  refine ⟨hwords w hw, ?_⟩
  rcases hwords w hw with hmem | hend
  · obtain ⟨hne, hunbroken⟩ := hterminals _ hmem
    exact ⟨by simpa using hne, hunbroken⟩
  · rw [hend]
    exact ⟨by decide +kernel, unbroken_endMarker⟩

/-- One terminal is made of two others, and one begins with the end marker. -/
theorem tokenize_spelled_nested :
    (ofTerminals ["a", "b", "ab", "$a"]).tokenize "\tab a\u2003\nb $ $a" =
      .ok ["ab", "a", "b", "$", "$a"] := by
  have hapart :
      Apart "\t" [("ab", " "), ("a", "\u2003\n"), ("b", " "), ("$", " "), ("$a", "")] := by
    constructor <;> simp [isBlank]
  have hterminals : ∀ a ∈ ["a", "b", "ab", "$a"], a ≠ "" ∧ Unbroken a.toList := by decide +kernel
  have h := tokenize_spelled hterminals (by decide +kernel) hapart
  have htext : spelled "\t" [("ab", " "), ("a", "\u2003\n"), ("b", " "), ("$", " "), ("$a", "")] =
      "\tab a\u2003\nb $ $a" := by decide +kernel
  rwa [htext] at h

end Tokenizer

end ShiftReduce
