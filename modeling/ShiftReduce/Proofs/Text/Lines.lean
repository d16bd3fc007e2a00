import ShiftReduce.Text.Blank
import ShiftReduce.Text.Line

/-!
# Lines and their margins

What it means to cut a text into lines and to trim a line is said without the functions that do it.
A line is closed by a line feed, or by a carriage return and a line feed, and the last one may be
left open (`Lined`). A line is trimmed to what is left without the blanks at its two ends (`Trims`).
The functions compute just these (`lines_eq_iff`, `trims_trim`).
-/

namespace ShiftReduce.Text

variable {cs line rest front trimmed back : List Char} {ls : List (List Char)}

/-! ## Lines -/

/-- The text consists of the lines. A line feed ends a line, together with one carriage return if
there is one in front of it. -/
inductive Lined : List Char → List (List Char) → Prop
  | nil : Lined [] []
  | last {line : List Char} (hne : line ≠ []) (hline : '\n' ∉ line) : Lined line [line]
  | feed {line rest : List Char} {ls : List (List Char)} (hline : '\n' ∉ line)
      (hreturn : line.getLast? ≠ some '\r') (h : Lined rest ls) :
      Lined (line ++ '\n' :: rest) (line :: ls)
  | returnFeed {line rest : List Char} {ls : List (List Char)} (hline : '\n' ∉ line)
      (h : Lined rest ls) : Lined (line ++ '\r' :: '\n' :: rest) (line :: ls)

/-- Characters up to the first line feed belong to the line that is being read. -/
theorem linesFrom_of_notMem (h : '\n' ∉ line) (seen : List Char) :
    linesFrom seen line = linesFrom (line.reverse ++ seen) [] := by
  induction line generalizing seen with
  | nil => rfl
  | cons c line ih =>
    have hc : c ≠ '\n' := fun heq => h (by simp [heq])
    calc linesFrom seen (c :: line)
        = linesFrom (c :: seen) line := by simp only [linesFrom, if_neg hc]
      _ = linesFrom (line.reverse ++ c :: seen) [] :=
        ih (fun hmem => h (List.mem_cons_of_mem _ hmem)) (c :: seen)
      _ = linesFrom ((c :: line).reverse ++ seen) [] := by
        rw [List.reverse_cons, List.append_assoc, List.singleton_append]

/-- What has been seen of a line belongs to the text. -/
theorem lined_linesFrom {seen : List Char} (hseen : '\n' ∉ seen) (cs : List Char) :
    Lined (seen.reverse ++ cs) (linesFrom seen cs) := by
  induction cs generalizing seen with
  | nil =>
    rw [linesFrom, List.append_nil]
    cases seen with
    | nil => exact .nil
    | cons c seen => exact .last (by simp) (by rwa [List.mem_reverse])
  | cons c cs ih =>
    rw [linesFrom]
    by_cases hc : c = '\n'
    · subst hc
      rw [if_pos rfl]
      have hrest : Lined cs (linesFrom [] cs) := ih (List.not_mem_nil : '\n' ∉ [])
      -- one carriage return in front of the line feed goes with it
      unfold closeLine
      split
      · rename_i line
        have hline : '\n' ∉ line.reverse := by
          rw [List.mem_reverse]
          exact fun hmem => hseen (List.mem_cons_of_mem _ hmem)
        rw [List.reverse_cons, List.append_assoc]
        exact .returnFeed hline hrest
      · rename_i hreturn
        refine .feed (by rwa [List.mem_reverse]) ?_ hrest
        rw [List.getLast?_reverse]
        intro hhead
        obtain ⟨line, rfl⟩ := List.head?_eq_some_iff.1 hhead
        exact hreturn line rfl
    · rw [if_neg hc]
      have hseen' : '\n' ∉ c :: seen := by
        rw [List.mem_cons, not_or]
        exact ⟨Ne.symm hc, hseen⟩
      have h := ih hseen'
      rwa [List.reverse_cons, List.append_assoc] at h

/-- There is one way to cut a text into lines, which is the one that is taken. -/
theorem Lined.lines_eq (h : Lined cs ls) : lines cs = ls := by
  induction h with
  | nil => rfl
  | last hne hline =>
    rw [lines, linesFrom_of_notMem hline, linesFrom, List.append_nil, List.reverse_reverse,
      if_neg (by simpa using hne)]
  | feed hline hreturn _ ih => rw [lines_append_newline hline hreturn, ih]
  | @returnFeed line rest ls hline _ ih =>
    have hline' : '\n' ∉ line ++ ['\r'] := by simpa using hline
    have hclose := linesFrom_append_newline hline' [] rest
    rw [List.append_nil, List.reverse_append, List.append_assoc] at hclose
    rw [lines]
    refine hclose.trans ?_
    show line.reverse.reverse :: lines rest = line :: ls
    rw [List.reverse_reverse, ih]

/-- A text has the lines that it is cut into, and no others. -/
theorem lines_eq_iff : lines cs = ls ↔ Lined cs ls := by
  refine ⟨?_, Lined.lines_eq⟩
  rintro rfl
  exact lined_linesFrom (List.not_mem_nil : '\n' ∉ []) cs

/-- No line holds a line feed. -/
theorem Lined.newline_notMem (h : Lined cs ls) : ∀ line ∈ ls, '\n' ∉ line := by
  induction h with
  | nil => exact fun _ hmem => absurd hmem List.not_mem_nil
  | last _ hline => exact List.forall_mem_singleton.2 hline
  | feed hline _ _ ih => exact List.forall_mem_cons.2 ⟨hline, ih⟩
  | returnFeed hline _ ih => exact List.forall_mem_cons.2 ⟨hline, ih⟩

/-- Lines that hold no line feed and do not end in a carriage return, with a line feed behind each,
are the lines of the text. -/
theorem lined_flatMap (h : ∀ line ∈ ls, '\n' ∉ line ∧ line.getLast? ≠ some '\r') :
    Lined (ls.flatMap (· ++ ['\n'])) ls := by
  induction ls with
  | nil => exact .nil
  | cons line ls ih =>
    obtain ⟨hline, hreturn⟩ := h line List.mem_cons_self
    rw [List.flatMap_cons, List.append_assoc]
    exact .feed hline hreturn (ih fun l hl => h l (List.mem_cons_of_mem _ hl))

/-- The last line feed may be left out behind a line that is not empty. -/
theorem lined_intercalate
    (h : ∀ line ∈ ls, line ≠ [] ∧ '\n' ∉ line ∧ line.getLast? ≠ some '\r') :
    Lined (['\n'].intercalate ls) ls := by
  induction ls with
  | nil => exact .nil
  | cons line ls ih =>
    obtain ⟨hne, hline, hreturn⟩ := h line List.mem_cons_self
    have hlater := ih fun l hl => h l (List.mem_cons_of_mem _ hl)
    cases ls with
    | nil =>
      rw [List.intercalate_singleton]
      exact .last hne hline
    | cons next ls =>
      rw [List.intercalate_cons_cons, List.append_assoc]
      exact .feed hline hreturn hlater

/-! ## Margins -/

/-- Between blanks at both ends there is the trimmed line, which neither begins nor ends with
one. -/
inductive Trims : List Char → List Char → Prop
  | intro {front trimmed back : List Char} (hfront : ∀ c ∈ front, isBlank c = true)
      (hback : ∀ c ∈ back, isBlank c = true) (hfirst : ∀ c ∈ trimmed.head?, isBlank c = false)
      (hlast : ∀ c ∈ trimmed.getLast?, isBlank c = false) :
      Trims (front ++ (trimmed ++ back)) trimmed

/-- What is trimmed off at the front is blank. -/
theorem exists_eq_append_trimStart (cs : List Char) :
    ∃ front, cs = front ++ trimStart cs ∧ ∀ c ∈ front, isBlank c = true :=
  ⟨cs.takeWhile isBlank, List.takeWhile_append_dropWhile.symm,
    List.all_eq_true.1 List.all_takeWhile⟩

/-- A text that is trimmed at the front does not begin with a blank. -/
theorem isBlank_head?_trimStart (cs : List Char) :
    ∀ c ∈ (trimStart cs).head?, isBlank c = false := by
  intro c hc
  have h := List.head?_dropWhile_not isBlank cs
  rwa [← trimStart, Option.mem_def.1 hc] at h

/-- Trimming takes off the blanks at both ends and no more. -/
theorem trims_trim (cs : List Char) : Trims cs (trim cs) := by
  obtain ⟨front, hcs, hfront⟩ := exists_eq_append_trimStart cs
  obtain ⟨back, hrest, hback⟩ := exists_eq_append_trimStart (trimStart cs).reverse
  have hsplit : trim cs ++ back.reverse = trimStart cs := by
    rw [trim, ← List.reverse_append, ← hrest, List.reverse_reverse]
  have hfirst : ∀ c ∈ (trim cs).head?, isBlank c = false := by
    intro c hc
    refine isBlank_head?_trimStart cs c ?_
    rw [← hsplit, List.head?_append, Option.mem_def.1 hc]
    rfl
  have hlast : ∀ c ∈ (trim cs).getLast?, isBlank c = false := by
    rw [trim, List.getLast?_reverse]
    exact isBlank_head?_trimStart _
  have hmargin : ∀ c ∈ back.reverse, isBlank c = true := by simpa using hback
  have htrims := Trims.intro hfront hmargin hfirst hlast
  rwa [hsplit, ← hcs] at htrims

/-- There is one way to trim a line, which is the one that is taken. -/
theorem Trims.trim_eq (h : Trims line trimmed) : trim line = trimmed := by
  obtain ⟨hfront, hback, hfirst, hlast⟩ := h
  rename_i front back
  unfold trim
  rw [trimStart_append_of_blank hfront]
  cases trimmed with
  | nil =>
    have hnil := trimStart_append_of_blank hback []
    rw [List.append_nil] at hnil
    rw [List.nil_append, hnil]
    rfl
  | cons c trimmed =>
    have hstart : trimStart (c :: trimmed ++ back) = c :: trimmed ++ back :=
      trimStart_eq_self hfirst
    rw [hstart, List.reverse_append, trimStart_append_of_blank (by simpa using hback),
      trimStart_eq_self, List.reverse_reverse]
    rwa [List.head?_reverse]

end ShiftReduce.Text
