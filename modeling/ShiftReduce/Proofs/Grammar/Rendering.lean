import ShiftReduce.Proofs.Grammar.Reading

/-!
# Writing the productions of a grammar

A grammar that was read is written as text again by displaying its productions, one a line. What a
line held as symbols stays apart when single spaces part it (`Plain.lexes`), and no left-hand side
holds an arrow, as it was found in front of the first one (`Holds.notMem_arrow`). So each displayed
production is held by its line (`Writable.holds_text`), and the text is read as the same grammar,
with the same numbers (`Grammar.read_rendered`).
-/

namespace ShiftReduce

/-- The lines are the productions as text without a dot, the synthetic production left out. -/
structure Augmented.Rendered (g : Augmented) (ls : List String) : Prop where
  length_eq : ls.length + 1 = g.productions.length
  display?_eq : ∀ i < ls.length, g.display? (i + 1) none = ls[i]?

namespace Grammar

open Text

variable {half line left right cs : List Char} {symbols : List String} {a : String}
  {r : NamedRule} {rules : List NamedRule} {ls : List (List Char)} {g : Grammar} {p : Production}

/-! ## The symbols of lines -/

/-- A symbol that a line can hold: a word without blanks, or a blank that is neither a gap nor the
end of a line. -/
inductive Plain : String → Prop
  | word {a : String} (hne : a.toList ≠ []) (ha : Unbroken a.toList) : Plain a
  | blank {c : Char} (hc : isBlank c = true) (hgap : isGap c = false) (hline : c ≠ '\n') :
      Plain (String.ofList [c])

/-- What a half of a line is cut into can be written in a line. -/
theorem Lexes.plain (h : Lexes half symbols) (hline : '\n' ∉ half) : ∀ a ∈ symbols, Plain a := by
  induction h with
  | nil => exact fun _ ha => absurd ha List.not_mem_nil
  | gap _ _ ih => exact ih fun hmem => hline (List.mem_cons_of_mem _ hmem)
  | @blank c _ _ hc hgap _ ih =>
    have hne : c ≠ '\n' := fun heq => hline (heq ▸ List.mem_cons_self)
    exact List.forall_mem_cons.2
      ⟨.blank hc hgap hne, ih fun hmem => hline (List.mem_cons_of_mem _ hmem)⟩
  | word hne ha _ _ ih =>
    exact List.forall_mem_cons.2
      ⟨.word hne ha, ih fun hmem => hline (List.mem_append_right _ hmem)⟩

/-- Each symbol of a half line stands there in one piece. -/
theorem Lexes.inside (h : Lexes half symbols) : ∀ a ∈ symbols, a.toList <:+: half := by
  induction h with
  | nil => exact fun _ ha => absurd ha List.not_mem_nil
  | @gap c half _ _ _ ih => exact fun a ha => List.infix_cons (ih a ha)
  | @blank c half symbols _ _ _ ih =>
    refine List.forall_mem_cons.2 ⟨?_, fun a ha => List.infix_cons (ih a ha)⟩
    rw [String.toList_ofList]
    exact (List.prefix_append [c] half).isInfix
  | @word a half symbols _ _ _ _ ih =>
    refine List.forall_mem_cons.2 ⟨(List.prefix_append _ _).isInfix, fun b hb => ?_⟩
    exact (ih b hb).trans (List.suffix_append _ _).isInfix

/-- A plain symbol in front of a blank, or at the end, is found again. -/
theorem Plain.lexes (ha : Plain a) (hbreaks : Breaks half) (h : Lexes half symbols) :
    Lexes (a.toList ++ half) (a :: symbols) := by
  cases ha with
  | word hne ha => exact .word hne ha hbreaks h
  | blank hc hgap _ =>
    rw [String.toList_ofList]
    exact .blank hc hgap h

/-- Nothing in a plain symbol ends a line. -/
theorem Plain.ne_of_mem (ha : Plain a) {c : Char} (hc : c ∈ a.toList) : c ≠ '\n' ∧ c ≠ '\r' := by
  cases ha with
  | word _ ha =>
    have hunbroken : isBlank c = false := ha c hc
    constructor <;> rintro rfl <;> exact absurd hunbroken (by decide)
  | @blank d hd hgap hline =>
    rw [String.toList_ofList, List.mem_singleton] at hc
    subst hc
    refine ⟨hline, ?_⟩
    rintro rfl
    exact absurd hgap (by decide)

/-! ## Writing a production -/

/-- The production as it is displayed: the symbols of its right-hand side with a space in front of
each. -/
def text (r : NamedRule) : List Char :=
  r.lhs.toList ++ ' ' :: '-' :: '>' :: r.rhs.flatMap fun a => ' ' :: a.toList

/-- A production whose text can be read. -/
structure Writable (r : NamedRule) : Prop where
  isNonterminal_lhs : isNonterminal r.lhs = true
  arrow_notMem : ¬ ['-', '>'] <:+: r.lhs.toList
  plain : ∀ a ∈ r.lhs :: r.rhs, Plain a

/-- Before the first arrow there is none. -/
theorem FirstArrow.not_inside (h : FirstArrow line left right) : ¬ ['-', '>'] <:+: left := by
  rintro ⟨front, back, rfl⟩
  have hle := h.first front (back ++ '-' :: '>' :: right) (by rw [h.eq]; simp)
  simp only [List.length_append, List.length_cons, List.length_nil] at hle
  omega

/-- The production of a line can be written. -/
theorem Holds.writable (h : Holds line r) (hline : '\n' ∉ line) : Writable r := by
  obtain ⟨⟨harrow, hleft, hlhs⟩, hright⟩ := h
  obtain rfl := harrow.eq
  rw [List.mem_append, List.mem_cons, List.mem_cons, not_or, not_or, not_or] at hline
  refine ⟨hlhs, fun hinside => ?_, List.forall_mem_cons.2 ⟨?_, hright.plain hline.2.2.2⟩⟩
  · exact harrow.not_inside (hinside.trans (hleft.inside _ List.mem_cons_self))
  · exact hleft.plain hline.1 _ List.mem_cons_self

/-- The first arrow stands behind a text without one and the space that closes it. -/
theorem splitArrow_append_space (h : ¬ ['-', '>'] <:+: left) (right : List Char) :
    splitArrow (left ++ ' ' :: '-' :: '>' :: right) = some (left ++ [' '], right) := by
  induction left with
  | nil => rfl
  | cons c left ih =>
    have hrest : ¬ ['-', '>'] <:+: left := fun hinside => h (List.infix_cons hinside)
    have hc : ¬ (c = '-' ∧ (left ++ ' ' :: '-' :: '>' :: right).head? = some '>') := by
      rintro ⟨rfl, hhead⟩
      cases left with
      | nil => exact absurd hhead (by simp)
      | cons d left =>
        obtain rfl : d = '>' := by simpa using hhead
        exact h (List.prefix_append ['-', '>'] left).isInfix
    rw [List.cons_append, splitArrow_cons hc, ih hrest]
    rfl

/-- Plain symbols with a space in front of each are found again. -/
theorem lexes_flatMap (h : ∀ a ∈ symbols, Plain a) :
    Lexes (symbols.flatMap fun a => ' ' :: a.toList) symbols := by
  induction symbols with
  | nil => exact .nil
  | cons a symbols ih =>
    obtain ⟨ha, hsymbols⟩ := List.forall_mem_cons.1 h
    have hbreaks : Breaks (symbols.flatMap fun a => ' ' :: a.toList) := by
      cases symbols with
      | nil => exact fun _ hc => absurd hc (by simp)
      | cons b symbols =>
        intro c hc
        obtain rfl : ' ' = c := by simpa using hc
        decide
    rw [List.flatMap_cons, List.cons_append]
    exact .gap (by decide) (ha.lexes hbreaks (ih hsymbols))

/-- The written production holds the production. -/
theorem Writable.holds_text (h : Writable r) : Holds (text r) r := by
  obtain ⟨hlhs, hrhs⟩ := List.forall_mem_cons.1 h.plain
  have hspace : Breaks [' '] := by
    intro c hc
    obtain rfl := Option.some.inj hc
    decide
  have hleft : Lexes (r.lhs.toList ++ [' ']) [r.lhs] :=
    hlhs.lexes hspace (.gap (by decide) .nil)
  have harrow := splitArrow_eq_some_iff.1
    (splitArrow_append_space h.arrow_notMem (r.rhs.flatMap fun a => ' ' :: a.toList))
  exact ⟨⟨harrow, hleft, h.isNonterminal_lhs⟩, lexes_flatMap hrhs⟩

/-- No written production breaks its line. -/
theorem Writable.ne_of_mem_text (h : Writable r) {c : Char} (hc : c ∈ text r) :
    c ≠ '\n' ∧ c ≠ '\r' := by
  obtain ⟨hlhs, hrhs⟩ := List.forall_mem_cons.1 h.plain
  have hpunctuation : ∀ d ∈ [' ', '-', '>'], d ≠ '\n' ∧ d ≠ '\r' := by simp
  simp only [text, List.mem_append, List.mem_cons, List.mem_flatMap] at hc
  rcases hc with hc | rfl | rfl | rfl | ⟨a, ha, rfl | hc⟩
  · exact hlhs.ne_of_mem hc
  · exact hpunctuation _ (by simp)
  · exact hpunctuation _ (by simp)
  · exact hpunctuation _ (by simp)
  · exact hpunctuation _ (by simp)
  · exact (hrhs a ha).ne_of_mem hc

/-- The text of a production is one line. -/
theorem Writable.isLine (h : Writable r) :
    text r ≠ [] ∧ '\n' ∉ text r ∧ (text r).getLast? ≠ some '\r' := by
  refine ⟨by simp [text], fun hc => ?_, fun hc => ?_⟩
  · exact (h.ne_of_mem_text hc).1 rfl
  · exact (h.ne_of_mem_text (List.mem_of_getLast? hc)).2 rfl

/-! ## Writing a grammar -/

/-- The productions of lines can be written. -/
theorem Productions.writable (h : Productions ls rules) (hls : ∀ line ∈ ls, '\n' ∉ line) :
    ∀ r ∈ rules, Writable r := by
  induction h with
  | nil => exact fun _ hr => absurd hr List.not_mem_nil
  | blank _ _ ih => exact ih (List.forall_mem_cons.1 hls).2
  | rule hr _ ih =>
    obtain ⟨hline, hls⟩ := List.forall_mem_cons.1 hls
    exact List.forall_mem_cons.2 ⟨hr.writable hline, ih hls⟩

/-- Written productions, one a line, hold the productions. -/
theorem productions_text (h : ∀ r ∈ rules, Writable r) : Productions (rules.map text) rules := by
  induction rules with
  | nil => exact .nil
  | cons r rules ih =>
    obtain ⟨hr, hrules⟩ := List.forall_mem_cons.1 h
    exact .rule hr.holds_text (ih hrules)

/-- Without a dot the symbols are written with a space before each. -/
theorem toList_dotted_none (g : Augmented) (rhs : List Symbol) :
    (g.dotted rhs none).toList = (rhs.map g.name).flatMap fun a => ' ' :: a.toList := by
  induction rhs with
  | nil => rfl
  | cons s rhs ih =>
    have hnone : (none : Option ℕ) = some 0 → False := by simp
    rw [Augmented.dotted.eq_4 _ _ _ _ hnone, String.toList_append, String.toList_append,
      Option.map_none, ih]
    rfl

/-- A production of the grammar is displayed by its names. -/
theorem toList_displayProduction (hlhs : g.InRange (.nonterminal p.lhs))
    (hrhs : ∀ s ∈ p.rhs, g.InRange s) :
    (g.augment.displayProduction p none).toList = text (g.named p) := by
  have hnames : p.rhs.map g.augment.name = p.rhs.map g.name :=
    List.map_congr_left fun s hs => name_augment (hrhs s hs)
  rw [Augmented.displayProduction, String.toList_append, String.toList_append,
    toList_dotted_none, hnames, name_augment hlhs, List.append_assoc]
  rfl

/-- The displayed productions, one a line. -/
def display (g : Grammar) : List String := g.productions.map (g.augment.displayProduction · none)

/-- The lines of a grammar render its productions. -/
theorem rendered_display (g : Grammar) : g.augment.Rendered g.display where
  length_eq := by
    rw [productions_augment, display, List.length_map, List.length_cons]
  display?_eq := by
    intro i _
    rw [Augmented.display?, productions_augment, display, List.getElem?_cons_succ,
      List.getElem?_map]

/-- The lines of a grammar are its written productions. -/
theorem map_toList_display (hg : g.Indexed) :
    g.display.map String.toList = (g.productions.map g.named).map text := by
  rw [display, List.map_map, List.map_map]
  exact List.map_congr_left fun p hp =>
    toList_displayProduction (hg.lhs_lt p hp) (hg.rhs_inRange p hp)

/-- A grammar that was read displays productions that can be read; lines of these describe it. -/
theorem exists_writable {text : String} (h : read text = .ok g) : ∃ rules,
    (∀ r ∈ rules, Writable r) ∧ g.display.map String.toList = rules.map Grammar.text ∧
      ∀ ls, Productions ls rules → Describes ls (.ok g) := by
  obtain ⟨ls, hls, hdescribes⟩ := read_eq_iff.1 h
  cases hdescribes with
  | @grammar rules _ hrules hne hdefined hg =>
    refine ⟨rules, hrules.writable hls.newline_notMem, ?_, fun ls h => .grammar h hne hdefined hg⟩
    rw [map_toList_display hg.indexed, hg.productions]

/-- The productions of a grammar that was read, displayed one a line, are read as this grammar. The
last line may be left open. -/
theorem read_rendered {text : String} (h : read text = .ok g) : ∃ ls, g.augment.Rendered ls ∧
    read ("\n".intercalate ls) = .ok g ∧ read (String.join (ls.map (· ++ "\n"))) = .ok g := by
  obtain ⟨rules, hwritable, hdisplay, hdescribes⟩ := exists_writable h
  have hread : ∀ {t : String}, Lined t.toList (g.display.map String.toList) → read t = .ok g := by
    intro t ht
    rw [hdisplay] at ht
    exact read_eq_iff.2 ⟨_, ht, hdescribes _ (productions_text hwritable)⟩
  have hlines : ∀ line ∈ g.display.map String.toList,
      line ≠ [] ∧ '\n' ∉ line ∧ line.getLast? ≠ some '\r' := by
    rw [hdisplay]
    exact List.forall_mem_map.2 fun r hr => (hwritable r hr).isLine
  refine ⟨g.display, rendered_display g, hread ?_, hread ?_⟩
  · rw [String.toList_intercalate]
    exact lined_intercalate hlines
  · have hjoin := lined_flatMap fun line hline => (hlines line hline).2
    rw [List.flatMap_map] at hjoin
    rw [String.toList_join, List.flatMap_map]
    simpa using hjoin

/-- A grammar whose symbols hold an arrow, end like the start of one, or are blanks. -/
def arrows : Grammar where
  terminals := ⟨["a->b", "-", "\u000b"], by decide⟩
  nonterminals := ⟨["S-", "A"], by decide⟩
  productions := [⟨0, [.terminal 0, .terminal 1, .nonterminal 1]⟩,
    ⟨1, [.terminal 2, .nonterminal 1]⟩, ⟨1, []⟩]
  productions_ne_nil := by decide

/-- The grammar with arrows inside its symbols is what its text is read as. -/
theorem read_arrows : read "S-->a->b - A\r\n\n A ->\u000bA\nA->" = .ok arrows := by decide +kernel

example : arrows.display = ["S- -> a->b - A", "A -> \u000b A", "A ->"] := by decide +kernel

/-- Its rendering is read as the same grammar, with and without a line feed at the end. -/
theorem read_rendered_arrows : read "S-->a->b - A\r\n\n A ->\u000bA\nA->" = .ok arrows ∧
    ∃ ls, arrows.augment.Rendered ls ∧ read ("\n".intercalate ls) = .ok arrows ∧
      read (String.join (ls.map (· ++ "\n"))) = .ok arrows :=
  ⟨read_arrows, read_rendered read_arrows⟩

end Grammar

end ShiftReduce
