import ShiftReduce.Proofs.Grammar.Naming
import ShiftReduce.Proofs.Text.Lines

/-!
# What a text says as a grammar

How a grammar is written is said in three steps, none of which runs the reader: the symbols that a
half line is made of (`Lexes`), the production that a line holds (`Holds`), and the grammar, or the
first fault, of a list of lines (`Describes`). Reading a text finds what its lines say
(`Grammar.read_eq_iff`), so every text says just one thing.
-/

namespace ShiftReduce

namespace Grammar

open Text

variable {half line left right word : List Char} {symbols : List String} {r : NamedRule}
  {rules : List NamedRule} {ls : List (List Char)}

/-! ## The symbols of a half line -/

/-- The half line is made of the symbols: words that reach up to a blank or to the end, and blanks
that are no gaps, each on its own. Gaps may stand anywhere else. -/
inductive Lexes : List Char → List String → Prop
  | nil : Lexes [] []
  | gap {c : Char} {half : List Char} {symbols : List String} (hc : isGap c = true)
      (h : Lexes half symbols) : Lexes (c :: half) symbols
  | blank {c : Char} {half : List Char} {symbols : List String} (hc : isBlank c = true)
      (hgap : isGap c = false) (h : Lexes half symbols) :
      Lexes (c :: half) (String.ofList [c] :: symbols)
  | word {a : String} {half : List Char} {symbols : List String} (hne : a.toList ≠ [])
      (ha : Unbroken a.toList) (hbreaks : Breaks half) (h : Lexes half symbols) :
      Lexes (a.toList ++ half) (a :: symbols)

/-- The characters that separate symbols are blanks. -/
theorem isBlank_of_isGap {c : Char} (h : isGap c = true) : isBlank c = true := by
  simp only [isGap, Bool.or_eq_true, beq_iff_eq] at h
  rcases h with ((rfl | rfl) | rfl) | rfl <;> decide

/-- A blank closes the word before it. -/
theorem symbolsFrom_of_isBlank {c : Char} (hc : isBlank c = true) (word half : List Char) :
    symbolsFrom word (c :: half) =
      closeWord word (if isGap c then symbolsOf half else String.ofList [c] :: symbolsOf half) := by
  rw [symbolsFrom, if_neg (by simpa using hc)]
  split <;> rfl

/-- A word that has been read so far stands in front of what is left. -/
theorem lexes_closeWord (hword : Unbroken word) (hbreaks : Breaks half) (h : Lexes half symbols) :
    Lexes (word.reverse ++ half) (closeWord word symbols) := by
  cases word with
  | nil => exact h
  | cons c word =>
    have hunbroken : Unbroken (String.ofList (c :: word).reverse).toList := by
      rw [String.toList_ofList]
      exact fun d hd => hword d (List.mem_reverse.1 hd)
    have hlexes := Lexes.word (by simp) hunbroken hbreaks h
    rwa [String.toList_ofList] at hlexes

/-- What has been read of a word and what follows is cut into symbols as `Lexes` says. -/
theorem lexes_symbolsFrom (hword : Unbroken word) (half : List Char) :
    Lexes (word.reverse ++ half) (symbolsFrom word half) := by
  have hnil : Unbroken [] := fun _ hd => absurd hd List.not_mem_nil
  induction half generalizing word with
  | nil => exact lexes_closeWord hword (fun _ hd => absurd hd (by simp)) .nil
  | cons c half ih =>
    have hrest : Lexes half (symbolsOf half) := ih hnil
    by_cases hc : isBlank c = true
    · have hbreaks : Breaks (c :: half) := by
        intro d hd
        obtain rfl := Option.some.inj hd
        exact hc
      rw [symbolsFrom_of_isBlank hc]
      by_cases hgap : isGap c = true
      · rw [if_pos hgap]
        exact lexes_closeWord hword hbreaks (.gap hgap hrest)
      · rw [if_neg hgap]
        exact lexes_closeWord hword hbreaks (.blank hc (by simpa using hgap) hrest)
    · have hc' : isBlank c = false := by simpa using hc
      have hmore : Unbroken (c :: word) := by
        intro d hd
        rcases List.mem_cons.1 hd with rfl | hd
        · exact hc'
        · exact hword d hd
      have h := ih hmore
      rw [symbolsFrom, if_pos (by simpa using hc)]
      rwa [List.reverse_cons, List.append_assoc] at h

/-- A word is closed where a blank stands or the text ends. -/
theorem symbolsFrom_of_breaks (h : Breaks half) (word : List Char) :
    symbolsFrom word half = closeWord word (symbolsOf half) := by
  cases half with
  | nil => rfl
  | cons c half =>
    have hc : isBlank c = true := h c rfl
    rw [symbolsOf, symbolsFrom_of_isBlank hc, symbolsFrom_of_isBlank hc]
    rfl

/-- There is one way to cut a text into symbols, which is the one that is taken. -/
theorem Lexes.symbolsOf_eq (h : Lexes half symbols) : symbolsOf half = symbols := by
  induction h with
  | nil => rfl
  | gap hc _ ih =>
    rw [symbolsOf, symbolsFrom_of_isBlank (isBlank_of_isGap hc), if_pos hc]
    exact ih
  | blank hc hgap _ ih =>
    rw [symbolsOf, symbolsFrom_of_isBlank hc, if_neg (by simpa using hgap), ih]
    rfl
  | word hne ha hbreaks _ ih =>
    rw [symbolsOf, symbolsFrom_append ha, symbolsFrom_of_breaks hbreaks, ih, List.append_nil,
      closeWord, if_neg (by simpa using hne), List.reverse_reverse, String.ofList_toList]

/-- A half line is made of the symbols that are read off it, and of no others. -/
theorem symbolsOf_eq_iff : symbolsOf half = symbols ↔ Lexes half symbols := by
  refine ⟨?_, Lexes.symbolsOf_eq⟩
  rintro rfl
  exact lexes_symbolsFrom (fun _ hd => absurd hd List.not_mem_nil) half

/-! ## The production of a line -/

/-- The two halves stand before and behind the first arrow of the line. -/
structure FirstArrow (line left right : List Char) : Prop where
  eq : line = left ++ '-' :: '>' :: right
  first : ∀ left' right', line = left' ++ '-' :: '>' :: right' → left.length ≤ left'.length

/-- A line with an arrow is cut there or before. -/
theorem exists_splitArrow (left right : List Char) :
    ∃ left' right', splitArrow (left ++ '-' :: '>' :: right) = some (left', right') ∧
      left'.length ≤ left.length := by
  induction left with
  | nil => exact ⟨[], right, rfl, Nat.le_refl _⟩
  | cons c left ih =>
    obtain ⟨left', right', hsplit, hle⟩ := ih
    by_cases hc : c = '-' ∧ (left ++ '-' :: '>' :: right).head? = some '>'
    · refine ⟨[], (left ++ '-' :: '>' :: right).tail, ?_, Nat.zero_le _⟩
      rw [List.cons_append, splitArrow, if_pos hc]
    · refine ⟨c :: left', right', ?_, Nat.succ_le_succ hle⟩
      rw [List.cons_append, splitArrow_cons hc, hsplit]
      rfl

/-- A line is split at its first arrow. -/
theorem splitArrow_eq_some_iff :
    splitArrow line = some (left, right) ↔ FirstArrow line left right := by
  constructor
  · intro h
    refine ⟨eq_of_splitArrow h, ?_⟩
    rintro left' right' rfl
    obtain ⟨left₀, right₀, hsplit, hle⟩ := exists_splitArrow left' right'
    obtain ⟨rfl, -⟩ := Prod.mk.inj (Option.some.inj (h.symm.trans hsplit))
    exact hle
  · rintro ⟨rfl, hfirst⟩
    obtain ⟨left', right', hsplit, hle⟩ := exists_splitArrow left right
    have heq := eq_of_splitArrow hsplit
    have hlength : left.length = left'.length := Nat.le_antisymm (hfirst _ _ heq) hle
    obtain ⟨rfl, hrest⟩ := List.append_inj heq hlength
    rw [hsplit]
    simpa using hrest.symm

/-- Before the first arrow of the line there is one nonterminal, and behind it the right half. -/
inductive Heads : List Char → String → List Char → Prop
  | intro {line left right : List Char} {lhs : String} (harrow : FirstArrow line left right)
      (hleft : Lexes left [lhs]) (hlhs : isNonterminal lhs = true) : Heads line lhs right

/-- The line holds the production. -/
inductive Holds : List Char → NamedRule → Prop
  | intro {line right : List Char} {lhs : String} {rhs : List String} (hhead : Heads line lhs right)
      (hright : Lexes right rhs) : Holds line ⟨lhs, rhs⟩

/-- A line is read as the production that it holds. -/
theorem readLine_eq_some_iff : readLine line = some r ↔ Holds line r := by
  constructor
  · intro h
    rw [readLine] at h
    obtain ⟨⟨left, right⟩, hsplit, h⟩ := Option.bind_eq_some_iff.1 h
    dsimp only at h
    split at h
    · rename_i lhs hleft
      split at h
      · rename_i hlhs
        obtain rfl := Option.some.inj h
        exact ⟨⟨splitArrow_eq_some_iff.1 hsplit, symbolsOf_eq_iff.1 hleft, hlhs⟩,
          symbolsOf_eq_iff.1 rfl⟩
      · exact absurd h (by simp)
    · exact absurd h (by simp)
  · rintro ⟨⟨harrow, hleft, hlhs⟩, hright⟩
    simp only [readLine, splitArrow_eq_some_iff.2 harrow, Option.bind_eq_bind, Option.bind_some,
      hleft.symbolsOf_eq, hright.symbolsOf_eq, if_pos hlhs]

/-- A line without a head holds nothing. -/
theorem readLine_eq_none_iff : readLine line = none ↔ ∀ lhs right, ¬ Heads line lhs right := by
  constructor
  · intro h lhs right hhead
    have hholds : readLine line = some ⟨lhs, symbolsOf right⟩ :=
      readLine_eq_some_iff.2 ⟨hhead, symbolsOf_eq_iff.1 rfl⟩
    rw [h] at hholds
    exact absurd hholds (by simp)
  · intro h
    cases hread : readLine line with
    | none => rfl
    | some r =>
      obtain ⟨hhead, -⟩ := readLine_eq_some_iff.1 hread
      exact absurd hhead (h _ _)

/-- A line with a head is not blank. -/
theorem Heads.not_blank {lhs : String} (h : Heads line lhs right) :
    ¬ ∀ c ∈ line, isBlank c = true := by
  obtain ⟨⟨rfl, -⟩, -, -⟩ := h
  intro hblank
  have hdash := hblank '-' (by simp)
  exact absurd hdash (by decide)

/-! ## Lines of productions -/

/-- The lines that are not blank hold the productions, one each and in order. -/
inductive Productions : List (List Char) → List NamedRule → Prop
  | nil : Productions [] []
  | blank {line : List Char} {ls : List (List Char)} {rules : List NamedRule}
      (hline : ∀ c ∈ line, isBlank c = true) (h : Productions ls rules) :
      Productions (line :: ls) rules
  | rule {line : List Char} {r : NamedRule} {ls : List (List Char)} {rules : List NamedRule}
      (hr : Holds line r) (h : Productions ls rules) : Productions (line :: ls) (r :: rules)

/-- The left-hand sides of productions are nonterminals. -/
theorem Productions.isNonterminal_lhs (h : Productions ls rules) :
    ∀ r ∈ rules, isNonterminal r.lhs = true := by
  induction h with
  | nil => exact fun _ hr => absurd hr List.not_mem_nil
  | blank _ _ ih => exact ih
  | rule hr _ ih =>
    obtain ⟨⟨_, _, hlhs⟩, _⟩ := hr
    exact List.forall_mem_cons.2 ⟨hlhs, ih⟩

/-- Lines of productions are read, and reading goes on behind them. -/
theorem Productions.readLines_append (h : Productions ls rules) (n : ℕ)
    (after : List (List Char)) :
    readLines n (ls ++ after) = (readLines (n + ls.length) after).map (rules ++ ·) := by
  induction h generalizing n with
  | nil => cases hafter : readLines n after <;> simp [hafter, Except.map]
  | @blank line ls rules hline _ ih =>
    rw [List.cons_append, readLines, if_pos (List.all_eq_true.2 hline), ih, List.length_cons,
      Nat.add_right_comm, Nat.add_assoc]
  | @rule line r ls rules hr _ ih =>
    have hblank : ¬ line.all isBlank = true := by
      obtain ⟨hhead, -⟩ := hr
      rw [List.all_eq_true]
      exact hhead.not_blank
    rw [List.cons_append, readLines, if_neg hblank, readLine_eq_some_iff.2 hr]
    simp only [ih, List.length_cons, Nat.add_right_comm n 1, Nat.add_assoc]
    cases readLines (n + (ls.length + 1)) after <;> rfl

/-- Lines are read as the productions that they hold, wherever the count of lines begins. -/
theorem Productions.readLines_eq (h : Productions ls rules) (n : ℕ) :
    readLines n ls = .ok rules := by
  have happend := h.readLines_append n []
  rw [List.append_nil] at happend
  rw [happend]
  exact congrArg Except.ok (List.append_nil rules)

/-- The first line that is neither blank nor headed is reported. -/
theorem Productions.readLines_malformed (h : Productions ls rules) (n : ℕ)
    (after : List (List Char)) (hblank : ¬ ∀ c ∈ line, isBlank c = true)
    (hline : ∀ lhs right, ¬ Heads line lhs right) : readLines n (ls ++ line :: after) =
      .error (.malformed (n + ls.length) (String.ofList (trim line))) := by
  have hall : ¬ line.all isBlank = true := by
    rwa [List.all_eq_true]
  rw [h.readLines_append, readLines, if_neg hall, readLine_eq_none_iff.2 hline]
  rfl

/-- The lines hold productions, or one of them is the first that does not. -/
theorem exists_productions_or_malformed (ls : List (List Char)) :
    (∃ rules, Productions ls rules) ∨ ∃ before line after rules, ls = before ++ line :: after ∧
      Productions before rules ∧ (¬ ∀ c ∈ line, isBlank c = true) ∧
        ∀ lhs right, ¬ Heads line lhs right := by
  induction ls with
  | nil => exact .inl ⟨[], .nil⟩
  | cons line ls ih =>
    -- one more line that is blank or holds a production moves the fault one line down
    have hcons : ∀ {f : List NamedRule → List NamedRule},
        (∀ {ls rules}, Productions ls rules → Productions (line :: ls) (f rules)) →
        (∃ rules, Productions (line :: ls) rules) ∨ ∃ before line' after rules,
          line :: ls = before ++ line' :: after ∧ Productions before rules ∧
            (¬ ∀ c ∈ line', isBlank c = true) ∧ ∀ lhs right, ¬ Heads line' lhs right := by
      intro f hf
      rcases ih with ⟨rules, h⟩ | ⟨before, line', after, rules, hls, h, hfault⟩
      · exact .inl ⟨f rules, hf h⟩
      · exact .inr ⟨line :: before, line', after, f rules, by rw [hls, List.cons_append], hf h,
          hfault⟩
    by_cases hblank : ∀ c ∈ line, isBlank c = true
    · exact hcons (Productions.blank hblank)
    cases hread : readLine line with
    | some r => exact hcons (Productions.rule (readLine_eq_some_iff.1 hread))
    | none => exact .inr ⟨[], line, ls, [], rfl, .nil, hblank, readLine_eq_none_iff.1 hread⟩

/-! ## Texts -/

/-- What the lines say: the grammar that they hold, or their first fault. A line that is not blank
and has no head comes before everything else, then that there are no productions at all, and then a
nonterminal without productions. -/
inductive Describes (ls : List (List Char)) : Except GrammarError Grammar → Prop
  | malformed {before after : List (List Char)} {line : List Char} {rules : List NamedRule}
      {text : String} (hls : ls = before ++ line :: after) (hbefore : Productions before rules)
      (hblank : ¬ ∀ c ∈ line, isBlank c = true) (hline : ∀ lhs right, ¬ Heads line lhs right)
      (htext : Trims line text.toList) : Describes ls (.error (.malformed (before.length + 1) text))
  | empty (h : Productions ls []) : Describes ls (.error .empty)
  | undefined {rules : List NamedRule} {a : String} (h : Productions ls rules)
      (ha : FirstUndefined rules a) : Describes ls (.error (.undefined a))
  | grammar {rules : List NamedRule} {g : Grammar} (h : Productions ls rules) (hne : rules ≠ [])
      (hdefined : Defined rules) (hg : Numbers rules g) : Describes ls (.ok g)

/-- What is wrong with a line is found before a grammar is made. -/
theorem ofRules_ne_malformed (n : ℕ) (text : String) :
    ofRules rules ≠ .error (.malformed n text) := by
  intro h
  rw [ofRules] at h
  split at h
  · exact absurd h (by simp)
  · split at h <;> exact absurd h (by simp)

/-- Lines always say something. -/
theorem exists_describes (ls : List (List Char)) : ∃ result, Describes ls result := by
  rcases exists_productions_or_malformed ls with
    ⟨rules, h⟩ | ⟨before, line, after, rules, hls, hbefore, hblank, hline⟩
  · cases hrules : ofRules rules with
    | ok g =>
      obtain ⟨hne, hdefined, hg⟩ := (ofRules_eq_ok_iff h.isNonterminal_lhs).1 hrules
      exact ⟨_, .grammar h hne hdefined hg⟩
    | error e =>
      cases e with
      | malformed n text => exact absurd hrules (ofRules_ne_malformed n text)
      | empty => exact ⟨_, .empty (ofRules_eq_empty_iff.1 hrules ▸ h)⟩
      | undefined a => exact ⟨_, .undefined h (ofRules_eq_undefined_iff.1 hrules)⟩
  · have htext : Trims line (String.ofList (trim line)).toList := by
      rw [String.toList_ofList]
      exact trims_trim line
    exact ⟨_, .malformed hls hbefore hblank hline htext⟩

/-- A text whose lines hold productions is read as the grammar of these. -/
theorem Productions.read_eq {text : String} (hls : Lined text.toList ls)
    (h : Productions ls rules) : read text = ofRules rules := by
  rw [read, hls.lines_eq, h.readLines_eq]
  rfl

/-- A text is read as what its lines say. -/
theorem Describes.read_eq {text : String} {result : Except GrammarError Grammar}
    (hls : Lined text.toList ls) (h : Describes ls result) : read text = result := by
  cases h with
  | @malformed before after line rules shown heq hbefore hblank hline htext =>
    have hshown : shown = String.ofList (trim line) := by
      rw [htext.trim_eq, String.ofList_toList]
    rw [read, hls.lines_eq, heq, hbefore.readLines_malformed 1 after hblank hline, hshown,
      Nat.add_comm]
    rfl
  | empty h => rw [h.read_eq hls, ofRules_eq_empty_iff.2 rfl]
  | undefined h ha => rw [h.read_eq hls, ofRules_eq_undefined_iff.2 ha]
  | grammar h hne hdefined hg =>
    rw [h.read_eq hls, (ofRules_eq_ok_iff h.isNonterminal_lhs).2 ⟨hne, hdefined, hg⟩]

/-- Reading a text finds what its lines say, and nothing else. -/
theorem read_eq_iff {text : String} {result : Except GrammarError Grammar} :
    read text = result ↔ ∃ ls, Lined text.toList ls ∧ Describes ls result := by
  constructor
  · rintro rfl
    have hls : Lined text.toList (lines text.toList) := lines_eq_iff.1 rfl
    obtain ⟨result, hdescribes⟩ := exists_describes (lines text.toList)
    rw [hdescribes.read_eq hls]
    exact ⟨_, hls, hdescribes⟩
  · rintro ⟨ls, hls, hdescribes⟩
    exact hdescribes.read_eq hls

end Grammar

end ShiftReduce
