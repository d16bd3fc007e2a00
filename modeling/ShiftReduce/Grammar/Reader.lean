import ShiftReduce.Grammar.Basic
import ShiftReduce.Text.Blank
import ShiftReduce.Text.Capital
import ShiftReduce.Text.Line
import ShiftReduce.Text.Quoted

/-!
# Reading grammars

A grammar is written one production a line: `Sum -> Sum + Factor`. A line is cut at its first
arrow and both halves are cut into symbols. A symbol is a maximal run of characters that are not
blank, or a single blank other than space, tab, carriage return and form feed; it is a
nonterminal exactly if it begins with a capital letter. The left half has to be one nonterminal,
and every nonterminal has to stand on the left of some line. Symbols are numbered by their first
appearance.

`Grammar.read` reports the first malformed line before anything else.
-/

namespace ShiftReduce

/-- Why a text is no grammar. -/
inductive GrammarError where
  /-- A line, counted from 1, is no production. -/
  | malformed (line : Nat) (text : String)
  /-- No line holds a production. -/
  | empty
  /-- No production defines the nonterminal. -/
  | undefined (name : String)
deriving DecidableEq, Repr

namespace GrammarError

/-- The error in words. -/
def message : GrammarError → String
  | malformed line text =>
    "malformed production on line " ++ line.repr ++ ": " ++ Text.quoted text
  | empty => "grammar has no productions"
  | undefined name => "nonterminal " ++ Text.quoted name ++ " has no productions"

end GrammarError

namespace Grammar

open Text

/-! ## Symbols of a line -/

/-- A blank that only parts symbols and is none itself. -/
def isGap (c : Char) : Bool := c == ' ' || c == '\t' || c == '\r' || c == '\x0c'

/-- The word read so far, last character first, in front of the symbols that follow it. -/
def closeWord (word : List Char) (symbols : List String) : List String :=
  if word.isEmpty then symbols else String.ofList word.reverse :: symbols

/-- The symbols of the rest of a half line when `word` has been read so far. -/
def symbolsFrom (word : List Char) : List Char → List String
  | [] => closeWord word []
  | c :: rest =>
    if !isBlank c then symbolsFrom (c :: word) rest
    else if isGap c then closeWord word (symbolsFrom [] rest)
    else closeWord word (String.ofList [c] :: symbolsFrom [] rest)

/-- The symbols of a half line. -/
def symbolsOf (half : List Char) : List String := symbolsFrom [] half

/-- A symbol is a nonterminal exactly if it begins with a capital letter. -/
def isNonterminal (symbol : String) : Bool := symbol.toList.head?.any isCapital

/-- The text before and after the first arrow. -/
def splitArrow : List Char → Option (List Char × List Char)
  | [] => none
  | c :: rest =>
    if c = '-' ∧ rest.head? = some '>' then some ([], rest.tail)
    else (splitArrow rest).map fun (left, right) => (c :: left, right)

/-- A production by the names of its symbols. -/
structure NamedRule where
  lhs : String
  rhs : List String
deriving DecidableEq, Repr

/-- The production that a line holds, if it holds one. -/
def readLine (line : List Char) : Option NamedRule := do
  let (left, right) ← splitArrow line
  match symbolsOf left with
  | [lhs] => if isNonterminal lhs then some ⟨lhs, symbolsOf right⟩ else none
  | _ => none

/-! ## Whole texts -/

/-- The productions of the lines, the first of which has the number `line`. -/
def readLines (line : Nat) : List (List Char) → Except GrammarError (List NamedRule)
  | [] => .ok []
  | cs :: rest =>
    if cs.all isBlank then readLines (line + 1) rest
    else
      match readLine cs with
      | none => .error (.malformed line (String.ofList (trim cs)))
      | some rule => (readLines (line + 1) rest).map (rule :: ·)

/-- All symbols of the productions, in the order in which they are written. -/
def writtenSymbols (rules : List NamedRule) : List String :=
  rules.flatMap fun r => r.lhs :: r.rhs

/-- The number of a symbol in the vocabulary of its kind. -/
def number (terminals nonterminals : Vocabulary) (symbol : String) : Symbol :=
  if isNonterminal symbol then .nonterminal (nonterminals.idx symbol)
  else .terminal (terminals.idx symbol)

/-- The grammar of a list of productions, symbols numbered by their first appearance. -/
def ofRules (rules : List NamedRule) : Except GrammarError Grammar :=
  let written := writtenSymbols rules
  let terminals := Vocabulary.ofList (written.filter (!isNonterminal ·))
  let nonterminals := Vocabulary.ofList (written.filter isNonterminal)
  let productions := rules.map fun r =>
    { lhs := nonterminals.idx r.lhs, rhs := r.rhs.map (number terminals nonterminals) : Production }
  if h : productions = [] then .error .empty
  else
    match nonterminals.names.find? fun n => !(rules.map (·.lhs)).contains n with
    | some name => .error (.undefined name)
    | none => .ok ⟨terminals, nonterminals, productions, h⟩

/-- The grammar that a text describes, or the first fault of the text. -/
def read (text : String) : Except GrammarError Grammar := do
  ofRules (← readLines 1 (lines text.toList))

/-! ## The lexical rule -/

/-- A character at which no arrow begins belongs to the left half. -/
theorem splitArrow_cons {c : Char} {rest : List Char} (h : ¬ (c = '-' ∧ rest.head? = some '>')) :
    splitArrow (c :: rest) = (splitArrow rest).map fun (left, right) => (c :: left, right) := by
  rw [splitArrow, if_neg h]

/-- Where there is an arrow, the halves and the arrow make up the line. -/
theorem eq_of_splitArrow {line left right : List Char} (h : splitArrow line = some (left, right)) :
    line = left ++ '-' :: '>' :: right := by
  induction line generalizing left right with
  | nil => simp [splitArrow] at h
  | cons c rest ih =>
    rw [splitArrow] at h
    split at h
    · rename_i hc
      obtain ⟨rfl, hr⟩ := hc
      cases rest with
      | nil => simp at hr
      | cons d rest =>
        simp only [List.head?_cons, Option.some.injEq] at hr
        simp only [List.tail_cons, Option.some.injEq, Prod.mk.injEq] at h
        simp [← h.1, ← h.2, hr]
    · obtain ⟨⟨l, r⟩, hlr, e⟩ := Option.map_eq_some_iff.1 h
      simp only [Prod.mk.injEq] at e
      simp [← e.1, ← e.2, ih hlr]

/-- A run of characters that are not blank is one symbol. -/
theorem symbolsFrom_append {word : List Char} (h : ∀ c ∈ word, isBlank c = false)
    (seen rest : List Char) :
    symbolsFrom seen (word ++ rest) = symbolsFrom (word.reverse ++ seen) rest := by
  induction word generalizing seen with
  | nil => rfl
  | cons c word ih =>
    have hc : isBlank c = false := h c (by simp)
    simp [symbolsFrom, hc, ih fun d hd => h d (by simp [hd])]

end Grammar

end ShiftReduce
