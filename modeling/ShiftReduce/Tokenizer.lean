import ShiftReduce.Grammar.Basic
import ShiftReduce.Ordered.Set
import ShiftReduce.Text.Blank
import ShiftReduce.Text.Quoted

/-!
# The tokenizer

A text is cut into the terminals of a vocabulary: blanks are skipped, and what follows is cut
after the first word of the vocabulary that begins it. The words are tried in the order of their
lengths, longer ones first. The end marker belongs to every vocabulary. Where no word begins the
text, the text up to the next blank is reported with its place, counted in bytes.

Every vocabulary has a tokenizer here. A pattern that is compiled from the words can also be refused
because it is too large, which depends on the memory that the compiler is allowed and not on what
the words are. That error is left out; what is said of a tokenizer presupposes that it was built.
-/

namespace ShiftReduce

/-- At `offset` no terminal begins the text; `fragment` reaches to the next blank. This is the error
of cutting a text; the one of a vocabulary that is too large to be compiled is left out. -/
structure TokenizeError where
  fragment : String
  offset : Nat
deriving DecidableEq, Repr

/-- The error in words. -/
def TokenizeError.message (e : TokenizeError) : String :=
  "unrecognized token " ++ Text.quoted e.fragment ++ " at offset " ++ e.offset.repr

open Text

/-- A word of a vocabulary, which is not empty. -/
@[ext] structure Word where
  chars : List Char
  ne_nil : chars ≠ []
deriving DecidableEq

namespace Word

/-- The word that a string spells; the empty string spells none. -/
def ofString? (s : String) : Option Word :=
  if h : s.toList ≠ [] then some ⟨s.toList, h⟩ else none

/-- The order of lengths, counted in bytes, with the longer word first. -/
def longerFirst (v w : Word) : Ordering := compare (byteLength w.chars) (byteLength v.chars)

instance : Std.TransCmp longerFirst :=
  @Std.TransCmp.opposite _ (compareOn fun v : Word => byteLength v.chars) inferInstance

/-- Longer words come first, and words of one length in the order of their characters. -/
instance : Ord Word := ⟨compareLex longerFirst (compareOn Word.chars)⟩

instance : Std.TransOrd Word :=
  inferInstanceAs (Std.TransCmp (compareLex longerFirst (compareOn Word.chars)))

instance : Std.LawfulEqOrd Word where
  eq_of_compare {v w} h := by
    have h : (longerFirst v w).then (compare v.chars w.chars) = .eq := h
    rw [Ordering.then_eq_eq] at h
    exact Word.ext (Std.LawfulEqOrd.eq_of_compare h.2)

end Word

/-- The words that a text may be cut into, in the order in which they are tried. -/
structure Tokenizer where
  words : OrderedSet Word
deriving DecidableEq

namespace Tokenizer

/-- The tokenizer for the terminals that are not empty, and the end marker. It does not fail, since
no bound on the size of the compiled words is modelled. -/
def ofTerminals (terminals : List String) : Tokenizer :=
  ⟨.ofList ((terminals ++ [endMarker]).filterMap Word.ofString?)⟩

/-- The first word that begins the text, which is what an alternation of the words finds there that
tries them from left to right. -/
def next? (t : Tokenizer) (cs : List Char) : Option Word :=
  t.words.members.find? (·.chars.isPrefixOf cs)

/-- The terminals of the rest of a text that begins at `offset`. Each step of `fuel` takes a
terminal. -/
def cut (t : Tokenizer) : Nat → Nat → List Char → Except TokenizeError (List String)
  | 0, _, _ => .ok []
  | fuel + 1, offset, cs =>
    match trimStart cs with
    | [] => .ok []
    | rest =>
      let offset := offset + (byteLength cs - byteLength rest)
      match t.next? rest with
      | none => .error ⟨String.ofList (firstWord rest), offset⟩
      | some word =>
        (cut t fuel (offset + byteLength word.chars) (rest.drop word.chars.length)).map
          (String.ofList word.chars :: ·)

/-- The terminals of a text. -/
def tokenize (t : Tokenizer) (text : String) : Except TokenizeError (List String) :=
  t.cut (text.toList.length + 1) 0 text.toList

end Tokenizer

end ShiftReduce
