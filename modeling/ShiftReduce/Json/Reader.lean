import ShiftReduce.Json.Binary64
import ShiftReduce.Text.Blank
import ShiftReduce.Text.Quoted

/-!
# Reading JSON

A text is read from left to right, and the first problem met is reported. There are three kinds:
the text ends too early, the text breaks the grammar of JSON, or it is well formed so far but holds
a value of another kind than expected. Only the last one has a message.

This module reads the parts: blanks, literals, numbers, strings, and values that are skipped
because nothing asks for them. A skipped value has to obey the grammar, but its numbers may be too
big and its escapes may be halves of surrogate pairs.
-/

namespace ShiftReduce

namespace Json

/-- Why a text cannot be read. -/
inductive Fault where
  /-- The text ends within a value. -/
  | truncated
  /-- The text breaks the grammar. -/
  | malformed
  /-- The text holds something else than expected. -/
  | mismatch (message : String)
deriving DecidableEq, Repr

/-- A reader takes a value from the front of a text and leaves the rest. -/
abbrev Reader (α : Type) := List Char → Except Fault (α × List Char)

/-- The reader of another value made from the value read. -/
def Reader.map {α β : Type} (f : α → β) (r : Reader α) : Reader β := fun cs =>
  (r cs).map fun (a, rest) => (f a, rest)

/-- A blank of the grammar: space, tab, line feed or carriage return. -/
def isSpace (c : Char) : Bool := c == ' ' || c == '\t' || c == '\n' || c == '\r'

/-- The text without its leading blanks. -/
def skipSpace (cs : List Char) : List Char := cs.dropWhile isSpace

/-- The text after the word that it has to begin with. -/
def literal : List Char → List Char → Except Fault (List Char)
  | [], cs => .ok cs
  | _ :: _, [] => .error .truncated
  | w :: word, c :: cs => if w = c then literal word cs else .error .malformed

/-! ## Numbers -/

/-- A number as the text writes it. -/
inductive Number where
  | natural (n : Nat)
  /-- The integer `-n`. -/
  | negative (n : Nat)
  /-- A number with a fraction or an exponent, or one too big for the other kinds. -/
  | binary (isNegative : Bool) (value : Binary64)
deriving DecidableEq, Repr

/-- The number in words. -/
def Number.describe : Number → String
  | natural n => "integer `" ++ n.repr ++ "`"
  | negative n => "integer `-" ++ n.repr ++ "`"
  | binary isNegative value =>
    "floating point `" ++ (if isNegative then "-" else "") ++ String.ofList value.text ++ "`"

/-- The digits that the text begins with. -/
def leadingDigits (cs : List Char) : List Char := cs.takeWhile Char.isDigit

/-- `significand` continued by as many digits as keep it below 2 ^ 64, and their number. -/
def accumulate (significand : Nat) : List Char → Nat × Nat
  | [] => (significand, 0)
  | c :: cs =>
    let next := significand * 10 + (c.toNat - '0'.toNat)
    if next < Nat.pow 2 64 then
      let (s, count) := accumulate next cs
      (s, count + 1)
    else (significand, 0)

/-- The number `significand · 10 ^ exponent`, unless it is too big. -/
def scaled (isNegative : Bool) (significand : Nat) (exponent : Int) (rest : List Char) :
    Except Fault (Number × List Char) :=
  match Binary64.ofDecimal significand exponent with
  | some value => .ok (.binary isNegative value, rest)
  | none => .error .malformed

/-- The greatest exponent that is read as a number; a greater one stands for no number, or zero. -/
def maxExponent : Nat := Nat.pow 2 31 - 1

/-- The sign of an exponent, negative if `true`, and the text after it. -/
def exponentSign : List Char → Bool × List Char
  | '+' :: cs => (false, cs)
  | '-' :: cs => (true, cs)
  | cs => (false, cs)

/-- The number with the exponent that the text begins with. -/
def readExponent (isNegative : Bool) (significand : Nat) (exponent : Int) (cs : List Char) :
    Except Fault (Number × List Char) :=
  let (down, cs) := exponentSign cs
  let digits := leadingDigits cs
  let rest := cs.drop digits.length
  if cs.isEmpty then .error .truncated
  else if digits.isEmpty then .error .malformed
  else
    let e := Nat.ofDigitChars 10 digits 0
    if maxExponent < e then
      if significand = 0 ∨ down then .ok (.binary isNegative ⟨0, Binary64.minExponent⟩, rest)
      else .error .malformed
    else scaled isNegative significand (if down then exponent - e else exponent + e) rest

/-- The number with the fraction that the text begins with, and its exponent if there is one.
Digits that do not fit into the significand are left out. -/
def readFraction (isNegative : Bool) (significand : Nat) (exponent : Int) (cs : List Char) :
    Except Fault (Number × List Char) :=
  let digits := leadingDigits cs
  if digits.isEmpty then .error (if cs.isEmpty then .truncated else .malformed)
  else
    let (significand, used) := accumulate significand digits
    match cs.drop digits.length with
    | 'e' :: rest => readExponent isNegative significand (exponent - used) rest
    | 'E' :: rest => readExponent isNegative significand (exponent - used) rest
    | rest => scaled isNegative significand (exponent - used) rest

/-- The number that the text begins with, after its sign. -/
def readNumber (isNegative : Bool) (cs : List Char) : Except Fault (Number × List Char) :=
  let digits := leadingDigits cs
  if digits.isEmpty then .error (if cs.isEmpty then .truncated else .malformed)
  else if digits.head? = some '0' ∧ 1 < digits.length then .error .malformed
  else
    let (significand, used) := accumulate 0 digits
    let left : Nat := digits.length - used
    match cs.drop digits.length with
    | '.' :: rest => readFraction isNegative significand left rest
    | 'e' :: rest => readExponent isNegative significand left rest
    | 'E' :: rest => readExponent isNegative significand left rest
    | rest =>
      if left ≠ 0 then scaled isNegative significand left rest
      else if !isNegative then .ok (.natural significand, rest)
      else if significand = 0 ∨ Nat.pow 2 63 < significand then scaled true significand 0 rest
      else .ok (.negative significand, rest)

/-! ## Strings -/

/-- The value of a hexadecimal digit. -/
def hexDigit? (c : Char) : Option Nat :=
  if c.isDigit then some (c.toNat - '0'.toNat)
  else if 'a' ≤ c ∧ c ≤ 'f' then some (c.toNat - 'a'.toNat + 10)
  else if 'A' ≤ c ∧ c ≤ 'F' then some (c.toNat - 'A'.toNat + 10)
  else none

/-- The number of the four hexadecimal digits that the text begins with. Four bytes have to be
there before they are looked at. -/
def hexNumber (cs : List Char) : Except Fault (Nat × List Char) :=
  match cs.take 4 |>.mapM hexDigit? with
  | some [a, b, c, d] => .ok (((a * 16 + b) * 16 + c) * 16 + d, cs.drop 4)
  | _ => .error (if Text.byteLength cs < 4 then .truncated else .malformed)

/-- The first half of a surrogate pair. -/
def isLeading (n : Nat) : Bool := 0xD800 ≤ n && n ≤ 0xDBFF

/-- The second half of a surrogate pair. -/
def isTrailing (n : Nat) : Bool := 0xDC00 ≤ n && n ≤ 0xDFFF

/-- The character of the hexadecimal escape that the text begins with. The first half of a
surrogate pair needs an escaped second half behind it, and a second half cannot stand alone. -/
def hexEscape (cs : List Char) : Except Fault (Char × List Char) := do
  let (n, cs) ← hexNumber cs
  if isTrailing n then .error .malformed
  else if !isLeading n then .ok (Char.ofNat n, cs)
  else
    let (m, cs) ← hexNumber (← literal ['\\', 'u'] cs)
    if isTrailing m then .ok (Char.ofNat ((n - 0xD800) * 0x400 + (m - 0xDC00) + 0x10000), cs)
    else .error .malformed

/-- The character that a letter stands for behind a backslash. -/
def shortEscape? : Char → Option Char
  | '"' => some '"'
  | '\\' => some '\\'
  | '/' => some '/'
  | 'b' => some '\x08'
  | 'f' => some '\x0c'
  | 'n' => some '\n'
  | 'r' => some '\r'
  | 't' => some '\t'
  | _ => none

/-- The character of the escape behind a backslash. -/
def readEscape : List Char → Except Fault (Char × List Char)
  | [] => .error .truncated
  | 'u' :: cs => hexEscape cs
  | c :: cs =>
    match shortEscape? c with
    | some d => .ok (d, cs)
    | none => .error .malformed

/-- The escape behind a backslash is left out, whatever number it has. -/
def skipEscape : List Char → Except Fault (Unit × List Char)
  | [] => .error .truncated
  | 'u' :: cs => (hexNumber cs).map fun (_, cs) => ((), cs)
  | c :: cs => if (shortEscape? c).isSome then .ok ((), cs) else .error .malformed

/-- The characters up to the closing quote, and the text after it; each step of `fuel` takes one
character. -/
def readChars : Nat → List Char → Except Fault (List Char × List Char)
  | 0, _ => .error .truncated
  | fuel + 1, cs =>
    match cs with
    | [] => .error .truncated
    | '"' :: rest => .ok ([], rest)
    | '\\' :: rest => do
      let (c, rest) ← readEscape rest
      let (s, rest) ← readChars fuel rest
      .ok (c :: s, rest)
    | c :: rest =>
      if c.toNat < 0x20 then .error .malformed
      else do
        let (s, rest) ← readChars fuel rest
        .ok (c :: s, rest)

/-- The string of which the opening quote has been read. -/
def readString (cs : List Char) : Except Fault (String × List Char) :=
  (readChars (cs.length + 1) cs).map fun (s, rest) => (String.ofList s, rest)

/-- The text after the closing quote; each step of `fuel` takes one character. -/
def skipChars : Nat → List Char → Except Fault (List Char)
  | 0, _ => .error .truncated
  | fuel + 1, cs =>
    match cs with
    | [] => .error .truncated
    | '"' :: rest => .ok rest
    | '\\' :: rest => do
      let ((), rest) ← skipEscape rest
      skipChars fuel rest
    | c :: rest => if c.toNat < 0x20 then .error .malformed else skipChars fuel rest

/-- The text after the string of which the opening quote has been read. -/
def skipString (cs : List Char) : Except Fault (List Char) := skipChars (cs.length + 1) cs

/-! ## Values of another kind than expected -/

/-- Something else than expected, in words. -/
def invalidType (found expected : String) : Fault :=
  .mismatch ("invalid type: " ++ found ++ ", expected " ++ expected)

/-- The fault of a text that begins with another value than expected. Literals, numbers and strings
have to be well formed to be named. -/
def unexpected (expected : String) (cs : List Char) : Fault :=
  let named (found : Except Fault String) : Fault :=
    match found with
    | .ok found => invalidType found expected
    | .error fault => fault
  match cs with
  | [] => .truncated
  | 'n' :: rest => named ((literal "ull".toList rest).map fun _ => "null")
  | 't' :: rest => named ((literal "rue".toList rest).map fun _ => "boolean `true`")
  | 'f' :: rest => named ((literal "alse".toList rest).map fun _ => "boolean `false`")
  | '"' :: rest => named ((readString rest).map fun (s, _) => "string " ++ Text.quoted s)
  | '[' :: _ => invalidType "sequence" expected
  | '\x7b' :: _ => invalidType "map" expected
  | '-' :: rest => named ((readNumber true rest).map fun (n, _) => n.describe)
  | c :: rest =>
    if c.isDigit then named ((readNumber false (c :: rest)).map fun (n, _) => n.describe)
    else .malformed

/-! ## Values that nothing asks for -/

/-- The text after the digits that it begins with, at least one. -/
def skipDigits (cs : List Char) : Except Fault (List Char) :=
  let digits := leadingDigits cs
  if digits.isEmpty then .error .malformed else .ok (cs.drop digits.length)

/-- The text after the exponent that it may begin with. -/
def skipExponent : List Char → Except Fault (List Char)
  | 'e' :: cs => skipDigits (exponentSign cs).2
  | 'E' :: cs => skipDigits (exponentSign cs).2
  | cs => .ok cs

/-- The text after the number that it begins with, after its sign. -/
def skipNumber (cs : List Char) : Except Fault (List Char) :=
  let digits := leadingDigits cs
  if digits.isEmpty ∨ (digits.head? = some '0' ∧ 1 < digits.length) then .error .malformed
  else
    match cs.drop digits.length with
    | '.' :: rest => do skipExponent (← skipDigits rest)
    | rest => skipExponent rest

/-- The kind of an open array or object. -/
inductive Bracket where
  | array
  | object
deriving DecidableEq, Repr

/-- Where reading goes on in open arrays and objects. -/
inductive Resume where
  /-- Before a value. -/
  | value (brackets : List Bracket)
  /-- Behind a value, or behind an opening bracket if `fresh`. -/
  | behind (fresh : Bool) (brackets : List Bracket)
  /-- Before a key. -/
  | key (brackets : List Bracket)

/-- The text after the value in the innermost bracket and all that is still open around it; each
step of `fuel` takes at least one character or leaves a bracket. -/
def skipFrom : Nat → Resume → List Char → Except Fault (List Char)
  | 0, _, _ => .error .truncated
  | fuel + 1, .value brackets, cs =>
    match skipSpace cs with
    | [] => .error .truncated
    | 'n' :: rest => do skipFrom fuel (.behind false brackets) (← literal "ull".toList rest)
    | 't' :: rest => do skipFrom fuel (.behind false brackets) (← literal "rue".toList rest)
    | 'f' :: rest => do skipFrom fuel (.behind false brackets) (← literal "alse".toList rest)
    | '"' :: rest => do skipFrom fuel (.behind false brackets) (← skipString rest)
    | '[' :: rest => skipFrom fuel (.behind true (.array :: brackets)) rest
    | '\x7b' :: rest => skipFrom fuel (.behind true (.object :: brackets)) rest
    | '-' :: rest => do skipFrom fuel (.behind false brackets) (← skipNumber rest)
    | c :: rest =>
      if c.isDigit then do skipFrom fuel (.behind false brackets) (← skipNumber (c :: rest))
      else .error .malformed
  | _ + 1, .behind _ [], cs => .ok cs
  | fuel + 1, .behind fresh (bracket :: brackets), cs =>
    let inside : Resume := if bracket = .array then .value (bracket :: brackets)
      else .key (bracket :: brackets)
    match skipSpace cs with
    | [] => .error .truncated
    | c :: rest =>
      if c = (if bracket = .array then ']' else '\x7d') then
        skipFrom fuel (.behind false brackets) rest
      else if fresh then skipFrom fuel inside (c :: rest)
      else if c = ',' then skipFrom fuel inside rest
      else .error .malformed
  | fuel + 1, .key brackets, cs =>
    match skipSpace cs with
    | [] => .error .truncated
    | '"' :: rest => do
      match skipSpace (← skipString rest) with
      | [] => .error .truncated
      | ':' :: rest => skipFrom fuel (.value brackets) rest
      | _ => .error .malformed
    | _ => .error .malformed

/-- The text after the value that it begins with. -/
def skipValue (cs : List Char) : Except Fault (List Char) :=
  skipFrom (3 * cs.length + 3) (.value []) cs

end Json

end ShiftReduce
