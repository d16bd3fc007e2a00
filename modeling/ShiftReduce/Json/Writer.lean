/-!
# Writing JSON

Arrays and objects are put together from the texts of their parts. The compact style writes no
blank; the indented style gives each part a line of its own, two spaces deeper than the brackets
that hold it, and writes empty arrays and objects without a line break.
-/

namespace ShiftReduce

namespace Json

/-- How arrays and objects are laid out. -/
inductive Style where
  | compact
  | indented
deriving DecidableEq, Repr

/-- The line break and the spaces before a part at a level of nesting. -/
def Style.lineBreak (style : Style) (level : Nat) : List Char :=
  match style with
  | compact => []
  | indented => '\n' :: List.replicate (2 * level) ' '

/-- What stands between a key and its value. -/
def Style.colon : Style → List Char
  | compact => [':']
  | indented => [':', ' ']

/-- How a string writes one character. -/
def escape (c : Char) : List Char :=
  match c with
  | '"' => ['\\', '"']
  | '\\' => ['\\', '\\']
  | '\x08' => ['\\', 'b']
  | '\x0c' => ['\\', 'f']
  | '\n' => ['\\', 'n']
  | '\r' => ['\\', 'r']
  | '\t' => ['\\', 't']
  | c =>
    if c.toNat < 0x20 then
      ['\\', 'u', '0', '0', (c.toNat / 16).digitChar, (c.toNat % 16).digitChar]
    else [c]

/-- A string. -/
def string (s : String) : List Char := '"' :: (s.toList.flatMap escape ++ ['"'])

/-- A natural number. -/
def number (n : Nat) : List Char := Nat.toDigits 10 n

/-- The parts of an array or object, each behind a line break, parted by commas. -/
def parts (style : Style) (level : Nat) : List (List Char) → List Char
  | [] => []
  | [p] => style.lineBreak (level + 1) ++ p
  | p :: ps => style.lineBreak (level + 1) ++ p ++ ',' :: parts style level ps

/-- The parts between an opening and a closing bracket. -/
def bracketed (style : Style) (level : Nat) (opening closing : Char) (ps : List (List Char)) :
    List Char :=
  match ps with
  | [] => [opening, closing]
  | _ => opening :: (parts style level ps ++ style.lineBreak level ++ [closing])

/-- An array of values that have been written at the next level. -/
def array (style : Style) (level : Nat) (values : List (List Char)) : List Char :=
  bracketed style level '[' ']' values

/-- A key with a value that has been written at the next level. -/
def field (style : Style) (key : String) (value : List Char) : List Char :=
  string key ++ style.colon ++ value

/-- An object of keys with values that have been written at the next level. -/
def object (style : Style) (level : Nat) (fields : List (String × List Char)) : List Char :=
  bracketed style level '\x7b' '\x7d' (fields.map fun (k, v) => field style k v)

end Json

end ShiftReduce
