import ShiftReduce.Text.Printable

/-!
# Quoted text

Messages quote the texts they speak of, so that a reader sees where a text begins and ends and
which characters it holds: `quoted "a\tb"` is `"a\tb"` with the tab written as two characters. A
quote and a backslash are escaped, a tab, a line end and a zero character have short forms, and a
character that does not show on its own is written by its code point.
-/

namespace ShiftReduce.Text

/-- How a quoted text writes one character. -/
def escape (c : Char) : List Char :=
  match c with
  | '"' => ['\\', '"']
  | '\\' => ['\\', '\\']
  | '\t' => ['\\', 't']
  | '\r' => ['\\', 'r']
  | '\n' => ['\\', 'n']
  | '\x00' => ['\\', '0']
  | c =>
    if isPrintable c then [c]
    else ['\\', 'u', '\x7b'] ++ Nat.toDigits 16 c.toNat ++ ['\x7d']

/-- The text between quotes, every character in its escaped form. -/
def quoted (s : String) : String :=
  String.ofList ('"' :: (s.toList.flatMap escape ++ ['"']))

/-- A list of quoted texts between brackets. -/
def quotedList (ss : List String) : String :=
  "[" ++ ", ".intercalate (ss.map quoted) ++ "]"

end ShiftReduce.Text
