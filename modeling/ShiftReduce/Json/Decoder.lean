import ShiftReduce.Json.Reader
import ShiftReduce.Ordered.Map

/-!
# Reading JSON into types

A decoder reads a value of one type directly from the text. Arrays become lists, objects become
maps or records; a record may also be written as the array of its fields in order. Where an array
or object is nested too deep to be read, there is no decoder for what it holds (`none`) and it
counts as malformed.
-/

namespace ShiftReduce

namespace Json

/-! ## Simple values -/

/-- A string. -/
def text : Reader String := fun cs =>
  match skipSpace cs with
  | '"' :: rest => readString rest
  | cs => .error (unexpected "a string" cs)

/-- A string, or `null` for none. -/
def optionalText : Reader (Option String) := fun cs =>
  match skipSpace cs with
  | 'n' :: rest => (literal "ull".toList rest).map fun rest => (none, rest)
  | cs => text.map some cs

/-- A natural number below 2 ^ 64. -/
def natural : Reader Nat := fun cs =>
  let visit (r : Number × List Char) : Except Fault (Nat × List Char) :=
    match r with
    | (.natural n, rest) => .ok (n, rest)
    | (.negative n, _) =>
      .error (.mismatch ("invalid value: " ++ (Number.negative n).describe ++ ", expected usize"))
    | (.binary s x, _) => .error (invalidType (Number.binary s x).describe "usize")
  match skipSpace cs with
  | '-' :: rest => do visit (← readNumber true rest)
  | cs =>
    if cs.head?.any Char.isDigit then do visit (← readNumber false cs)
    else .error (unexpected "usize" cs)

/-! ## Arrays -/

/-- What follows in an open array or object. -/
inductive Following where
  /-- Another element, or key, that begins the text. -/
  | another (rest : List Char)
  /-- The closing bracket, which the text does not hold any more. -/
  | closed (rest : List Char)

/-- What follows in an open array; a comma is needed before every element but the first. -/
def nextElement (first : Bool) (cs : List Char) : Except Fault Following :=
  match skipSpace cs with
  | [] => .error .truncated
  | ']' :: rest => .ok (.closed rest)
  | c :: rest =>
    if first then .ok (.another (c :: rest))
    else if c = ',' then
      match skipSpace rest with
      | [] => .error .truncated
      | ']' :: _ => .error .malformed
      | rest => .ok (.another rest)
    else .error .malformed

/-- The elements up to the closing bracket; each step of `fuel` reads one. -/
def elements {α : Type} (element : Reader α) : Nat → Bool → Reader (List α)
  | 0, _, _ => .error .truncated
  | fuel + 1, first, cs => do
    match ← nextElement first cs with
    | .closed rest => .ok ([], rest)
    | .another rest =>
      let (a, rest) ← element rest
      let (as, rest) ← elements element fuel false rest
      .ok (a :: as, rest)

/-- A list. -/
def list {α : Type} (element : Option (Reader α)) : Reader (List α) := fun cs =>
  match skipSpace cs with
  | '[' :: rest =>
    match element with
    | none => .error .malformed
    | some element => elements element (rest.length + 1) true rest
  | cs => .error (unexpected "a sequence" cs)

/-! ## Objects -/

/-- What follows in an open object; a comma is needed before every key but the first. The quote
that opens a key has been read. -/
def nextKey (first : Bool) (cs : List Char) : Except Fault Following :=
  match skipSpace cs with
  | [] => .error .truncated
  | '\x7d' :: rest => .ok (.closed rest)
  | '"' :: rest => if first then .ok (.another rest) else .error .malformed
  | ',' :: rest =>
    if first then .error .malformed
    else
      match skipSpace rest with
      | [] => .error .truncated
      | '"' :: rest => .ok (.another rest)
      | _ => .error .malformed
  | _ => .error .malformed

/-- The text after the colon behind a key. -/
def colon (cs : List Char) : Except Fault (List Char) :=
  match skipSpace cs with
  | [] => .error .truncated
  | ':' :: rest => .ok rest
  | _ => .error .malformed

/-- The entries up to the closing bracket; each step of `fuel` reads one. -/
def entries {α : Type} (value : Reader α) : Nat → Bool → Reader (List (String × α))
  | 0, _, _ => .error .truncated
  | fuel + 1, first, cs => do
    match ← nextKey first cs with
    | .closed rest => .ok ([], rest)
    | .another rest =>
      let (key, rest) ← readString rest
      let (a, rest) ← value (← colon rest)
      let (es, rest) ← entries value fuel false rest
      .ok ((key, a) :: es, rest)

/-- A map by names; of several entries with one key the last one counts. -/
def map {α : Type} (value : Reader α) : Reader (OrderedMap String α) := fun cs =>
  match skipSpace cs with
  | '\x7b' :: rest => (entries value (rest.length + 1) true rest).map fun (es, rest) =>
    (OrderedMap.ofList es, rest)
  | cs => .error (unexpected "a map" cs)

/-! ## Records -/

/-- A field of the record type `σ`: what it reads changes the record. -/
structure Field (σ : Type) where
  key : String
  isRequired : Bool
  change : Reader (σ → σ)

/-- The name of a record type and its fields in order. -/
structure Shape (σ : Type) where
  title : String
  fields : List (Field σ)

namespace Shape

variable {σ : Type}

/-- The first field of a list that has to be there, counted from `position`. -/
def missing? (position : Nat) : List (Field σ) → Option (Nat × Field σ)
  | [] => none
  | f :: fs => if f.isRequired then some (position, f) else missing? (position + 1) fs

/-- The fields of a record that is written as an array; those at the end that need not be there
may be cut off. -/
def readArray (shape : Shape σ) (position : Nat) (record : σ) : List (Field σ) → Reader σ
  | [], cs =>
    match skipSpace cs with
    | [] => .error .truncated
    | ']' :: rest => .ok (record, rest)
    | _ => .error .malformed
  | f :: fs, cs => do
    match ← nextElement (position == 0) cs with
    | .closed rest =>
      match missing? position (f :: fs) with
      | none => .ok (record, rest)
      | some (place, _) =>
        .error (.mismatch ("invalid length " ++ place.repr ++ ", expected " ++ shape.title ++
          " with " ++ shape.fields.length.repr ++ " elements"))
    | .another rest =>
      let (change, rest) ← f.change rest
      readArray shape (position + 1) (change record) fs rest

/-- The fields of a record that is written as an object. `left` are the fields not met so far; each
step of `fuel` reads one entry. -/
def readObject (shape : Shape σ) : Nat → Bool → List (Field σ) → σ → Reader σ
  | 0, _, _, _, _ => .error .truncated
  | fuel + 1, first, left, record, cs => do
    match ← nextKey first cs with
    | .closed rest =>
      match missing? 0 left with
      | none => .ok (record, rest)
      | some (_, f) => .error (.mismatch ("missing field `" ++ f.key ++ "`"))
    | .another rest =>
      let (key, rest) ← readString rest
      match left.find? (·.key == key) with
      | some f =>
        let (change, rest) ← f.change (← colon rest)
        readObject shape fuel false (left.filter (·.key != key)) (change record) rest
      | none =>
        if shape.fields.any (·.key == key) then
          .error (.mismatch ("duplicate field `" ++ key ++ "`"))
        else readObject shape fuel false left record (← skipValue (← colon rest))

/-- A record; `empty` holds what the fields that are not there stand for. -/
def read (shape : Shape σ) (canEnter : Bool) (empty : σ) : Reader σ := fun cs =>
  match skipSpace cs with
  | '[' :: rest => if canEnter then shape.readArray 0 empty shape.fields rest else .error .malformed
  | '\x7b' :: rest =>
    if canEnter then shape.readObject (rest.length + 1) true shape.fields empty rest
    else .error .malformed
  | cs => .error (unexpected shape.title cs)

end Shape

/-! ## Whole texts -/

/-- The value that a whole text holds; only blanks may follow it. -/
def decode {α : Type} (reader : Reader α) (s : String) : Except Fault α := do
  let (a, rest) ← reader s.toList
  if (skipSpace rest).isEmpty then .ok a else .error .malformed

end Json

end ShiftReduce
