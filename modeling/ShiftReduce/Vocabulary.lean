/-!
# Vocabularies

A vocabulary numbers names from 0 in the order in which they first appear. It is the list of the
names, each once, so the number of a name is its place in the list. Main statements: `name?_idx`,
by which the number of a name leads back to it, and `name?_add_of_lt`, by which adding a name keeps
the numbers that were given out before.
-/

namespace ShiftReduce

/-- Distinct names, numbered by their place. -/
@[ext] structure Vocabulary where
  names : List String
  nodup : names.Nodup
deriving DecidableEq

namespace Vocabulary

instance : EmptyCollection Vocabulary := ⟨⟨[], .nil⟩⟩

instance : Inhabited Vocabulary := ⟨∅⟩

/-- The number of names. -/
def size (v : Vocabulary) : Nat := v.names.length

/-- No name has been added. -/
def isEmpty (v : Vocabulary) : Bool := v.names.isEmpty

/-- The number of a name. -/
def idx? (v : Vocabulary) (name : String) : Option Nat := v.names.idxOf? name

/-- The number that a name has, or would get as the next one. -/
def idx (v : Vocabulary) (name : String) : Nat := v.names.idxOf name

/-- The name with a number. -/
def name? (v : Vocabulary) (i : Nat) : Option String := v.names[i]?

/-- The vocabulary with a name added; a name that is there already keeps its number. -/
def add (v : Vocabulary) (name : String) : Vocabulary :=
  if h : name ∈ v.names then v
  else ⟨v.names ++ [name], by
    refine List.nodup_append.2 ⟨v.nodup, List.pairwise_singleton _ _, ?_⟩
    intro a ha b hb e
    rw [List.mem_singleton] at hb
    exact h (hb ▸ e ▸ ha)⟩

/-- The names of a list in the order in which they first appear. -/
def ofList (names : List String) : Vocabulary := names.foldl add ∅

/-- A new name is put behind the others, and a known one changes nothing. -/
theorem names_add (v : Vocabulary) (name : String) :
    (v.add name).names = if name ∈ v.names then v.names else v.names ++ [name] := by
  unfold add
  split <;> rfl

/-- Adding a name makes it one of the names. -/
@[simp] theorem mem_add {v : Vocabulary} {name x : String} :
    x ∈ (v.add name).names ↔ x ∈ v.names ∨ x = name := by
  rw [names_add]
  split
  · rename_i h
    exact ⟨.inl, fun hx => hx.elim id fun e => e ▸ h⟩
  · simp

/-- Names that are added one after the other are all among the names. -/
theorem mem_foldl_add {v : Vocabulary} {names : List String} {x : String} :
    x ∈ (names.foldl add v).names ↔ x ∈ v.names ∨ x ∈ names := by
  induction names generalizing v with
  | nil => simp
  | cons n names ih => rw [List.foldl_cons, ih, mem_add, List.mem_cons, or_assoc]

/-- The vocabulary of a list has the names of the list. -/
@[simp] theorem mem_ofList {names : List String} {x : String} :
    x ∈ (ofList names).names ↔ x ∈ names := by
  rw [ofList, mem_foldl_add]
  simp [EmptyCollection.emptyCollection]

/-- The name of the number of a name is that name. -/
theorem name?_idx {v : Vocabulary} {name : String} (h : name ∈ v.names) :
    v.name? (v.idx name) = some name := by
  rw [name?, idx, List.getElem?_eq_getElem (List.idxOf_lt_length_of_mem h)]
  exact congrArg some (List.getElem_idxOf _)

/-- The number of a name is below the number of names. -/
theorem idx_lt_size {v : Vocabulary} {name : String} (h : name ∈ v.names) :
    v.idx name < v.size :=
  List.idxOf_lt_length_of_mem h

/-- Numbers given out earlier do not change. -/
theorem name?_add_of_lt {v : Vocabulary} {name : String} {i : Nat} (h : i < v.size) :
    (v.add name).name? i = v.name? i := by
  rw [name?, names_add]
  split
  · rfl
  · exact List.getElem?_append_left h

end Vocabulary

end ShiftReduce
