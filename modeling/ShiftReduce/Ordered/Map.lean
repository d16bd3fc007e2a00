/-!
# Maps in ascending order of their keys

A map is the list of its entries in ascending order of the keys, each key once, so the order in
which the entries were added leaves no trace. Main statements: `get?_insert`, `mem_keys` and
`ofList_entries`.
-/

namespace ShiftReduce

/-- A finite map, held as the list of its entries in ascending order of the keys. -/
@[ext] structure OrderedMap (κ : Type) [Ord κ] (α : Type) where
  entries : List (κ × α)
  ascending : entries.Pairwise fun a b => compare a.1 b.1 = .lt

namespace OrderedMap

variable {κ α : Type} [Ord κ]

instance [DecidableEq κ] [DecidableEq α] : DecidableEq (OrderedMap κ α) := fun s t =>
  decidable_of_iff (s.entries = t.entries) OrderedMap.ext_iff.symm

instance : EmptyCollection (OrderedMap κ α) := ⟨⟨[], .nil⟩⟩

instance : Inhabited (OrderedMap κ α) := ⟨∅⟩

/-- The keys in ascending order. -/
def keys (m : OrderedMap κ α) : List κ := m.entries.map (·.1)

/-- The value of the first entry with the key `k`. -/
def find [DecidableEq κ] (k : κ) : List (κ × α) → Option α
  | [] => none
  | e :: es => if k = e.1 then some e.2 else find k es

/-- The value at a key. -/
def get? [DecidableEq κ] (m : OrderedMap κ α) (k : κ) : Option α := find k m.entries

/-- An ascending list of entries with the value at `k` set to `a`. -/
def place (k : κ) (a : α) : List (κ × α) → List (κ × α)
  | [] => [(k, a)]
  | e :: es =>
    match compare k e.1 with
    | .lt => (k, a) :: e :: es
    | .eq => (k, a) :: es
    | .gt => e :: place k a es

@[simp] theorem get?_empty [DecidableEq κ] (k : κ) : (∅ : OrderedMap κ α).get? k = none := rfl

/-- What is placed adds no entry but its own. -/
theorem mem_place {k : κ} {a : α} {x : κ × α} {es : List (κ × α)} (h : x ∈ place k a es) :
    x.1 = k ∨ x ∈ es := by
  induction es with
  | nil =>
    rw [place, List.mem_singleton] at h
    exact .inl (congrArg Prod.fst h)
  | cons e es ih =>
    simp only [place] at h
    split at h
    · rcases List.mem_cons.1 h with rfl | h
      · exact .inl rfl
      · exact .inr h
    · rcases List.mem_cons.1 h with rfl | h
      · exact .inl rfl
      · exact .inr (List.mem_cons_of_mem _ h)
    · rcases List.mem_cons.1 h with rfl | h
      · exact .inr (by simp)
      · exact (ih h).imp id (List.mem_cons_of_mem _)

variable [Std.TransOrd κ] [Std.LawfulEqOrd κ]

/-- The place of a key is between the smaller and the greater ones, so the order stays. -/
theorem ascending_place (k : κ) (a : α) {es : List (κ × α)}
    (h : es.Pairwise fun a b => compare a.1 b.1 = .lt) :
    (place k a es).Pairwise fun a b => compare a.1 b.1 = .lt := by
  induction es with
  | nil => exact List.pairwise_singleton _ _
  | cons e es ih =>
    have he := List.pairwise_cons.1 h
    simp only [place]
    split <;> rename_i hk
    · refine List.pairwise_cons.2 ⟨fun x hx => ?_, h⟩
      rcases List.mem_cons.1 hx with rfl | hx
      · exact hk
      · exact Std.TransCmp.lt_trans hk (he.1 x hx)
    · have := Std.LawfulEqOrd.eq_of_compare hk
      subst this
      exact List.pairwise_cons.2 ⟨he.1, he.2⟩
    · refine List.pairwise_cons.2 ⟨fun x hx => ?_, ih he.2⟩
      rcases mem_place hx with hx | hx
      · rw [hx]
        exact Std.OrientedCmp.lt_of_gt hk
      · exact he.1 x hx

/-- The map with the value at `k` set to `a`. -/
def insert (m : OrderedMap κ α) (k : κ) (a : α) : OrderedMap κ α :=
  ⟨place k a m.entries, ascending_place k a m.ascending⟩

/-- The map of a list of entries; of several entries with one key the last one counts. -/
def ofList (es : List (κ × α)) : OrderedMap κ α := es.foldl (fun m e => m.insert e.1 e.2) ∅

omit [Std.LawfulEqOrd κ] in
/-- A key above all others is placed at the end. -/
theorem place_eq_append {k : κ} {es : List (κ × α)} (h : ∀ e ∈ es, compare e.1 k = .lt) (a : α) :
    place k a es = es ++ [(k, a)] := by
  induction es with
  | nil => rfl
  | cons e es ih =>
    have hk : compare k e.1 = .gt := Std.OrientedCmp.gt_of_lt (h e (by simp))
    rw [place, hk, List.cons_append, ih fun x hx => h x (by simp [hx])]

/-- Entries that come in ascending order, above those of a map, are put behind them one by one. -/
theorem entries_foldl_insert {m : OrderedMap κ α} {es : List (κ × α)}
    (h : (m.entries ++ es).Pairwise fun a b => compare a.1 b.1 = .lt) :
    (es.foldl (fun m e => m.insert e.1 e.2) m).entries = m.entries ++ es := by
  induction es generalizing m with
  | nil => simp
  | cons e es ih =>
    have hinsert : (m.insert e.1 e.2).entries = m.entries ++ [e] :=
      place_eq_append (fun x hx => (List.pairwise_append.1 h).2.2 x hx e (by simp)) e.2
    rw [List.foldl_cons, ih (by simpa [hinsert] using h), hinsert, List.append_assoc]
    rfl

/-- A map is made from its entries. -/
theorem ofList_entries (m : OrderedMap κ α) : ofList m.entries = m :=
  OrderedMap.ext (entries_foldl_insert (m := ∅) m.ascending)

variable [DecidableEq κ]

omit [Std.TransOrd κ] in
/-- Placing an entry changes what is found under its key and nothing else. -/
theorem find_place {k k' : κ} {a : α} {es : List (κ × α)} :
    find k' (place k a es) = if k' = k then some a else find k' es := by
  induction es with
  | nil => rfl
  | cons e es ih =>
    simp only [place]
    split <;> rename_i hk
    · rfl
    · have := Std.LawfulEqOrd.eq_of_compare hk
      by_cases h : k' = k <;> simp [find, h, ← this]
    · have hne : e.1 ≠ k := fun h => by
        rw [h, (Std.ReflCmp.compare_self : compare k k = .eq)] at hk
        cases hk
      by_cases h : k' = e.1
      · simp [find, h, hne]
      · simp [find, h, ih]

/-- A look-up after an insertion finds the value put in at its key and the old values elsewhere. -/
theorem get?_insert {m : OrderedMap κ α} {k k' : κ} {a : α} :
    (m.insert k a).get? k' = if k' = k then some a else m.get? k' :=
  find_place

omit [Std.TransOrd κ] [Std.LawfulEqOrd κ] in
/-- The keys are those for which a look-up finds a value. -/
theorem mem_keys {m : OrderedMap κ α} {k : κ} : k ∈ m.keys ↔ ∃ a, m.get? k = some a := by
  rw [keys, get?]
  induction m.entries with
  | nil => simp [find]
  | cons e es ih =>
    rw [List.map_cons, List.mem_cons, ih, find]
    by_cases h : k = e.1 <;> simp [h]

end OrderedMap

end ShiftReduce
