import Mathlib.Data.List.Forall2
import ShiftReduce.Proofs.Json.Reading

/-!
# Arrays, maps and records on written texts

What the writer puts between two brackets is taken apart again part by part, in either style. The
outcome for an array is that of its elements one after the other (`reads_array`), a map is read back
entry by entry (`reads_map`), and a record is changed by its fields in the order in which they are
written (`Shape.reads_object`). Where nesting has to end, an array and a record are refused at their
brackets (`reads_array_of_none`, `Shape.reads_object_of_closed`).
-/

namespace ShiftReduce

namespace Json

variable {α β σ : Type} {style : Style} {level fuel : ℕ} {first : Bool} {closing : Char}

/-! ## Between two brackets -/

/-- The parts of an array or object from some part on, `first` if it is the first one, up to the
closing bracket. -/
def inside (style : Style) (level : ℕ) (closing : Char) : Bool → List (List Char) → List Char
  | first, [] => (if first then [] else style.lineBreak level) ++ [closing]
  | first, p :: ps => (if first then [] else [',']) ++
      (style.lineBreak (level + 1) ++ (p ++ inside style level closing false ps))

/-- The parts of a bracketed text with its closing bracket are written as `inside` says. -/
theorem parts_append (style : Style) (level : ℕ) (closing : Char) (p : List Char)
    (ps : List (List Char)) : parts style level (p :: ps) ++ style.lineBreak level ++ [closing] =
      inside style level closing true (p :: ps) := by
  induction ps generalizing p with
  | nil => simp [parts, inside]
  | cons q ps ih =>
    have := ih q
    simp only [parts, inside, List.append_assoc, List.cons_append, List.nil_append,
      if_true] at this ⊢
    rw [this]
    rfl

/-- A bracketed text is its opening bracket and what `inside` writes behind it. -/
theorem bracketed_eq (style : Style) (level : ℕ) (opening closing : Char)
    (ps : List (List Char)) :
    bracketed style level opening closing ps = opening :: inside style level closing true ps := by
  cases ps with
  | nil => rfl
  | cons p ps => rw [bracketed, parts_append]; simp

/-- An object is its opening bracket and what `inside` writes for its fields. -/
theorem object_eq (style : Style) (level : ℕ) (fields : List (String × List Char)) :
    object style level fields =
      '\x7b' :: inside style level '\x7d' true (fields.map fun e => field style e.1 e.2) :=
  bracketed_eq _ _ _ _ _

/-- A line break and the indentation behind it are blanks. -/
theorem isSpace_of_mem_lineBreak : ∀ c ∈ style.lineBreak level, isSpace c = true := by
  intro c hc
  cases style with
  | compact => simp [Style.lineBreak] at hc
  | indented =>
    rcases List.mem_cons.1 hc with rfl | hc
    · rfl
    · rw [List.eq_of_mem_replicate hc]
      rfl

/-- The parts behind a value do not go on with the value. -/
theorem closes_inside (hclosing : closing = ']' ∨ closing = '\x7d') (ps : List (List Char))
    (rest : List Char) : Closes (inside style level closing false ps ++ rest) := by
  intro c hc
  cases ps with
  | cons p ps =>
    obtain rfl : ',' = c := by simpa [inside] using hc
    exact .inr (.inl rfl)
  | nil =>
    cases hbreak : style.lineBreak level with
    | nil =>
      obtain rfl : closing = c := by simpa [inside, hbreak] using hc
      exact .inr (.inr hclosing)
    | cons d ds =>
      obtain rfl : d = c := by simpa [inside, hbreak] using hc
      exact .inl (isSpace_of_mem_lineBreak d (by rw [hbreak]; exact List.mem_cons_self))

/-- There are at least as many characters as parts. -/
theorem length_lt_inside (style : Style) (level : ℕ) (closing : Char) (first : Bool)
    (ps : List (List Char)) (hps : ∀ p ∈ ps, p ≠ []) :
    ps.length < (inside style level closing first ps).length := by
  induction ps generalizing first with
  | nil => simp [inside]
  | cons p ps ih =>
    have hp := List.length_pos_iff.2 (hps p List.mem_cons_self)
    have := ih false fun q hq => hps q (List.mem_cons_of_mem _ hq)
    simp only [inside, List.length_append, List.length_cons]
    omega

/-- Behind the last part the bracket closes. -/
theorem skipSpace_inside_nil (hclosing : isSpace closing = false) (rest : List Char) :
    skipSpace (inside style level closing first [] ++ rest) = closing :: rest := by
  rw [inside, List.append_assoc]
  refine skipSpace_blank_cons (fun c hc => ?_) hclosing rest
  split at hc
  · exact absurd hc List.not_mem_nil
  · exact isSpace_of_mem_lineBreak c hc

/-! ## Arrays -/

/-- Behind the last element the array is closed. -/
theorem nextElement_nil (rest : List Char) :
    nextElement first (inside style level ']' first [] ++ rest) = .ok (.closed rest) := by
  have hspace : isSpace ']' = false := rfl
  rw [nextElement, skipSpace_inside_nil hspace]
  rfl

/-- The first element stands behind blanks alone. -/
theorem nextElement_first {blank cs : List Char} (hblank : ∀ c ∈ blank, isSpace c = true) {c : Char}
    (hspace : isSpace c = false) (hc : c ≠ ']') :
    nextElement true (blank ++ c :: cs) = .ok (.another (c :: cs)) := by
  rw [nextElement, skipSpace_blank_cons hblank hspace]
  split <;> simp_all

/-- Every other element stands behind a comma. -/
theorem nextElement_comma {blank cs : List Char} (hblank : ∀ c ∈ blank, isSpace c = true) {c : Char}
    (hspace : isSpace c = false) (hc : c ≠ ']') :
    nextElement false (',' :: (blank ++ c :: cs)) = .ok (.another (c :: cs)) := by
  have hcomma : isSpace ',' = false := rfl
  rw [nextElement, skipSpace_cons hcomma]
  split
  · rename_i h
    exact absurd h (List.cons_ne_nil _ _)
  · rename_i h
    exact absurd (List.cons.inj h).1 (by decide)
  · rename_i h
    obtain ⟨rfl, rfl⟩ := List.cons.inj h
    simp only [Bool.false_eq_true, if_false, if_true, skipSpace_blank_cons hblank hspace]
    split <;> simp_all

/-- What `inside` writes for the next element leads to that element. -/
theorem nextElement_cons {p : List Char} (hp : Opens p) (ps : List (List Char))
    (rest : List Char) : nextElement first (inside style level ']' first (p :: ps) ++ rest) =
      .ok (.another (p ++ (inside style level ']' false ps ++ rest))) := by
  obtain ⟨c, cs, rfl, hspace, hc⟩ := hp
  cases first with
  | true =>
    simp only [inside, List.append_assoc, List.cons_append, List.nil_append, if_true]
    exact nextElement_first isSpace_of_mem_lineBreak hspace hc
  | false =>
    simp only [inside, List.append_assoc, List.cons_append, List.nil_append, Bool.false_eq_true,
      if_false]
    exact nextElement_comma isSpace_of_mem_lineBreak hspace hc

/-- The elements of an array are read one after the other. -/
theorem elements_inside {element : Reader α} {write : β → List Char} {read : β → Except Fault α}
    {bs : List β} (h : ∀ b ∈ bs, Reads element (write b) (read b)) (hfuel : bs.length < fuel)
    (rest : List Char) :
    elements element fuel first (inside style level ']' first (bs.map write) ++ rest) =
      (bs.mapM read).map (·, rest) := by
  induction bs generalizing fuel first with
  | nil =>
    obtain ⟨fuel, rfl⟩ := Nat.exists_eq_succ_of_ne_zero (Nat.ne_of_gt hfuel)
    rw [List.map_nil, elements, nextElement_nil]
    rfl
  | cons b bs ih =>
    obtain ⟨fuel, rfl⟩ := Nat.exists_eq_succ_of_ne_zero (Nat.ne_of_gt (Nat.zero_lt_of_lt hfuel))
    have hb := h b List.mem_cons_self
    have hread := hb.eq [] (inside style level ']' false (bs.map write) ++ rest) (by simp)
      (closes_inside (.inl rfl) _ rest)
    have hrest : elements element fuel false
        (inside style level ']' false (bs.map write) ++ rest) = (bs.mapM read).map (·, rest) :=
      ih (fun b hb => h b (List.mem_cons_of_mem _ hb)) (Nat.lt_of_succ_lt_succ hfuel)
    rw [List.nil_append] at hread
    rw [List.map_cons, elements, nextElement_cons hb.opens, List.mapM_cons]
    simp only [bind, Except.bind, hread]
    cases read b with
    | error fault => rfl
    | ok a =>
      simp only [Except.map, hrest]
      cases bs.mapM read <;> rfl

/-- An array gives the elements that are read, or the first fault among them. -/
theorem reads_array {element : Reader α} {write : β → List Char} {read : β → Except Fault α}
    {bs : List β} (h : ∀ b ∈ bs, Reads element (write b) (read b)) (style : Style) (level : ℕ) :
    Reads (list (some element)) (array style level (bs.map write)) (bs.mapM read) where
  opens := ⟨'[', _, bracketed_eq _ _ _ _ _, rfl, by decide⟩
  eq blank rest hblank _ := by
    have hopen : isSpace '[' = false := rfl
    have hparts : ∀ p ∈ bs.map write, p ≠ [] := by
      intro p hp
      obtain ⟨b, hb, rfl⟩ := List.mem_map.1 hp
      obtain ⟨c, cs, hcs, -⟩ := (h b hb).opens
      rw [hcs]
      exact List.cons_ne_nil _ _
    have hlen := length_lt_inside style level ']' true _ hparts
    rw [List.length_map] at hlen
    rw [array, bracketed_eq, list, List.cons_append, skipSpace_blank_cons hblank hopen]
    exact elements_inside h (by rw [List.length_append]; omega) rest

/-- Elements that are read or refused make a list that is read or refused. -/
theorem mapM_ite (p : α → Prop) [DecidablePred p] (fault : Fault) (as : List α) :
    (as.mapM fun a => if p a then Except.ok a else .error fault) =
      if ∀ a ∈ as, p a then .ok as else .error fault := by
  induction as with
  | nil => rfl
  | cons a as ih =>
    rw [List.mapM_cons, ih]
    by_cases ha : p a
    · by_cases has : ∀ b ∈ as, p b
      · have hall : ∀ b ∈ a :: as, p b := List.forall_mem_cons.2 ⟨ha, has⟩
        rw [if_pos ha, if_pos has, if_pos hall]
        rfl
      · have hall : ¬ ∀ b ∈ a :: as, p b := fun h => has (List.forall_mem_cons.1 h).2
        rw [if_pos ha, if_neg has, if_neg hall]
        rfl
    · have hall : ¬ ∀ b ∈ a :: as, p b := fun h => ha (List.forall_mem_cons.1 h).1
      rw [if_neg ha, if_neg hall]
      rfl

/-- An array of elements that are read back is read back; if an element is refused, the array is. -/
theorem reads_array_ite {element : Reader α} {write : α → List Char} {as : List α} {p : α → Prop}
    [DecidablePred p] {fault : Fault}
    (h : ∀ a ∈ as, Reads element (write a) (if p a then .ok a else .error fault)) (style : Style)
    (level : ℕ) : Reads (list (some element)) (array style level (as.map write))
      (if ∀ a ∈ as, p a then .ok as else .error fault) := by
  rw [← mapM_ite]
  exact reads_array h style level

/-- An array is read back if its elements are. -/
theorem reads_array_ok {element : Reader α} {write : α → List Char} {as : List α}
    (h : ∀ a ∈ as, Reads element (write a) (.ok a)) (style : Style) (level : ℕ) :
    Reads (list (some element)) (array style level (as.map write)) (.ok as) := by
  have hread : ∀ a ∈ as, Reads element (write a) (if True then .ok a else .error .malformed) := by
    simpa using h
  simpa using reads_array_ite (p := fun _ => True) hread style level

/-- Where nothing can be nested any more an array is refused. -/
theorem reads_array_of_none (style : Style) (level : ℕ) (ps : List (List Char)) :
    Reads (list (none : Option (Reader α))) (array style level ps) (.error .malformed) where
  opens := ⟨'[', _, bracketed_eq _ _ _ _ _, rfl, by decide⟩
  eq blank rest hblank _ := by
    have hopen : isSpace '[' = false := rfl
    rw [array, bracketed_eq, list, List.cons_append, skipSpace_blank_cons hblank hopen]
    rfl

/-! ## Keys -/

/-- Behind the last field the object is closed. -/
theorem nextKey_nil (rest : List Char) :
    nextKey first (inside style level '\x7d' first [] ++ rest) = .ok (.closed rest) := by
  have hspace : isSpace '\x7d' = false := rfl
  rw [nextKey, skipSpace_inside_nil hspace]
  rfl

/-- The next key of an object is there, with its opening quote read. -/
theorem nextKey_cons (key : String) (value : List Char) (ps : List (List Char))
    (rest : List Char) :
    nextKey first (inside style level '\x7d' first (field style key value :: ps) ++ rest) =
      .ok (.another (key.toList.flatMap escape ++
        '"' :: (style.colon ++ (value ++ (inside style level '\x7d' false ps ++ rest))))) := by
  have hquote : isSpace '"' = false := rfl
  have hcomma : isSpace ',' = false := rfl
  cases first with
  | true =>
    simp only [inside, field, string, nextKey, List.append_assoc, List.cons_append, List.nil_append,
      if_true, skipSpace_blank_cons isSpace_of_mem_lineBreak hquote]
  | false =>
    simp only [inside, field, string, nextKey, List.append_assoc, List.cons_append, List.nil_append,
      Bool.false_eq_true, if_false, skipSpace_cons hcomma,
      skipSpace_blank_cons isSpace_of_mem_lineBreak hquote]

/-- Behind a key stands its value, maybe behind a blank. -/
theorem exists_colon (style : Style) : ∃ blank, (∀ c ∈ blank, isSpace c = true) ∧
    ∀ rest, colon (style.colon ++ rest) = .ok (blank ++ rest) := by
  have hcolon : isSpace ':' = false := rfl
  cases style with
  | compact => exact ⟨[], by simp, fun rest => by simp [Style.colon, colon, skipSpace_cons hcolon]⟩
  | indented =>
    exact ⟨[' '], by simp [isSpace],
      fun rest => by simp [Style.colon, colon, skipSpace_cons hcolon]⟩

/-! ## Maps -/

/-- The entries of a map are read one after the other. -/
theorem entries_inside {value : Reader α} {write : α → List Char} {es : List (String × α)}
    (h : ∀ e ∈ es, Reads value (write e.2) (.ok e.2)) (hfuel : es.length < fuel)
    (rest : List Char) : entries value fuel first
      (inside style level '\x7d' first (es.map fun e => field style e.1 (write e.2)) ++ rest) =
        .ok (es, rest) := by
  induction es generalizing fuel first with
  | nil =>
    obtain ⟨fuel, rfl⟩ := Nat.exists_eq_succ_of_ne_zero (Nat.ne_of_gt hfuel)
    rw [List.map_nil, entries, nextKey_nil]
    rfl
  | cons e es ih =>
    obtain ⟨fuel, rfl⟩ := Nat.exists_eq_succ_of_ne_zero (Nat.ne_of_gt (Nat.zero_lt_of_lt hfuel))
    obtain ⟨blank, hblank, hcolon⟩ := exists_colon style
    have hread := (h e List.mem_cons_self).eq blank
      (inside style level '\x7d' false (es.map fun e => field style e.1 (write e.2)) ++ rest) hblank
      (closes_inside (.inr rfl) _ rest)
    have hrest : entries value fuel false (inside style level '\x7d' false
        (es.map fun e => field style e.1 (write e.2)) ++ rest) = .ok (es, rest) :=
      ih (fun e he => h e (List.mem_cons_of_mem _ he)) (Nat.lt_of_succ_lt_succ hfuel)
    rw [List.map_cons, entries, nextKey_cons]
    simp only [bind, Except.bind, readString_escaped, hcolon, hread, Except.map, hrest]

/-- A field is written with at least one character. -/
theorem field_ne_nil (style : Style) (key : String) (value : List Char) :
    field style key value ≠ [] :=
  List.cons_ne_nil _ _

/-- A map is read back from its entries. -/
theorem reads_map {value : Reader α} (write : α → List Char) {m : OrderedMap String α}
    (h : ∀ e ∈ m.entries, Reads value (write e.2) (.ok e.2)) (style : Style) (level : ℕ) :
    Reads (Json.map value) (object style level (m.entries.map fun e => (e.1, write e.2)))
      (.ok m) where
  opens := ⟨'\x7b', _, bracketed_eq _ _ _ _ _, rfl, by decide⟩
  eq blank rest hblank _ := by
    have hopen : isSpace '\x7b' = false := rfl
    have hlen := length_lt_inside style level '\x7d' true
      (m.entries.map fun e => field style e.1 (write e.2)) fun p hp => by
        obtain ⟨e, -, rfl⟩ := List.mem_map.1 hp
        exact field_ne_nil _ _ _
    rw [List.length_map] at hlen
    have hobject : object style level (m.entries.map fun e => (e.1, write e.2)) = '\x7b' ::
        inside style level '\x7d' true (m.entries.map fun e => field style e.1 (write e.2)) := by
      rw [object_eq, List.map_map]
      rfl
    rw [hobject, Json.map, List.cons_append, skipSpace_blank_cons hblank hopen]
    show Except.map _ (entries value _ true _) = _
    rw [entries_inside h (by rw [List.length_append]; omega)]
    simp only [Except.map, OrderedMap.ofList_entries]

/-! ## Records -/

/-- What is written for a field of a record, and what reading it does to the record. -/
structure Written (σ : Type) where
  text : List Char
  outcome : Except Fault (σ → σ)

/-- What is written for a field is read by it. -/
def Writes (f : Field σ) (w : Written σ) : Prop := Reads f.change w.text w.outcome

/-- A field whose value is read back changes the record by that value. -/
theorem Reads.writes {r : Reader α} {w : List Char} {a : α} (h : Reads r w (.ok a)) {key : String}
    {isRequired : Bool} {change : α → σ → σ} :
    Writes ⟨key, isRequired, r.map change⟩ ⟨w, .ok (change a)⟩ :=
  h.map change

/-- The record after what is written for a field. -/
def Written.apply (record : σ) (w : Written σ) : Except Fault σ :=
  w.outcome.map fun change => change record

/-- The fields with what is written for them. -/
def writtenFields (fields : List (Field σ)) (ws : List (Written σ)) : List (String × List Char) :=
  List.zipWith (fun f w => (f.key, w.text)) fields ws

namespace Shape

/-- Nothing is missing where nothing is required. -/
theorem missing?_eq_none {position : ℕ} {fields : List (Field σ)}
    (h : ∀ f ∈ fields, f.isRequired = false) : missing? position fields = none := by
  induction fields generalizing position with
  | nil => rfl
  | cons f fs ih =>
    rw [missing?, h f List.mem_cons_self]
    exact ih fun x hx => h x (List.mem_cons_of_mem _ hx)

/-- A field is found by its key. -/
theorem find?_key {fields : List (Field σ)} (hkeys : (fields.map (·.key)).Nodup) {f : Field σ}
    (hf : f ∈ fields) : fields.find? (·.key == f.key) = some f := by
  induction fields with
  | nil => exact absurd hf List.not_mem_nil
  | cons g fs ih =>
    obtain ⟨hg, hkeys⟩ := List.nodup_cons.1 hkeys
    rcases List.mem_cons.1 hf with rfl | hf
    · simp
    · have hne : g.key ≠ f.key := fun heq => hg (List.mem_map.2 ⟨f, hf, heq.symm⟩)
      rw [List.find?_cons_of_neg (by simpa using hne), ih hkeys hf]

/-- The fields are some of those left, in their order, and all of them that have to be there. -/
structure Supplies (fields left : List (Field σ)) : Prop where
  sublist : fields.Sublist left
  nodup : (left.map (·.key)).Nodup
  required : ∀ f ∈ left, f.isRequired = true → f ∈ fields

/-- All fields of a record supply the record. -/
theorem Supplies.all {fields : List (Field σ)} (hkeys : (fields.map (·.key)).Nodup) :
    Supplies fields fields :=
  ⟨List.Sublist.refl _, hkeys, fun _ hf _ => hf⟩

/-- When a field is taken out the other ones are still there, since they have other keys. -/
theorem Supplies.tail {f : Field σ} {fields left : List (Field σ)}
    (h : Supplies (f :: fields) left) : Supplies fields (left.filter (·.key != f.key)) where
  sublist := by
    have hothers : ∀ g ∈ fields, (g.key != f.key) = true := by
      intro g hg
      have hnodup := (h.sublist.map (·.key)).nodup h.nodup
      exact bne_iff_ne.2 fun heq => (List.nodup_cons.1 hnodup).1 (List.mem_map.2 ⟨g, hg, heq⟩)
    rw [← List.filter_eq_self.2 hothers]
    exact ((List.sublist_cons_self f fields).trans h.sublist).filter _
  nodup := (List.filter_sublist.map _).nodup h.nodup
  required := by
    intro g hg hreq
    obtain ⟨hg, hne⟩ := List.mem_filter.1 hg
    rcases List.mem_cons.1 (h.required g hg hreq) with rfl | hmem
    · simp at hne
    · exact hmem

/-- The fields of a record change it in the order in which they are written. -/
theorem readObject_inside (shape : Shape σ) {fields left : List (Field σ)} {ws : List (Written σ)}
    (hwrites : List.Forall₂ Writes fields ws) (hleft : Supplies fields left) (record : σ)
    (hfuel : fields.length < fuel) (rest : List Char) :
    shape.readObject fuel first left record (inside style level '\x7d' first
      ((writtenFields fields ws).map fun e => field style e.1 e.2) ++ rest) =
        (ws.foldlM Written.apply record).map (·, rest) := by
  induction hwrites generalizing fuel first left record with
  | nil =>
    obtain ⟨fuel, rfl⟩ := Nat.exists_eq_succ_of_ne_zero (Nat.ne_of_gt hfuel)
    have hmissing : missing? 0 left = none := missing?_eq_none fun f hf =>
      Bool.eq_false_iff.2 fun hreq => absurd (hleft.required f hf hreq) List.not_mem_nil
    rw [writtenFields, List.zipWith_nil_left, List.map_nil, readObject, nextKey_nil]
    simp [bind, Except.bind, hmissing, Except.map, pure, Except.pure]
  | @cons f w fields ws hf hwrites ih =>
    obtain ⟨fuel, rfl⟩ := Nat.exists_eq_succ_of_ne_zero (Nat.ne_of_gt (Nat.zero_lt_of_lt hfuel))
    obtain ⟨blank, hblank, hcolon⟩ := exists_colon style
    have hread := hf.eq blank (inside style level '\x7d' false
      ((writtenFields fields ws).map fun e => field style e.1 e.2) ++ rest) hblank
      (closes_inside (.inr rfl) _ rest)
    have hrest : ∀ record, shape.readObject fuel false (left.filter (·.key != f.key)) record
        (inside style level '\x7d' false
          ((writtenFields fields ws).map fun e => field style e.1 e.2) ++ rest) =
        (ws.foldlM Written.apply record).map (·, rest) := fun record =>
      ih hleft.tail record (Nat.lt_of_succ_lt_succ hfuel)
    have hfind := find?_key hleft.nodup (hleft.sublist.subset List.mem_cons_self)
    rw [writtenFields, List.zipWith_cons_cons, List.map_cons, readObject, nextKey_cons,
      List.foldlM_cons]
    rw [writtenFields] at hread hrest
    simp only [bind, Except.bind, readString_escaped, hfind, hcolon, hread, Written.apply]
    cases w.outcome with
    | error fault => rfl
    | ok change => exact hrest (change record)

/-- A record gives what its fields make of it, or the first fault among them. -/
theorem reads_object (shape : Shape σ) {fields : List (Field σ)} {ws : List (Written σ)}
    (hwrites : List.Forall₂ Writes fields ws) (hfields : Supplies fields shape.fields) (empty : σ)
    (style : Style) (level : ℕ) :
    Reads (shape.read true empty) (object style level (writtenFields fields ws))
      (ws.foldlM Written.apply empty) where
  opens := ⟨'\x7b', _, bracketed_eq _ _ _ _ _, rfl, by decide⟩
  eq blank rest hblank _ := by
    have hopen : isSpace '\x7b' = false := rfl
    have hlen := length_lt_inside style level '\x7d' true
      ((writtenFields fields ws).map fun e => field style e.1 e.2) fun p hp => by
        obtain ⟨e, -, rfl⟩ := List.mem_map.1 hp
        exact field_ne_nil _ _ _
    have hwritten : (writtenFields fields ws).length = fields.length := by
      rw [writtenFields, List.length_zipWith, List.Forall₂.length_eq hwrites, Nat.min_self]
    rw [List.length_map, hwritten] at hlen
    rw [object_eq, Shape.read, List.cons_append, skipSpace_blank_cons hblank hopen]
    exact readObject_inside shape hwrites hfields empty (by rw [List.length_append]; omega) rest

/-- Where nothing can be nested any more a record is refused. -/
theorem reads_object_of_closed (shape : Shape σ) (empty : σ) (style : Style) (level : ℕ)
    (fields : List (String × List Char)) :
    Reads (shape.read false empty) (object style level fields) (.error .malformed) where
  opens := ⟨'\x7b', _, bracketed_eq _ _ _ _ _, rfl, by decide⟩
  eq blank rest hblank _ := by
    have hopen : isSpace '\x7b' = false := rfl
    rw [object, bracketed_eq, Shape.read, List.cons_append, skipSpace_blank_cons hblank hopen]
    rfl

end Shape

/-! ## Whole texts -/

/-- A text that holds nothing but a written value gives what reading the value gives. -/
theorem decode_ofList {r : Reader α} {w : List Char} {o : Except Fault α} (h : Reads r w o) :
    decode r (String.ofList w) = o := by
  have hread := h.eq [] [] (by simp) (by simp [Closes])
  rw [List.nil_append, List.append_nil] at hread
  rw [decode, String.toList_ofList, hread]
  cases o <;> rfl

end Json

end ShiftReduce
