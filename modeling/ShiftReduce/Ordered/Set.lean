/-!
# Sets in ascending order

A set of keys is the list of its members in ascending order, without repetition, so two sets
with the same members are equal. Main statements: `mem_insert`, `mem_ofList` and the
extensionality `ext_mem`.
-/

namespace ShiftReduce

/-- A finite set, held as the ascending list of its members. -/
@[ext] structure OrderedSet (α : Type) [Ord α] where
  members : List α
  ascending : members.Pairwise fun a b => compare a b = .lt

namespace OrderedSet

variable {α : Type} [Ord α]

instance [DecidableEq α] : DecidableEq (OrderedSet α) := fun s t =>
  decidable_of_iff (s.members = t.members) OrderedSet.ext_iff.symm

instance : EmptyCollection (OrderedSet α) := ⟨⟨[], .nil⟩⟩

instance : Inhabited (OrderedSet α) := ⟨∅⟩

instance : Membership α (OrderedSet α) := ⟨fun s a => a ∈ s.members⟩

/-- The members of a set are those of its list. -/
theorem mem_def {s : OrderedSet α} {a : α} : a ∈ s ↔ a ∈ s.members := Iff.rfl

instance [DecidableEq α] (s : OrderedSet α) (a : α) : Decidable (a ∈ s) :=
  inferInstanceAs (Decidable (a ∈ s.members))

/-- The number of members. -/
def size (s : OrderedSet α) : Nat := s.members.length

/-- The place of `a` in an ascending list; a key that is there already stays alone. -/
def place (a : α) : List α → List α
  | [] => [a]
  | b :: bs =>
    match compare a b with
    | .lt => a :: b :: bs
    | .eq => b :: bs
    | .gt => b :: place a bs

@[simp] theorem notMem_empty (a : α) : ¬ a ∈ (∅ : OrderedSet α) := List.not_mem_nil

/-- What is placed adds no member but itself. -/
theorem mem_place [Std.LawfulEqOrd α] {a x : α} {bs : List α} :
    x ∈ place a bs ↔ x = a ∨ x ∈ bs := by
  induction bs with
  | nil => simp [place]
  | cons b bs ih =>
    simp only [place]
    split <;> rename_i h
    · simp
    · have := Std.LawfulEqOrd.eq_of_compare h
      subst this
      simp
    · rw [List.mem_cons, ih, List.mem_cons]
      exact or_left_comm

variable [Std.TransOrd α] [Std.LawfulEqOrd α]

omit [Std.LawfulEqOrd α] in
/-- No element is below itself. -/
theorem not_compare_self_lt (a : α) : compare a a ≠ .lt := by
  rw [(Std.ReflCmp.compare_self : compare a a = .eq)]
  exact Ordering.noConfusion

/-- The place of an element is between the smaller and the greater ones, so the order stays. -/
theorem ascending_place (a : α) {bs : List α}
    (h : bs.Pairwise fun a b => compare a b = .lt) :
    (place a bs).Pairwise fun a b => compare a b = .lt := by
  induction bs with
  | nil => exact List.pairwise_singleton _ _
  | cons b bs ih =>
    have hb := List.pairwise_cons.1 h
    simp only [place]
    split <;> rename_i hab
    · refine List.pairwise_cons.2 ⟨fun x hx => ?_, h⟩
      rcases List.mem_cons.1 hx with rfl | hx
      · exact hab
      · exact Std.TransCmp.lt_trans hab (hb.1 x hx)
    · exact h
    · refine List.pairwise_cons.2 ⟨fun x hx => ?_, ih hb.2⟩
      rcases mem_place.1 hx with rfl | hx
      · exact Std.OrientedCmp.lt_of_gt hab
      · exact hb.1 x hx

/-- The set with the member `a` added. -/
def insert (a : α) (s : OrderedSet α) : OrderedSet α :=
  ⟨place a s.members, ascending_place a s.ascending⟩

/-- The set of the members of a list. -/
def ofList (as : List α) : OrderedSet α := as.foldl (fun s a => s.insert a) ∅

/-- The members of both sets. -/
def union (s t : OrderedSet α) : OrderedSet α := t.members.foldl (fun s a => s.insert a) s

instance : Singleton α (OrderedSet α) := ⟨fun a => insert a ∅⟩

instance : Union (OrderedSet α) := ⟨union⟩

/-- Insertion adds one member. -/
@[simp] theorem mem_insert {a b : α} {s : OrderedSet α} : b ∈ s.insert a ↔ b = a ∨ b ∈ s :=
  mem_place

@[simp] theorem mem_singleton {a b : α} : b ∈ ({a} : OrderedSet α) ↔ b = a := by
  show b ∈ insert a ∅ ↔ _
  simp

/-- Insertions one after the other add a member each. -/
theorem mem_foldl_insert {b : α} {as : List α} {s : OrderedSet α} :
    b ∈ as.foldl (fun s a => s.insert a) s ↔ b ∈ s ∨ b ∈ as := by
  induction as generalizing s with
  | nil => simp
  | cons a as ih =>
    rw [List.foldl_cons, ih, mem_insert, List.mem_cons]
    constructor
    · rintro ((h | h) | h) <;> simp [h]
    · rintro (h | h | h) <;> simp [h]

/-- The set of a list has the members of the list. -/
@[simp] theorem mem_ofList {b : α} {as : List α} : b ∈ ofList as ↔ b ∈ as := by
  rw [ofList, mem_foldl_insert]
  simp

/-- The members of a union are those of both sets. -/
@[simp] theorem mem_union {b : α} {s t : OrderedSet α} : b ∈ s ∪ t ↔ b ∈ s ∨ b ∈ t :=
  mem_foldl_insert

omit [Std.LawfulEqOrd α] in
/-- In ascending order no member comes twice. -/
theorem members_nodup (s : OrderedSet α) : s.members.Nodup := by
  refine s.ascending.imp ?_
  rintro a b h rfl
  exact not_compare_self_lt a h

omit [Std.LawfulEqOrd α] in
/-- Two sets with the same members are equal. -/
theorem ext_mem {s t : OrderedSet α} (h : ∀ a, a ∈ s ↔ a ∈ t) : s = t := by
  suffices ∀ {as bs : List α}, (as.Pairwise fun a b => compare a b = .lt) →
      (bs.Pairwise fun a b => compare a b = .lt) → (∀ a, a ∈ as ↔ a ∈ bs) → as = bs from
    OrderedSet.ext (this s.ascending t.ascending h)
  intro as bs ha hb h
  induction as generalizing bs with
  | nil =>
    cases bs with
    | nil => rfl
    | cons b bs => exact absurd ((h b).2 (by simp)) (by simp)
  | cons a as ih =>
    cases bs with
    | nil => exact absurd ((h a).1 (by simp)) (by simp)
    | cons b bs =>
      have pa := List.pairwise_cons.1 ha
      have pb := List.pairwise_cons.1 hb
      have hab : a = b := by
        rcases List.mem_cons.1 ((h a).1 (by simp)) with e | e
        · exact e
        rcases List.mem_cons.1 ((h b).2 (by simp)) with e' | e'
        · exact e'.symm
        exact absurd (Std.TransCmp.lt_trans (pa.1 b e') (pb.1 a e)) (not_compare_self_lt a)
      subst hab
      congr 1
      refine ih pa.2 pb.2 fun x => ?_
      constructor <;> intro hx
      · rcases List.mem_cons.1 ((h x).1 (by simp [hx])) with e | e
        · exact absurd (e ▸ pa.1 x hx) (not_compare_self_lt _)
        · exact e
      · rcases List.mem_cons.1 ((h x).2 (by simp [hx])) with e | e
        · exact absurd (e ▸ pb.1 x hx) (not_compare_self_lt _)
        · exact e

end OrderedSet

end ShiftReduce
