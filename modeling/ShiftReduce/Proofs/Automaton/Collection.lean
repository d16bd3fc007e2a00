import Mathlib.Data.Finset.Powerset
import ShiftReduce.Automaton.Collection
import ShiftReduce.Proofs.Automaton.Closure

/-!
# The collection holds every reachable kernel

`mem_collection_iff` says that the collection is the set of kernels that transitions reach from the
start kernel, and `nodup_collection` that each is listed once. The search ends
(`searches_collection`) because a kernel is a set of items: there are no more kernels than sets of
items, which is the fuel of `collection`.
-/

namespace ShiftReduce

namespace Kernel

variable {ps : List Production} {k k' : Kernel} {s : Symbol}

/-- A transition leads from the kernel `k` to the kernel `k'`. -/
def Leads (ps : List Production) (k k' : Kernel) : Prop := k' ∈ k.successors ps

/-- The awaited symbols are those that some item waits for. -/
theorem mem_awaited {items : List Item} :
    s ∈ awaited ps items ↔ ∃ i ∈ items, i.next? ps = some s := by
  rw [awaited, List.mem_eraseDups, List.mem_filterMap]

/-- Erasing duplicates leaves each entry once. -/
theorem nodup_eraseDups {α : Type} [DecidableEq α] (as : List α) : as.eraseDups.Nodup := by
  induction h : as.length using Nat.strong_induction_on generalizing as with
  | _ n ih =>
    cases as with
    | nil => exact List.nodup_nil
    | cons a as =>
      rw [List.eraseDups_cons, List.nodup_cons]
      refine ⟨?_, ih _ ?_ _ rfl⟩
      · simp [List.mem_eraseDups]
      · rw [← h, List.length_cons, Nat.lt_succ_iff]
        exact List.length_filter_le _ _

/-- Each symbol is awaited once. -/
theorem nodup_awaited (ps : List Production) (items : List Item) : (awaited ps items).Nodup :=
  nodup_eraseDups _

/-- Transitions lead from a kernel by the symbols that its closure waits for, to the advanced
items. -/
theorem leads_iff :
    Leads ps k k' ↔ ∃ s, (∃ i ∈ k.closure ps, i.next? ps = some s) ∧
      advance ps (k.closure ps) s = k' := by
  rw [Leads, successors, List.mem_map]
  simp only [mem_awaited]

/-! ## Kernels are sets of items of the grammar -/

/-- The item is about one of the productions and its dot stands within it. -/
def Item.Fits (ps : List Production) (i : Item) : Prop :=
  i.production < ps.length ∧ i.dot ≤ (i.rhs ps).length

/-- All items of a list of productions. -/
private def allItems (ps : List Production) : List Item :=
  (List.range ps.length).flatMap fun n =>
    (List.range ((Item.start n).rhs ps).length.succ).map fun d => ⟨n, d⟩

/-- The listed items are those with a production in range and a dot within it. -/
private theorem mem_allItems {i : Item} : i ∈ allItems ps ↔ Item.Fits ps i := by
  simp only [allItems, List.mem_flatMap, List.mem_range, List.mem_map, Item.Fits]
  constructor
  · rintro ⟨n, hn, d, hd, rfl⟩
    exact ⟨hn, Nat.lt_succ_iff.1 hd⟩
  · rintro ⟨hn, hd⟩
    exact ⟨i.production, hn, i.dot, Nat.lt_succ_iff.2 hd, rfl⟩

/-- There are as many items as the sizes of the productions say. -/
private theorem length_allItems (ps : List Production) : (allItems ps).length = itemCount ps := by
  have hrhs : ∀ n, (Item.start n).rhs ps = (ps[n]?.map (·.rhs)).getD [] := fun _ => rfl
  have hcount : itemCount ps = (ps.map fun p => p.rhs.length + 1).sum := by
    rw [itemCount, List.sum_eq_foldr, List.foldr_map]
  rw [allItems, List.length_flatMap, hcount]
  congr 1
  refine List.ext_getElem (by simp) fun n h₁ h₂ => ?_
  have hn : n < ps.length := by simpa using h₂
  simp [hrhs, hn]

/-- The items of a kernel fit the productions. -/
private def Fits (ps : List Production) (k : Kernel) : Prop := ∀ i ∈ k, Item.Fits ps i

/-- Distinct kernels of fitting items are no more than sets of items. -/
private theorem length_le_of_fits {kernels : List Kernel} (hnodup : kernels.Nodup)
    (hfits : ∀ k ∈ kernels, Fits ps k) : kernels.length ≤ 2 ^ itemCount ps := by
  -- the members of a kernel are in order, so the set of them determines the kernel
  have hinj : Set.InjOn (fun k : Kernel => k.members.toFinset) (kernels.toFinset : Set Kernel) := by
    intro k _ k' _ h
    refine OrderedSet.ext_mem fun i => ?_
    have := congrArg (i ∈ ·) h
    simpa [OrderedSet.mem_def] using this
  have hmaps : ∀ k ∈ kernels.toFinset, k.members.toFinset ∈ (allItems ps).toFinset.powerset := by
    intro k hk
    rw [Finset.mem_powerset]
    intro i hi
    rw [List.mem_toFinset] at hi ⊢
    exact mem_allItems.2 (hfits k (List.mem_toFinset.1 hk) i hi)
  calc kernels.length = kernels.toFinset.card := (List.toFinset_card_of_nodup hnodup).symm
    _ ≤ (allItems ps).toFinset.powerset.card := Finset.card_le_card_of_injOn _ hmaps hinj
    _ = 2 ^ (allItems ps).toFinset.card := Finset.card_powerset _
    _ ≤ 2 ^ itemCount ps := by
      apply Nat.pow_le_pow_right (by omega)
      rw [← length_allItems]
      exact List.toFinset_card_le _

/-- The closure of items of the grammar consists of items of the grammar. -/
private theorem fits_closure (h : Fits ps k) {i : Item} (hi : i ∈ k.closure ps) :
    Item.Fits ps i := by
  rcases mem_or_predicted_of_mem_closure hi with hi | ⟨j, -, hj⟩
  · exact h i hi
  · refine ⟨hj.production_lt, ?_⟩
    rw [hj.dot_eq_zero]
    exact Nat.zero_le _

/-- A transition from a set of items of the grammar leads to another one. -/
private theorem Fits.leads (h : Fits ps k) (hk : Leads ps k k') : Fits ps k' := by
  obtain ⟨s, -, rfl⟩ := leads_iff.1 hk
  intro j hj
  obtain ⟨i, hi, hs, rfl⟩ := mem_advance.1 hj
  exact ⟨(fits_closure h hi).1, Item.dot_lt_of_next? hs⟩

/-- The start kernel holds an item of the grammar. -/
private theorem fits_initial (hps : ps ≠ []) : Fits ps initial := by
  intro i hi
  rw [initial, OrderedSet.mem_singleton] at hi
  subst hi
  exact ⟨List.length_pos_iff.2 hps, Nat.zero_le _⟩

/-! ## The search -/

/-- Kernels that are discovered are put behind the known ones. -/
private theorem prefix_discover (known found : List Kernel) : known <+: discover known found := by
  induction found generalizing known with
  | nil => exact List.prefix_rfl
  | cons k found ih =>
    unfold discover
    split
    · exact ih known
    · exact (List.prefix_append known [k]).trans (ih _)

/-- A kernel that is known keeps its place. -/
private theorem getElem?_discover {known : List Kernel} {q : ℕ} (h : known[q]? = some k)
    (found : List Kernel) : (discover known found)[q]? = some k := by
  obtain ⟨more, hmore⟩ := prefix_discover known found
  rw [← hmore, List.getElem?_append_left (List.getElem?_eq_some_iff.1 h).1, h]

/-- What is known after a discovery was known before or has been found. -/
private theorem mem_discover {known found : List Kernel} :
    k ∈ discover known found ↔ k ∈ known ∨ k ∈ found := by
  induction found generalizing known with
  | nil => simp [discover]
  | cons k' found ih =>
    rw [discover, ih, List.mem_cons]
    split
    · -- the kernel was known, so leaving it out loses nothing
      rename_i h
      rw [List.contains_iff_mem] at h
      exact ⟨fun hk => hk.imp_right .inr, fun hk => hk.elim .inl fun hk => hk.elim
        (fun e => .inl (e ▸ h)) .inr⟩
    · rw [List.mem_append, List.mem_singleton, or_assoc]

/-- Nothing is discovered twice. -/
private theorem nodup_discover {known : List Kernel} (h : known.Nodup) (found : List Kernel) :
    (discover known found).Nodup := by
  induction found generalizing known with
  | nil => exact h
  | cons k found ih =>
    unfold discover
    split
    · exact ih h
    · rename_i hk
      rw [List.contains_iff_mem] at hk
      refine ih (h.append (List.nodup_singleton k) ?_)
      intro k' hk' e
      rw [List.mem_singleton] at e
      exact hk (e ▸ hk')

/-- What holds of the search when the first `next` kernels have been looked at. -/
private structure Exploring (ps : List Production) (next : ℕ) (known : List Kernel) : Prop where
  nodup : known.Nodup
  head : known[0]? = some initial
  closed : ∀ q < next, ∀ k, known[q]? = some k → ∀ k', Leads ps k k' → k' ∈ known
  origin : ∀ k ∈ known, Relation.ReflTransGen (Leads ps) initial k

/-- The search starts with the start kernel, which has not been looked at. -/
private theorem exploring_initial (ps : List Production) : Exploring ps 0 [initial] where
  nodup := List.nodup_singleton _
  head := rfl
  closed := by simp
  origin := by
    intro k hk
    rw [List.mem_singleton] at hk
    exact hk ▸ .refl

/-- Looking at one more kernel leaves the search well under way. -/
private theorem Exploring.step {next : ℕ} {known : List Kernel} (h : Exploring ps next known)
    (hk : known[next]? = some k) : Exploring ps (next + 1) (discover known (k.successors ps)) := by
  refine ⟨nodup_discover h.nodup _, getElem?_discover h.head _, ?_, ?_⟩
  · intro q hq k₀ hk₀ k' hk'
    rcases Nat.lt_succ_iff_lt_or_eq.1 hq with hq | rfl
    · -- an older kernel keeps its place, so that the invariant speaks of it
      have hlt : q < known.length :=
        Nat.lt_trans hq (List.getElem?_eq_some_iff.1 hk).1
      have hold : known[q]? = some k₀ := by
        rw [← hk₀, List.getElem?_eq_getElem hlt]
        exact (getElem?_discover (List.getElem?_eq_getElem hlt) _).symm
      exact mem_discover.2 (.inl (h.closed q hq k₀ hold k' hk'))
    · have : k₀ = k := Option.some.inj (hk₀.symm.trans (getElem?_discover hk _))
      subst this
      exact mem_discover.2 (.inr hk')
  · intro k' hk'
    rcases mem_discover.1 hk' with hk' | hk'
    · exact h.origin k' hk'
    · exact (h.origin k (List.mem_of_getElem? hk)).tail hk'

/-- All kernels of a search are sets of items of the grammar. -/
private theorem Exploring.fits (hps : ps ≠ []) {next : ℕ} {known : List Kernel}
    (h : Exploring ps next known) : ∀ k ∈ known, Fits ps k := by
  intro k hk
  have hreach := h.origin k hk
  clear hk
  induction hreach with
  | refl => exact fits_initial hps
  | tail _ hlead ih => exact ih.leads hlead

/-- The search from the kernel with the number `next` on. It ends where no kernel is left to be
looked at. -/
inductive Searches (ps : List Production) : ℕ → List Kernel → List Kernel → Prop
  | done {next : ℕ} {known : List Kernel} (hnone : known[next]? = none) :
      Searches ps next known known
  | look {next : ℕ} {known found : List Kernel} {k : Kernel} (hk : known[next]? = some k)
      (h : Searches ps (next + 1) (discover known (k.successors ps)) found) :
      Searches ps next known found

/-- The fuel suffices for the search to end. -/
private theorem Exploring.searches (hps : ps ≠ []) {fuel next : ℕ} {known : List Kernel}
    (h : Exploring ps next known) (hfuel : 2 ^ itemCount ps ≤ fuel + next) :
    Searches ps next known (explore ps fuel next known) := by
  induction fuel generalizing next known with
  | zero =>
    -- as many kernels have been looked at as there can be
    have hlen := length_le_of_fits h.nodup (h.fits hps)
    rw [explore]
    exact .done (List.getElem?_eq_none_iff.2 (by omega))
  | succ fuel ih =>
    rw [explore]
    split
    · rename_i hnone
      exact .done hnone
    · rename_i k hk
      exact .look hk (ih (h.step hk) (by omega))

/-- A search that ends has looked at every kernel that it found. -/
private theorem Exploring.of_searches {next : ℕ} {known found : List Kernel}
    (h : Exploring ps next known) (hsearch : Searches ps next known found) :
    Exploring ps found.length found := by
  induction hsearch with
  | done hnone =>
    rw [List.getElem?_eq_none_iff] at hnone
    exact ⟨h.nodup, h.head, fun q hq => h.closed q (by omega), h.origin⟩
  | look hk _ ih => exact ih (h.step hk)

/-- The search for kernels ends, with the collection. -/
theorem searches_collection (hps : ps ≠ []) : Searches ps 0 [initial] (collection ps) :=
  (exploring_initial ps).searches hps (Nat.le_refl _)

/-- The collection is a search that has looked at every kernel. -/
private theorem exploring_collection (hps : ps ≠ []) :
    Exploring ps (collection ps).length (collection ps) :=
  (exploring_initial ps).of_searches (searches_collection hps)

/-! ## The collection -/

/-- No kernel is listed twice in the collection. -/
theorem nodup_collection (hps : ps ≠ []) : (collection ps).Nodup :=
  (exploring_collection hps).nodup

/-- The start kernel has the number 0. -/
theorem collection_zero (hps : ps ≠ []) : (collection ps)[0]? = some initial :=
  (exploring_collection hps).head

/-- The collection is closed under transitions. -/
theorem mem_collection_of_leads (hps : ps ≠ []) (hk : k ∈ collection ps) (hlead : Leads ps k k') :
    k' ∈ collection ps := by
  obtain ⟨q, hq, rfl⟩ := List.getElem_of_mem hk
  exact (exploring_collection hps).closed q hq _ (List.getElem?_eq_getElem hq) k' hlead

/-- The items of the states are items of the productions. -/
theorem fits_of_mem_collection (hps : ps ≠ []) (hk : k ∈ collection ps) {i : Item}
    (hi : i ∈ k.closure ps) : Item.Fits ps i :=
  fits_closure ((exploring_collection hps).fits hps k hk) hi

/-- The collection holds the kernels that transitions reach from the start kernel, no others. -/
theorem mem_collection_iff (hps : ps ≠ []) :
    k ∈ collection ps ↔ Relation.ReflTransGen (Leads ps) initial k := by
  constructor
  · exact (exploring_collection hps).origin k
  · intro h
    induction h with
    | refl => exact List.mem_of_getElem? (collection_zero hps)
    | tail _ hlead ih => exact mem_collection_of_leads hps ih hlead

end Kernel

end ShiftReduce
