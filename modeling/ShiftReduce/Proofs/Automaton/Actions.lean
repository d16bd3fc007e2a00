import ShiftReduce.Proofs.Automaton.Transitions

/-!
# Actions and conflicts

A candidate of a state and a terminal is an action that some item of the state asks for. The action
in the table is the candidate of the first item that asks for one (`action?_eq_some_iff`), and the
conflicts are the other candidates (`mem_conflicts_iff`), each as often as items ask for it
(`count_conflicts`). If the automaton has no conflicts every candidate is the action
(`action?_of_candidate`): then a state and a terminal have at most one.
-/

namespace ShiftReduce

namespace Automaton

variable {g : Augmented} {sets : Sets} {q t : ℕ} {act : Action}

/-- An action that an item of the state `q` asks for on the terminal `t`. -/
inductive Candidate (g : Augmented) (sets : Sets) (q t : ℕ) : Action → Prop
  | shift {i : Item} {r : ℕ} (hi : i ∈ (build g sets).itemsAt q)
      (hnext : i.next? g.productions = some (.terminal t))
      (hr : (build g sets).target? q (.terminal t) = some r) : Candidate g sets q t (.shift r)
  | accept {i : Item} (hi : i ∈ (build g sets).itemsAt q) (hnext : i.next? g.productions = none)
      (hzero : i.production = 0) (ht : t = g.endMarker) : Candidate g sets q t .accept
  | reduce {i : Item} {p : Production} (hi : i ∈ (build g sets).itemsAt q)
      (hnext : i.next? g.productions = none) (hzero : i.production ≠ 0)
      (hp : g.productions[i.production]? = some p) (ht : t ∈ sets.followAt p.lhs) :
      Candidate g sets q t (.reduce i.production)

/-- The item `i` of the state `q` asks for an action on the terminal `t`. -/
inductive Asks (g : Augmented) (sets : Sets) (q t : ℕ) (i : Item) : Action → Prop
  | shift {r : ℕ} (hnext : i.next? g.productions = some (.terminal t))
      (hr : (build g sets).target? q (.terminal t) = some r) : Asks g sets q t i (.shift r)
  | accept (hnext : i.next? g.productions = none) (hzero : i.production = 0)
      (ht : t = g.endMarker) : Asks g sets q t i .accept
  | reduce {p : Production} (hnext : i.next? g.productions = none) (hzero : i.production ≠ 0)
      (hp : g.productions[i.production]? = some p) (ht : t ∈ sets.followAt p.lhs) :
      Asks g sets q t i (.reduce i.production)

/-- An action is a candidate where an item of the state asks for it. -/
theorem candidate_iff :
    Candidate g sets q t act ↔ ∃ i ∈ (build g sets).itemsAt q, Asks g sets q t i act := by
  constructor
  · intro h
    cases h with
    | @shift i r hi hnext hr => exact ⟨i, hi, .shift hnext hr⟩
    | @accept i hi hnext hzero ht => exact ⟨i, hi, .accept hnext hzero ht⟩
    | @reduce i p hi hnext hzero hp ht => exact ⟨i, hi, .reduce hnext hzero hp ht⟩
  · rintro ⟨i, hi, hasks⟩
    cases hasks with
    | shift hnext hr => exact .shift hi hnext hr
    | accept hnext hzero ht => exact .accept hi hnext hzero ht
    | reduce hnext hzero hp ht => exact .reduce hi hnext hzero hp ht

/-- An item asks for one action on a terminal. -/
theorem Asks.unique {i : Item} {act' : Action} (h : Asks g sets q t i act)
    (h' : Asks g sets q t i act') : act = act' := by
  cases h <;> cases h' <;> simp_all

/-- An item asks for a shift where its dot stands before the terminal, to the target of the
transition. -/
theorem asks_shift_iff {i : Item} {r : ℕ} : Asks g sets q t i (.shift r) ↔
    i.next? g.productions = some (.terminal t) ∧
      (build g sets).target? q (.terminal t) = some r := by
  constructor
  · rintro ⟨hnext, hr⟩
    exact ⟨hnext, hr⟩
  · rintro ⟨hnext, hr⟩
    exact .shift hnext hr

/-- Acceptance is asked for by the complete start item, at the end marker. -/
theorem asks_accept_iff {i : Item} : Asks g sets q t i .accept ↔
    i.next? g.productions = none ∧ i.production = 0 ∧ t = g.endMarker := by
  constructor
  · intro h
    cases h with
    | accept hnext hzero ht => exact ⟨hnext, hzero, ht⟩
  · rintro ⟨hnext, hzero, ht⟩
    exact .accept hnext hzero ht

/-- A reduction is asked for by a complete item of another production, at what can follow its
left-hand side. -/
theorem asks_reduce_iff {i : Item} {k : ℕ} : Asks g sets q t i (.reduce k) ↔
    i.next? g.productions = none ∧ k ≠ 0 ∧ i.production = k ∧
      ∃ p ∈ g.productions[k]?, t ∈ sets.followAt p.lhs := by
  constructor
  · intro h
    cases h with
    | reduce hnext hzero hp ht => exact ⟨hnext, hzero, rfl, _, hp, ht⟩
  · rintro ⟨hnext, hzero, rfl, p, hp, ht⟩
    exact .reduce hnext hzero hp ht

instance (i : Item) : ∀ act, Decidable (Asks g sets q t i act)
  | .shift _ => decidable_of_iff _ asks_shift_iff.symm
  | .accept => decidable_of_iff _ asks_accept_iff.symm
  | .reduce _ => decidable_of_iff _ asks_reduce_iff.symm

/-! ## The row of a state -/

/-- An entry for a key that has its value already is not looked up. -/
theorem lookup_append_cons_of_lookup {row : List (ℕ × Action)} {t' : ℕ} {kept : Action}
    (hkept : row.lookup t' = some kept) (a : Action) (rest : List (ℕ × Action)) :
    (row ++ (t', a) :: rest).lookup t = (row ++ rest).lookup t := by
  rw [List.lookup_append, List.lookup_append, lookup_cons_eq]
  split
  · rename_i h
    rw [h, hkept]
    rfl
  · rfl

/-- The first request for a terminal stands. -/
theorem lookup_settle (row requests : List (ℕ × Action)) :
    (settle q row requests).1.lookup t = (row ++ requests).lookup t := by
  induction requests generalizing row with
  | nil => rw [settle, List.append_nil]
  | cons request rest ih =>
    obtain ⟨t', a⟩ := request
    rw [settle]
    split
    · rw [ih, List.append_assoc]
      rfl
    · rename_i kept hkept
      dsimp only
      rw [ih, lookup_append_cons_of_lookup hkept]

/-- Requests that are settled leave one action for a terminal. -/
theorem nodup_settle {row : List (ℕ × Action)} (h : (row.map Prod.fst).Nodup)
    (requests : List (ℕ × Action)) : ((settle q row requests).1.map Prod.fst).Nodup := by
  induction requests generalizing row with
  | nil => exact h
  | cons request rest ih =>
    obtain ⟨t', a⟩ := request
    rw [settle]
    split
    · -- an entry is added for a terminal that had none
      rename_i hnone
      apply ih
      rw [List.map_append]
      apply h.append (List.nodup_singleton _)
      intro x hx hx'
      obtain rfl := List.mem_singleton.1 hx'
      obtain ⟨⟨x, b⟩, hb, rfl⟩ := List.mem_map.1 hx
      have := List.lookup_eq_none_iff.1 hnone _ hb
      simp at this
    · exact ih h

/-- A state has one action on a terminal at most. -/
theorem nodup_actions {st : AutomatonState} (hst : st ∈ (build g sets).states) :
    (st.actions.map Prod.fst).Nodup := by
  obtain ⟨q, k, rfl⟩ := exists_stateOf hst
  exact nodup_settle (by simp) _

/-- A request that differs from the one that stands is reported each time that it is made. -/
theorem count_settle_conflicts (row requests : List (ℕ × Action)) (c : Conflict) :
    (settle q row requests).2.count c =
      if c.state = q ∧ (row ++ requests).lookup c.terminal = some c.kept ∧ c.rejected ≠ c.kept then
        requests.count (c.terminal, c.rejected)
      else 0 := by
  induction requests generalizing row with
  | nil => simp [settle]
  | cons request rest ih =>
    obtain ⟨t', a⟩ := request
    -- what stands at the place of the request is not the rejected action
    have hfirst : c.rejected ≠ c.kept → (row ++ (t', a) :: rest).lookup c.terminal = some c.kept →
        row.lookup t' = none ∨ row.lookup t' = some a → (t', a) ≠ (c.terminal, c.rejected) := by
      rintro hne hlookup hstands heq
      obtain ⟨rfl, rfl⟩ := Prod.mk.inj heq
      rw [List.lookup_append] at hlookup
      rcases hstands with hstands | hstands <;> simp [hstands, hne] at hlookup
    rw [settle]
    split
    · rename_i hnone
      rw [ih, List.append_assoc, List.singleton_append]
      refine if_ctx_congr Iff.rfl (fun h => ?_) fun _ => rfl
      rw [List.count_cons_of_ne (hfirst h.2.2 h.2.1 (.inl hnone))]
    · rename_i kept hkept
      dsimp only
      have hstands : (row ++ rest).lookup t' = some kept := by
        rw [List.lookup_append, hkept]
        rfl
      rw [lookup_append_cons_of_lookup hkept] at hfirst ⊢
      split
      · rename_i hsame
        subst hsame
        rw [ih]
        refine if_ctx_congr Iff.rfl (fun h => ?_) fun _ => rfl
        rw [List.count_cons_of_ne (hfirst h.2.2 h.2.1 (.inr hkept))]
      · rename_i hdiffer
        by_cases hc : (⟨q, t', kept, a⟩ : Conflict) = c
        · subst hc
          rw [List.count_cons_self, ih, if_pos ⟨rfl, hstands, Ne.symm hdiffer⟩,
            if_pos ⟨rfl, hstands, Ne.symm hdiffer⟩, List.count_cons_self]
        · rw [List.count_cons_of_ne hc, ih]
          refine if_ctx_congr Iff.rfl (fun h => ?_) fun _ => rfl
          obtain ⟨hstate, hlookup, -⟩ := h
          rw [List.count_cons_of_ne]
          intro heq
          obtain ⟨rfl, rfl⟩ := Prod.mk.inj heq
          obtain rfl := Option.some.inj (hstands.symm.trans hlookup)
          exact hc (Conflict.mk.injEq .. ▸ ⟨hstate.symm, rfl, rfl, rfl⟩)

/-- What is listed for one place alone is counted there. -/
theorem count_flatMap_mapIdx {α β γ : Type} [BEq γ] {f : ℕ → α → β} {h : β → List γ} {c : γ} {n : ℕ}
    (hother : ∀ i ≠ n, ∀ a, (h (f i a)).count c = 0) (as : List α) :
    ((as.mapIdx f).flatMap h).count c = ((as[n]?).map fun a => (h (f n a)).count c).getD 0 := by
  induction as generalizing f n with
  | nil => rfl
  | cons a as ih =>
    rw [List.mapIdx_cons, List.flatMap_cons, List.count_append]
    cases n with
    | zero =>
      rw [ih (n := as.length) fun i _ => hother (i + 1) (Nat.succ_ne_zero i),
        List.getElem?_eq_none (Nat.le_refl _)]
      rfl
    | succ n =>
      rw [hother 0 (Nat.zero_ne_add_one n), Nat.zero_add,
        ih (n := n) fun i hi => hother (i + 1) (by omega)]
      rfl

/-! ## The requests of a state -/

/-- The requests of an item in the state of a kernel. -/
private def requestsIn (g : Augmented) (sets : Sets) (k : Kernel) (i : Item) : List (ℕ × Action) :=
  requests g sets
    (edgesOf g.productions (Kernel.collection g.productions) (k.closure g.productions)) i

/-- The requests of the items of a kernel. -/
private def requestsOf (g : Augmented) (sets : Sets) (k : Kernel) : List (ℕ × Action) :=
  (k.closure g.productions).flatMap (requestsIn g sets k)

/-- The action of a state on a terminal is looked up in the row that its requests lead to. -/
private theorem action?_eq (g : Augmented) (sets : Sets) (q t : ℕ) :
    (build g sets).action? q t = ((Kernel.collection g.productions)[q]?).bind
      fun k => (requestsOf g sets k).lookup t := by
  rw [action?, getElem?_states]
  cases (Kernel.collection g.productions)[q]? with
  | none => rfl
  | some k =>
    rw [Option.map_some, Option.bind_some, Option.bind_some]
    exact lookup_settle [] _

/-- The transition of a state on a symbol is looked up among those of its kernel. -/
private theorem target?_eq (g : Augmented) (sets : Sets) {k : Kernel} (s : Symbol)
    (hk : (Kernel.collection g.productions)[q]? = some k) :
    (build g sets).target? q s = (edgesOf g.productions (Kernel.collection g.productions)
      (k.closure g.productions)).lookup s := by
  rw [target?, getElem?_states, hk]
  rfl

/-- The requests of an item are the actions that it asks for. -/
private theorem mem_requests {k : Kernel} {i : Item}
    (hk : (Kernel.collection g.productions)[q]? = some k) :
    (t, act) ∈ requestsIn g sets k i ↔ Asks g sets q t i act := by
  rw [requestsIn]
  constructor
  · intro hreq
    -- the symbol behind the dot says what an item asks for: a shift, nothing, or a reduction
    rw [requests] at hreq
    split at hreq
    · rename_i t' hnext
      rw [Option.mem_toList, Option.map_eq_some_iff] at hreq
      obtain ⟨r, hr, heq⟩ := hreq
      obtain ⟨rfl, rfl⟩ := Prod.mk.inj heq
      exact .shift hnext ((target?_eq g sets _ hk).trans hr)
    · exact absurd hreq List.not_mem_nil
    · rename_i hnext
      split at hreq
      · rename_i hzero
        obtain ⟨rfl, rfl⟩ := Prod.mk.inj (List.mem_singleton.1 hreq)
        exact .accept hnext hzero rfl
      · rename_i hzero
        split at hreq
        · rename_i p hp
          obtain ⟨t', ht', heq⟩ := List.mem_map.1 hreq
          obtain ⟨rfl, rfl⟩ := Prod.mk.inj heq
          exact .reduce hnext hzero hp ht'
        · exact absurd hreq List.not_mem_nil
  · intro hasks
    cases hasks with
    | shift hnext hr =>
      rw [target?_eq g sets _ hk] at hr
      simp [requests, hnext, hr]
    | accept hnext hzero ht => simp [requests, hnext, hzero, ht]
    | reduce hnext hzero hp ht =>
      simp only [requests, hnext, if_neg hzero, hp]
      exact List.mem_map.2 ⟨t, ht, rfl⟩

/-- An item has one request for a terminal at most, so that looking it up finds it. -/
private theorem lookup_requests {k : Kernel} {i : Item}
    (hk : (Kernel.collection g.productions)[q]? = some k) :
    (requestsIn g sets k i).lookup t = some act ↔ Asks g sets q t i act := by
  have hasks : ∀ {a}, (requestsIn g sets k i).lookup t = some a → Asks g sets q t i a := by
    intro a hlookup
    obtain ⟨before, after, heq, -⟩ := List.lookup_eq_some_iff.1 hlookup
    rw [← mem_requests hk, heq]
    simp
  refine ⟨hasks, fun h => ?_⟩
  cases hlookup : (requestsIn g sets k i).lookup t with
  | none =>
    have := List.lookup_eq_none_iff.1 hlookup _ ((mem_requests hk).2 h)
    simp at this
  | some a => rw [(hasks hlookup).unique h]

/-- The items of a state are the closure of its kernel. -/
private theorem itemsAt_eq {k : Kernel} (hk : (Kernel.collection g.productions)[q]? = some k) :
    (build g sets).itemsAt q = k.closure g.productions := by
  rw [itemsAt, getElem?_states, hk]
  rfl

/-- The requests for a terminal are its candidates. -/
private theorem mem_requestsOf {k : Kernel}
    (hk : (Kernel.collection g.productions)[q]? = some k) :
    (t, act) ∈ requestsOf g sets k ↔ Candidate g sets q t act := by
  rw [candidate_iff, itemsAt_eq hk, requestsOf, List.mem_flatMap]
  simp only [mem_requests hk]

/-- An item has no request twice. -/
private theorem nodup_requests (k : Kernel) (i : Item) : (requestsIn g sets k i).Nodup := by
  rw [requestsIn, requests]
  split
  · rename_i t _
    cases (edgesOf g.productions (Kernel.collection g.productions)
      (k.closure g.productions)).lookup (.terminal t) <;> simp
  · exact List.nodup_nil
  · split
    · exact List.nodup_singleton _
    · split
      · rename_i p _
        exact (sets.followAt p.lhs).members_nodup.map fun t t' h => (Prod.mk.inj h).1
      · exact List.nodup_nil

/-- A request is made by as many items as ask for it. -/
private theorem count_requestsOf {k : Kernel}
    (hk : (Kernel.collection g.productions)[q]? = some k) :
    (requestsOf g sets k).count (t, act) =
      ((build g sets).itemsAt q).countP (Asks g sets q t · act) := by
  rw [requestsOf, itemsAt_eq hk]
  induction k.closure g.productions with
  | nil => rfl
  | cons i is ih =>
    rw [List.flatMap_cons, List.count_append, ih, (nodup_requests k i).count, List.countP_cons,
      Nat.add_comm]
    simp only [mem_requests hk, decide_eq_true_eq]

/-- A look-up in the lists of several owners finds the entry of the first who has one. -/
private theorem lookup_flatMap {α : Type} (f : α → List (ℕ × Action)) (as : List α) :
    (as.flatMap f).lookup t = as.findSome? fun a => (f a).lookup t := by
  induction as with
  | nil => rfl
  | cons a as ih =>
    rw [List.flatMap_cons, List.lookup_append, List.findSome?_cons, ih]
    cases (f a).lookup t <;> rfl

/-! ## Actions and conflicts are candidates -/

/-- The action of a state on a terminal is the one that the first item asks for that asks for
any. -/
theorem action?_eq_some_iff : (build g sets).action? q t = some act ↔
    ∃ before i after, (build g sets).itemsAt q = before ++ i :: after ∧ Asks g sets q t i act ∧
      ∀ j ∈ before, ∀ a, ¬ Asks g sets q t j a := by
  rw [action?_eq]
  cases hk : (Kernel.collection g.productions)[q]? with
  | none =>
    have hnil : (build g sets).itemsAt q = [] := by
      rw [itemsAt, getElem?_states, hk]
      rfl
    simp [hnil]
  | some k =>
    rw [Option.bind_some, requestsOf, lookup_flatMap, List.findSome?_eq_some_iff, itemsAt_eq hk]
    simp only [lookup_requests hk, Option.eq_none_iff_forall_ne_some, ne_eq]

/-- The action of a state on a terminal is one that an item of the state asks for. -/
theorem candidate_of_action? (h : (build g sets).action? q t = some act) :
    Candidate g sets q t act := by
  obtain ⟨before, i, after, heq, hasks, -⟩ := action?_eq_some_iff.1 h
  refine candidate_iff.2 ⟨i, ?_, hasks⟩
  rw [heq]
  simp

/-- If an item asks for an action, the state has one. -/
theorem exists_action?_of_candidate (h : Candidate g sets q t act) :
    ∃ kept, (build g sets).action? q t = some kept := by
  obtain ⟨i, hi, hasks⟩ := candidate_iff.1 h
  obtain ⟨k, hk, -⟩ := mem_itemsAt.1 hi
  rw [action?_eq, hk, Option.bind_some, ← Option.isSome_iff_exists, Option.isSome_iff_ne_none]
  intro hnone
  have := List.lookup_eq_none_iff.1 hnone _ ((mem_requestsOf hk).2 h)
  simp at this

/-- A conflict is reported as often as items of its state ask for the rejected action. -/
theorem count_conflicts (g : Augmented) (sets : Sets) (c : Conflict) :
    (build g sets).conflicts.count c =
      if (build g sets).action? c.state c.terminal = some c.kept ∧ c.rejected ≠ c.kept then
        ((build g sets).itemsAt c.state).countP (Asks g sets c.state c.terminal · c.rejected)
      else 0 := by
  have hother : ∀ q ≠ c.state, ∀ k : Kernel,
      (stateOf g sets (Kernel.collection g.productions) q k).2.count c = 0 := by
    intro q hq k
    exact (count_settle_conflicts _ _ c).trans (if_neg fun h => hq h.1.symm)
  -- the other states report their own conflicts
  refine (count_flatMap_mapIdx hother (Kernel.collection g.productions)).trans ?_
  rw [action?_eq]
  cases hk : (Kernel.collection g.productions)[c.state]? with
  | none => simp
  | some k =>
    rw [Option.map_some, Option.getD_some, Option.bind_some, ← count_requestsOf hk]
    refine (count_settle_conflicts [] (requestsOf g sets k) c).trans ?_
    simp only [true_and, List.nil_append]

/-- The conflicts are the candidates that are not the action. -/
theorem mem_conflicts_iff {c : Conflict} : c ∈ (build g sets).conflicts ↔
    (build g sets).action? c.state c.terminal = some c.kept ∧
      Candidate g sets c.state c.terminal c.rejected ∧ c.rejected ≠ c.kept := by
  have hasked : 0 < ((build g sets).itemsAt c.state).countP
      (Asks g sets c.state c.terminal · c.rejected) ↔
        Candidate g sets c.state c.terminal c.rejected := by
    simp only [candidate_iff, List.countP_pos_iff, decide_eq_true_eq]
  rw [← List.count_pos_iff, count_conflicts]
  split
  · rename_i h
    rw [hasked]
    exact ⟨fun hcandidate => ⟨h.1, hcandidate, h.2⟩, fun h => h.2.1⟩
  · rename_i h
    exact ⟨fun hpos => absurd hpos (Nat.lt_irrefl 0), fun h' => absurd ⟨h'.1, h'.2.2⟩ h⟩

/-- Without conflicts an action that an item of the state asks for is the action of the state. -/
theorem action?_of_candidate (hc : (build g sets).conflicts = [])
    (h : Candidate g sets q t act) : (build g sets).action? q t = some act := by
  obtain ⟨kept, hkept⟩ := exists_action?_of_candidate h
  rw [hkept]
  by_contra hne
  have hmem : (⟨q, t, kept, act⟩ : Conflict) ∈ (build g sets).conflicts :=
    mem_conflicts_iff.2 ⟨hkept, h, fun heq => hne (congrArg some heq.symm)⟩
  rw [hc] at hmem
  exact List.not_mem_nil hmem

end Automaton

end ShiftReduce
