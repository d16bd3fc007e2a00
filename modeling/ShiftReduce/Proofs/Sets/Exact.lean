import ShiftReduce.Proofs.Grammar.Rewriting
import ShiftReduce.Proofs.Sets.FixedPoint

/-!
# FIRST and FOLLOW are exact

The solved sets hold exactly what can be derived. Every step of a pass keeps them sound: what it
adds is derived by a production from what was found before (`Sets.Sound`). They are complete because
they are closed under the productions: FIRST of a form can only shrink when the form is rewritten,
and whatever stands behind a nonterminal of a form that is derived stays in FOLLOW of it
(`Sets.Covered`).

The main statements are `first_exact`, for every form of symbols of the grammar, and `follow_exact`.
-/

namespace ShiftReduce

/-- The set says of a form whether it derives the empty form, and which terminals begin the forms
that it derives. -/
structure FirstSet.IsFirstOf (f : FirstSet) (ps : List Production) (φ : List Symbol) : Prop where
  nullable_iff : f.nullable = true ↔ Derives ps φ []
  mem_iff : ∀ t, t ∈ f.terminals ↔ ∃ rest, Derives ps φ (.terminal t :: rest)

/-- The terminal stands right behind the nonterminal in a form that some nonterminal derives in one
or more steps, or it is the end marker and the start symbol derives a form that ends with the
nonterminal. -/
inductive Follows (g : Augmented) (n : ℕ) : ℕ → Prop
  | inner {A t : ℕ} {before after : List Symbol}
      (h : DerivesStrictly g.productions [.nonterminal A]
        (before ++ .nonterminal n :: .terminal t :: after)) : Follows g n t
  | last {before : List Symbol}
      (h : Derives g.productions [.nonterminal g.start] (before ++ [.nonterminal n])) :
      Follows g n g.endMarker

namespace Sets

variable {g : Augmented} {s : Sets} {p : Production} {n t : ℕ} {φ ψ : List Symbol}

/-! ## FIRST of sequences -/

/-- A sequence derives the empty sequence if both its parts do. -/
theorem nullable_firstOf_append (xs ys : List Symbol) :
    (s.firstOf (xs ++ ys)).nullable = ((s.firstOf xs).nullable && (s.firstOf ys).nullable) := by
  induction xs with
  | nil => rfl
  | cons x xs ih =>
    cases x with
    | terminal t => rfl
    | nonterminal n =>
      rw [List.cons_append, firstOf, firstOf]
      split
      · exact ih
      · rfl

/-- A sequence begins as its first part does, or as its second part if the first can be empty. -/
theorem mem_firstOf_append (xs ys : List Symbol) :
    t ∈ (s.firstOf (xs ++ ys)).terminals ↔
      t ∈ (s.firstOf xs).terminals ∨
        (s.firstOf xs).nullable = true ∧ t ∈ (s.firstOf ys).terminals := by
  induction xs with
  | nil => simp [firstOf]
  | cons x xs ih =>
    cases x with
    | terminal n => simp [firstOf]
    | nonterminal n =>
      rw [List.cons_append, firstOf, firstOf]
      split
      · simp only [OrderedSet.mem_union, ih, or_assoc]
      · simp

/-- FIRST of a nonterminal alone is what is listed for it. -/
theorem mem_firstOf_nonterminal (n : ℕ) :
    t ∈ (s.firstOf [.nonterminal n]).terminals ↔ t ∈ (s.firstAt n).terminals := by
  rw [firstOf]
  split <;> simp [firstOf]

/-- A nonterminal alone vanishes if it is listed as nullable. -/
theorem nullable_firstOf_nonterminal (n : ℕ) :
    (s.firstOf [.nonterminal n]).nullable = (s.firstAt n).nullable := by
  rw [firstOf]
  split
  · rename_i h
    rw [h]
    rfl
  · rename_i h
    simpa using h

/-! ## Soundness -/

/-- What the sets state can be derived. -/
structure Sound (g : Augmented) (s : Sets) : Prop where
  first : ∀ n, ∀ t ∈ (s.firstAt n).terminals,
    ∃ rest, Derives g.productions [.nonterminal n] (.terminal t :: rest)
  nullable : ∀ n, (s.firstAt n).nullable = true → Derives g.productions [.nonterminal n] []
  follow : ∀ n, ∀ t ∈ s.followAt n, Follows g n t

/-- With sound sets, a sequence that is nullable derives the empty one. -/
theorem Sound.derives_nil (hs : Sound g s) (h : (s.firstOf φ).nullable = true) :
    Derives g.productions φ [] := by
  induction φ with
  | nil => exact .refl
  | cons x φ ih =>
    cases x with
    | terminal t => exact absurd h (by simp [firstOf])
    | nonterminal n =>
      rw [← List.singleton_append, nullable_firstOf_append, Bool.and_eq_true,
        nullable_firstOf_nonterminal] at h
      exact (hs.nullable n h.1).append (ih h.2)

/-- With sound sets, a sequence derives something that begins with each terminal of its FIRST. -/
theorem Sound.derives_cons (hs : Sound g s) (h : t ∈ (s.firstOf φ).terminals) :
    ∃ rest, Derives g.productions φ (.terminal t :: rest) := by
  induction φ with
  | nil => exact absurd h (OrderedSet.notMem_empty t)
  | cons x φ ih =>
    cases x with
    | terminal a =>
      rw [firstOf, OrderedSet.mem_singleton] at h
      exact ⟨φ, h ▸ .refl⟩
    | nonterminal n =>
      rw [← List.singleton_append, mem_firstOf_append, mem_firstOf_nonterminal,
        nullable_firstOf_nonterminal] at h
      rcases h with h | ⟨hempty, h⟩
      · obtain ⟨rest, hrest⟩ := hs.first n t h
        exact ⟨rest ++ φ, hrest.append_right φ⟩
      · obtain ⟨rest, hrest⟩ := ih h
        exact ⟨rest, (hs.nullable n hempty).append hrest⟩

/-- What a right-hand side begins with, its left-hand side begins with. -/
theorem sound_growFirst (hg : g.Indexed) (hfits : Fits g s) (hs : Sound g s)
    (hp : p ∈ g.productions) : Sound g (growFirst s p).1 := by
  have hlt : p.lhs < s.first.length := hfits.length_first ▸ hg.lhs_lt p hp
  have hat := fun m => firstAt_set (m := m) hlt ((s.firstAt p.lhs).merge (s.firstOf p.rhs))
  refine ⟨?_, ?_, hs.follow⟩
  · intro m t ht
    rw [growFirst, hat] at ht
    split at ht
    · rename_i hm
      subst hm
      rcases OrderedSet.mem_union.1 ht with ht | ht
      · exact hs.first _ t ht
      · obtain ⟨rest, hrest⟩ := hs.derives_cons ht
        exact ⟨rest, .head (.of_mem hp) hrest⟩
    · exact hs.first m t ht
  · intro m hm
    rw [growFirst, hat] at hm
    split at hm
    · rename_i heq
      subst heq
      rcases Bool.or_eq_true_iff.1 hm with hm | hm
      · exact hs.nullable _ hm
      · exact .head (.of_mem hp) (hs.derives_nil hm)
    · exact hs.nullable m hm

/-- What stands behind a nonterminal of a right-hand side follows it. -/
theorem Sound.follows_of_mem_added (hs : Sound g s) (hp : p ∈ g.productions)
    {before after : List Symbol} (hrhs : p.rhs = before ++ .nonterminal n :: after)
    (ht : t ∈ s.added p.lhs after) : Follows g n t := by
  have hstep : Rewrites g.productions [.nonterminal p.lhs] (before ++ .nonterminal n :: after) :=
    hrhs ▸ .of_mem hp
  rcases mem_added.1 ht with ht | ⟨hempty, ht⟩
  · obtain ⟨rest, hrest⟩ := hs.derives_cons ht
    exact .inner (.head' hstep ((hrest.append_left [.nonterminal n]).append_left before))
  · -- the symbols behind it vanish, so what follows the left-hand side comes up
    have hvanish : Derives g.productions [.nonterminal p.lhs] (before ++ [.nonterminal n]) :=
      .head hstep (((hs.derives_nil hempty).append_left [.nonterminal n]).append_left before)
    cases hs.follow _ t ht with
    | @inner A t above below h =>
      have hbelow := (hvanish.append_right (.terminal t :: below)).append_left above
      simp only [List.append_assoc, List.cons_append, List.nil_append] at hbelow
      rw [← List.append_assoc] at hbelow
      exact .inner (h.trans_left hbelow)
    | @last above h =>
      have hbelow := hvanish.append_left above
      rw [← List.append_assoc] at hbelow
      exact .last (h.trans hbelow)

/-- Adding to FOLLOW what can follow leaves the sets sound. -/
theorem sound_follow (hfits : Fits g s) (hs : Sound g s) (hn : n < g.nonterminals.size)
    {added : OrderedSet ℕ} (hadded : ∀ t ∈ added, Follows g n t) :
    Sound g { s with follow := s.follow.set n (s.followAt n ∪ added) } := by
  have hlt : n < s.follow.length := hfits.length_follow ▸ hn
  refine ⟨hs.first, hs.nullable, fun m t ht => ?_⟩
  rw [followAt_set hlt] at ht
  split at ht
  · rename_i hm
    subst hm
    rcases OrderedSet.mem_union.1 ht with ht | ht
    · exact hs.follow _ t ht
    · exact hadded t ht
  · exact hs.follow m t ht

/-- Going through a right-hand side leaves the sets sound. -/
theorem sound_growFollow (hg : g.Indexed) (hp : p ∈ g.productions) {before rhs : List Symbol}
    (hrhs : p.rhs = before ++ rhs) (hfits : Fits g s) (hs : Sound g s) :
    Sound g (growFollow p.lhs s rhs).1 := by
  induction rhs generalizing s before with
  | nil => exact hs
  | cons x rest ih =>
    have hrest : p.rhs = (before ++ [x]) ++ rest := by
      rw [List.append_assoc]
      exact hrhs
    cases x with
    | terminal t => exact ih hrest hfits hs
    | nonterminal n =>
      have hinRange : ∀ y ∈ .nonterminal n :: rest, g.grammar.InRange y := fun y hy =>
        hg.rhs_inRange p hp y (hrhs ▸ List.mem_append_right _ hy)
      have hn : n < g.nonterminals.size := hinRange _ List.mem_cons_self
      have hlt := hfits.added_lt p.lhs fun y hy => hinRange y (List.mem_cons_of_mem _ hy)
      rw [growFollow_nonterminal]
      exact ih hrest (grown_follow hfits hn hlt).fits
        (sound_follow hfits hs hn fun t ht => hs.follows_of_mem_added hp hrhs ht)

/-- What every step of a sweep keeps, the sweep keeps. -/
theorem sweep_induction {P : Sets → Prop} {step : Sets → Production → Sets × Bool}
    {ps : List Production} (hstep : ∀ p ∈ ps, ∀ s, P s → P (step s p).1) (hs : P s) :
    P (sweep step s ps).1 := by
  induction ps generalizing s with
  | nil => exact hs
  | cons p ps ih =>
    exact ih (fun q hq => hstep q (List.mem_cons_of_mem _ hq)) (hstep p List.mem_cons_self s hs)

/-- What holds initially and is kept by every step at a production holds of the solved sets. -/
theorem solve_induction {P : Sets → Prop} (hinitial : P (initial g))
    (hfirst : ∀ p ∈ g.productions, ∀ s, P s → P (growFirst s p).1)
    (hfollow : ∀ p ∈ g.productions, ∀ s, P s → P (growFollow p.lhs s p.rhs).1) :
    P (solve g) := by
  have hpasses : ∀ fuel s, P s → ∀ r ∈ passesFrom g fuel s, P r.1 := by
    intro fuel
    induction fuel with
    | zero => simp [passesFrom]
    | succ fuel ih =>
      intro s hs r hr
      have hgrow : P (grow g s).1 := sweep_induction hfollow (sweep_induction hfirst hs)
      rw [passesFrom] at hr
      rcases List.mem_cons.1 hr with rfl | hr
      · exact hgrow
      · split at hr
        · exact ih _ hgrow r hr
        · exact absurd hr List.not_mem_nil
  rw [solve]
  cases hlast : (passes g).getLast? with
  | none => exact hinitial
  | some r => exact hpasses _ _ hinitial r (List.mem_of_getLast? hlast)

/-- The initial sets are sound: only the end marker is listed, behind the start symbol. -/
theorem sound_initial (hg : g.Indexed) : Sound g (initial g) := by
  refine ⟨fun n t ht => ?_, fun n hn => ?_, fun n t ht => ?_⟩
  · rw [firstAt_initial] at ht
    exact absurd ht (OrderedSet.notMem_empty t)
  · rw [firstAt_initial] at hn
    exact absurd hn Bool.false_ne_true
  · obtain ⟨rfl, rfl⟩ := (mem_followAt_initial hg).1 ht
    exact .last (.refl : Derives _ _ ([] ++ _))

/-- What the solved sets state can be derived. -/
theorem sound_solve (hg : g.Indexed) : Sound g (solve g) := by
  have h : Fits g (solve g) ∧ Sound g (solve g) := by
    refine solve_induction (P := fun s => Fits g s ∧ Sound g s)
      ⟨fits_initial hg, sound_initial hg⟩ ?_ ?_
    · rintro p hp s ⟨hfits, hs⟩
      exact ⟨(grown_growFirst hg hfits hp).fits, sound_growFirst hg hfits hs hp⟩
    · rintro p hp s ⟨hfits, hs⟩
      exact ⟨(grown_growFollow hfits (hg.rhs_inRange p hp)).fits,
        sound_growFollow hg hp (List.nil_append _).symm hfits hs⟩
  exact h.2

/-! ## Completeness -/

/-- FIRST of a form shrinks when the form is rewritten. -/
theorem Closed.firstOf_rewrites {ps : List Production} (hs : Closed ps s) (h : Rewrites ps φ ψ) :
    (∀ t ∈ (s.firstOf ψ).terminals, t ∈ (s.firstOf φ).terminals) ∧
      ((s.firstOf ψ).nullable = true → (s.firstOf φ).nullable = true) := by
  obtain ⟨hp, before, after⟩ := h
  rw [← List.singleton_append]
  simp only [nullable_firstOf_append, mem_firstOf_append, nullable_firstOf_nonterminal,
    mem_firstOf_nonterminal, Bool.and_eq_true]
  have hfirst := hs.first _ hp
  have hnullable := hs.nullable _ hp
  constructor
  · rintro t (ht | ⟨hbefore, ht | ⟨hrhs, ht⟩⟩)
    · exact .inl ht
    · exact .inr ⟨hbefore, .inl (hfirst t ht)⟩
    · exact .inr ⟨hbefore, .inr ⟨hnullable hrhs, ht⟩⟩
  · rintro ⟨hbefore, hrhs, hafter⟩
    exact ⟨hbefore, hnullable hrhs, hafter⟩

/-- With closed sets, a sequence begins with everything that what it derives begins with. -/
theorem Closed.firstOf_derives {ps : List Production} (hs : Closed ps s) (h : Derives ps φ ψ) :
    (∀ t ∈ (s.firstOf ψ).terminals, t ∈ (s.firstOf φ).terminals) ∧
      ((s.firstOf ψ).nullable = true → (s.firstOf φ).nullable = true) := by
  induction h with
  | refl => exact ⟨fun _ h => h, id⟩
  | tail _ hstep ih =>
    have := hs.firstOf_rewrites hstep
    exact ⟨fun t ht => ih.1 t (this.1 t ht), fun h => ih.2 (this.2 h)⟩

/-- The terminal comes up where `rest` stands: `rest` begins with it, or `rest` vanishes and it
stands behind. -/
def Comes (s : Sets) (behind : ℕ → Prop) (rest : List Symbol) (t : ℕ) : Prop :=
  t ∈ (s.firstOf rest).terminals ∨ (s.firstOf rest).nullable = true ∧ behind t

/-- FOLLOW of each nonterminal of a form holds what comes up behind it. -/
def Covered (s : Sets) (behind : ℕ → Prop) : List Symbol → Prop
  | [] => True
  | .terminal _ :: rest => s.Covered behind rest
  | .nonterminal n :: rest =>
    (∀ t, s.Comes behind rest t → t ∈ s.followAt n) ∧ s.Covered behind rest

variable {behind behind' : ℕ → Prop}

/-- A terminal that comes up at the front of a sequence comes up in its first part, before what
comes up in the second. -/
theorem comes_append {xs ys : List Symbol} :
    s.Comes behind (xs ++ ys) t ↔ s.Comes (s.Comes behind ys) xs t := by
  simp only [Comes, mem_firstOf_append, nullable_firstOf_append, Bool.and_eq_true]
  tauto

/-- What comes up stays when more stands behind. -/
theorem Comes.imp (h : s.Comes behind φ t) (himp : ∀ t, behind t → behind' t) :
    s.Comes behind' φ t :=
  Or.imp_right (And.imp_right (himp t)) h

/-- A form is covered when its parts are, the first one before what comes up in the second. -/
theorem covered_append {xs ys : List Symbol} : s.Covered behind (xs ++ ys) ↔
    s.Covered (s.Comes behind ys) xs ∧ s.Covered behind ys := by
  induction xs with
  | nil => simp [Covered]
  | cons x xs ih =>
    cases x with
    | terminal t => exact ih
    | nonterminal n => simp only [List.cons_append, Covered, comes_append, ih, and_assoc]

/-- A form stays covered when less stands behind. -/
theorem Covered.imp (h : s.Covered behind φ) (himp : ∀ t, behind' t → behind t) :
    s.Covered behind' φ := by
  induction φ with
  | nil => trivial
  | cons x φ ih =>
    cases x with
    | terminal t => exact ih h
    | nonterminal n => exact ⟨fun t ht => h.1 t (ht.imp himp), ih h.2⟩

/-- Within a right-hand side everything is covered, with FOLLOW of the left-hand side behind. -/
theorem Closed.covered_rhs {ps : List Production} (hs : Closed ps s) (hp : p ∈ ps)
    {before rest : List Symbol} (hrhs : p.rhs = before ++ rest) :
    s.Covered (· ∈ s.followAt p.lhs) rest := by
  induction rest generalizing before with
  | nil => trivial
  | cons x rest ih =>
    have hrest : p.rhs = (before ++ [x]) ++ rest := by
      rw [List.append_assoc]
      exact hrhs
    cases x with
    | terminal t => exact ih hrest
    | nonterminal n =>
      exact ⟨fun t ht => hs.follow p hp before n rest hrhs t (mem_added.2 ht), ih hrest⟩

/-- A form that is covered stays so when it is rewritten. -/
theorem Closed.covered_rewrites {ps : List Production} (hs : Closed ps s) (h : Rewrites ps φ ψ)
    (hφ : s.Covered behind φ) : s.Covered behind ψ := by
  obtain ⟨hp, before, after⟩ := h
  rw [covered_append] at hφ
  obtain ⟨hbefore, hlhs, hafter⟩ := hφ
  rw [covered_append, covered_append]
  refine ⟨hbefore.imp fun t ht => ?_, (hs.covered_rhs hp (List.nil_append _).symm).imp hlhs, hafter⟩
  -- what comes up in place of the right-hand side came up in place of the left-hand side
  have hshrinks := hs.firstOf_rewrites (.step hp [] after)
  exact ht.elim (fun ht => .inl (hshrinks.1 t ht)) fun ht => .inr ⟨hshrinks.2 ht.1, ht.2⟩

/-- With closed sets, what a covered form derives is covered. -/
theorem Closed.covered_derives {ps : List Production} (hs : Closed ps s) (h : Derives ps φ ψ)
    (hφ : s.Covered behind φ) : s.Covered behind ψ := by
  induction h with
  | refl => exact hφ
  | tail _ hstep ih => exact hs.covered_rewrites hstep ih

/-! ## Exactness -/

/-- FIRST over the solved sets, of any form. -/
theorem isFirstOf_solve (hg : g.Indexed) (φ : List Symbol) :
    ((solve g).firstOf φ).IsFirstOf g.productions φ where
  nullable_iff := by
    refine ⟨(sound_solve hg).derives_nil, fun h => ?_⟩
    exact ((closed_solve hg).firstOf_derives h).2 rfl
  mem_iff t := by
    refine ⟨(sound_solve hg).derives_cons, ?_⟩
    rintro ⟨rest, h⟩
    exact ((closed_solve hg).firstOf_derives h).1 t (by simp [firstOf])

/-- The FIRST sets that are listed are exact. -/
theorem isFirstOf_firstAt_solve (hg : g.Indexed) (n : ℕ) :
    ((solve g).firstAt n).IsFirstOf g.productions [.nonterminal n] := by
  have h := isFirstOf_solve hg [.nonterminal n]
  refine ⟨?_, fun t => ?_⟩
  · rw [← nullable_firstOf_nonterminal]
    exact h.nullable_iff
  · rw [← mem_firstOf_nonterminal]
    exact h.mem_iff t

/-- FOLLOW of a nonterminal holds the terminals that can stand right behind it. -/
theorem mem_followAt_solve_iff (hg : g.Indexed) : t ∈ (solve g).followAt n ↔ Follows g n t := by
  refine ⟨(sound_solve hg).follow n t, fun h => ?_⟩
  cases h with
  | @inner A t before after h =>
    have hA : (solve g).Covered (fun _ => False) [.nonterminal A] := by
      simp [Covered, Comes, firstOf]
    have hform := (closed_solve hg).covered_derives h.to_reflTransGen hA
    exact (covered_append.1 hform).2.1 t (.inl (by simp [firstOf]))
  | @last before h =>
    have hstart : (solve g).Covered (· = g.endMarker) [.nonterminal g.start] := by
      simpa [Covered, Comes, firstOf] using endMarker_mem_solve hg
    have hform := (closed_solve hg).covered_derives h hstart
    exact (covered_append.1 hform).2.1 _ (.inr ⟨rfl, rfl⟩)

end Sets

namespace Grammar

variable {g : Grammar}

/-- FIRST of a form of symbols of a grammar that was read is found, and it says whether the form
derives the empty one and which terminals begin what it derives. What is kept for a nonterminal is
FIRST of it. -/
theorem first_exact {text : String} (h : read text = .ok g) :
    (∀ φ : List Symbol, (∀ x ∈ φ, g.augment.grammar.InRange x) →
      ∃ first, (Sets.solve g.augment).firstOf? φ = some first ∧
        first.IsFirstOf g.augment.productions φ) ∧
    ∀ n < g.augment.nonterminals.size,
      ∃ first, (Sets.solve g.augment).first[n]? = some first ∧
        first.IsFirstOf g.augment.productions [.nonterminal n] := by
  have hg := (wellFormed_of_read h).indexed_augment
  have hfits := Sets.fits_solve hg
  constructor
  · intro φ hφ
    refine ⟨_, ?_, Sets.isFirstOf_solve hg φ⟩
    rw [Sets.firstOf?, if_pos (hfits.covers hφ)]
  · intro n hn
    have hlt : n < (Sets.solve g.augment).first.length := hfits.length_first ▸ hn
    exact ⟨_, Sets.getElem?_first hlt, Sets.isFirstOf_firstAt_solve hg n⟩

/-- A form that begins with a nonterminal which may vanish. -/
theorem first_exact_nested : read "S -> ( S )\nS ->" = .ok nested ∧
    (∃ first, (Sets.solve nested.augment).firstOf? [.nonterminal 0, .terminal 1] = some first ∧
      first.IsFirstOf nested.augment.productions [.nonterminal 0, .terminal 1]) ∧
    ∃ first, (Sets.solve nested.augment).first[0]? = some first ∧
      first.IsFirstOf nested.augment.productions [.nonterminal 0] := by
  obtain ⟨hforms, hsymbols⟩ := first_exact read_nested
  refine ⟨read_nested, hforms _ ?_, hsymbols 0 (by decide)⟩
  simp only [List.forall_mem_cons, InRange]
  exact ⟨by decide, by decide, List.forall_mem_nil _⟩

/-- A form of several symbols is derived from an older nonterminal if it is derived at all. -/
theorem Indexed.exists_derivesStrictly (hg : g.Indexed) {A : ℕ} {φ : List Symbol}
    (hφ : 1 < φ.length) (h : DerivesStrictly g.augment.productions [.nonterminal A] φ) :
    ∃ B, g.InRange (.nonterminal B) ∧
      DerivesStrictly g.augment.productions [.nonterminal B] φ := by
  obtain ⟨ψ, hstep, hrest⟩ := Relation.TransGen.head'_iff.1 h
  obtain ⟨p, hp, rfl, rfl⟩ := hstep.exists_production
  rw [productions_augment] at hp
  rcases List.mem_cons.1 hp with rfl | hp
  · -- the synthetic start symbol derives what the old one does
    refine ⟨g.start, start_inRange hg, ?_⟩
    rcases Relation.reflTransGen_iff_eq_or_transGen.1 hrest with rfl | hrest
    · exact absurd hφ (by simp)
    · exact hrest
  · exact ⟨p.lhs, hg.lhs_lt p hp, h⟩

/-- FOLLOW of a nonterminal of a grammar that was read holds a terminal exactly if some nonterminal
of the grammar derives a form in which the terminal stands right behind the nonterminal, or if it is
the end marker and the synthetic start symbol derives a form that ends with the nonterminal. -/
theorem follow_exact {text : String} (h : read text = .ok g) {n : ℕ}
    (hn : n < g.augment.nonterminals.size) :
    ∃ follow, (Sets.solve g.augment).follow[n]? = some follow ∧ ∀ t, t ∈ follow ↔
      (∃ A, g.InRange (.nonterminal A) ∧ ∃ before after,
        DerivesStrictly g.augment.productions [.nonterminal A]
          (before ++ .nonterminal n :: .terminal t :: after)) ∨
      t = g.augment.endMarker ∧ ∃ before,
        Derives g.augment.productions [.nonterminal g.augment.start]
          (before ++ [.nonterminal n]) := by
  have hg := wellFormed_of_read h
  have hlt : n < (Sets.solve g.augment).follow.length :=
    (Sets.fits_solve hg.indexed_augment).length_follow ▸ hn
  refine ⟨_, Sets.getElem?_follow hlt, fun t => ?_⟩
  rw [Sets.mem_followAt_solve_iff hg.indexed_augment]
  constructor
  · intro hfollows
    cases hfollows with
    | @inner A t before after h =>
      obtain ⟨B, hB, h⟩ := hg.exists_derivesStrictly (by simp; omega) h
      exact .inl ⟨B, hB, before, after, h⟩
    | @last before h => exact .inr ⟨rfl, before, h⟩
  · rintro (⟨A, -, before, after, h⟩ | ⟨rfl, before, h⟩)
    · exact .inner h
    · exact .last h

/-- The terminals that can follow `S` in nested parentheses. -/
theorem follow_exact_nested : read "S -> ( S )\nS ->" = .ok nested ∧
    ∃ follow, (Sets.solve nested.augment).follow[0]? = some follow ∧ ∀ t, t ∈ follow ↔
      (∃ A, nested.InRange (.nonterminal A) ∧ ∃ before after,
        DerivesStrictly nested.augment.productions [.nonterminal A]
          (before ++ .nonterminal 0 :: .terminal t :: after)) ∨
      t = nested.augment.endMarker ∧ ∃ before,
        Derives nested.augment.productions [.nonterminal nested.augment.start]
          (before ++ [.nonterminal 0]) :=
  ⟨read_nested, follow_exact read_nested (by decide)⟩

end Grammar

end ShiftReduce
