import ShiftReduce.Proofs.Sets.Exact

/-!
# What can come behind a stack

A stack is viable with a sequence of symbols still to come if shifting these and reducing by
productions of the grammar can turn it into the start symbol. The stack and what is to come then are
a form that the start symbol derives (`Viable.derives`), so the terminal that comes next behind a
nonterminal is in its FOLLOW set (`Viable.mem_follow`). The converse fails: a nonterminal can be
followed by a terminal on one stack and not on another.
-/

namespace ShiftReduce

/-- Shifting `rest` and reducing turns the symbols, latest first, into the start symbol. -/
inductive Viable (g : Grammar) : List Symbol → List Symbol → Prop
  | whole : Viable g [.nonterminal g.start] []
  | shift {s : Symbol} {symbols rest : List Symbol} (h : Viable g (s :: symbols) rest) :
      Viable g symbols (s :: rest)
  | reduce {p : Production} {symbols rest : List Symbol} (hp : p ∈ g.productions)
      (h : Viable g (.nonterminal p.lhs :: symbols) rest) : Viable g (p.rhs.reverse ++ symbols) rest

/-- What is to come begins with the terminal; at its end comes the end marker. -/
inductive Begins (g : Grammar) : List Symbol → ℕ → Prop
  | terminal (t : ℕ) (rest : List Symbol) : Begins g (.terminal t :: rest) t
  | endMarker : Begins g [] g.augment.endMarker

/-- The terminal can come next behind the symbols, which are given latest first. -/
def CanFollow (g : Grammar) (symbols : List Symbol) (t : ℕ) : Prop :=
  ∃ rest, Viable g symbols rest ∧ Begins g rest t

variable {g : Grammar} {symbols rest : List Symbol} {p : Production} {A t : ℕ}

namespace Viable

/-- The stack and what is to come are derived by the start symbol. -/
theorem derives (h : Viable g symbols rest) :
    Derives g.productions [.nonterminal g.start] (symbols.reverse ++ rest) := by
  induction h with
  | whole => exact .refl
  | @shift s symbols rest _ ih =>
    rwa [List.reverse_cons, List.append_assoc] at ih
  | @reduce p symbols rest hp _ ih =>
    rw [List.reverse_cons, List.append_assoc] at ih
    rw [List.reverse_append, List.reverse_reverse, List.append_assoc]
    exact ih.tail (.step hp symbols.reverse rest)

/-- What lies on top of the stack can also be still to come. -/
theorem unshift {above : List Symbol} (h : Viable g (above.reverse ++ symbols) rest) :
    Viable g symbols (above ++ rest) := by
  induction above generalizing symbols with
  | nil => exact h
  | cons s above ih =>
    rw [List.reverse_cons, List.append_assoc] at h
    exact (ih h).shift

/-- In the augmented grammar all that the start symbol derives is derived by the synthetic one. -/
theorem derivesStrictly_augment {ψ : List Symbol}
    (h : Derives g.productions [.nonterminal g.start] ψ) :
    DerivesStrictly g.augment.productions [.nonterminal g.augment.start] ψ := by
  have hstart : Rewrites g.augment.productions [.nonterminal g.augment.start]
      [.nonterminal g.start] :=
    .of_mem (p := ⟨g.augment.start, [.nonterminal g.start]⟩) List.mem_cons_self
  have hrest : Derives g.augment.productions [.nonterminal g.start] ψ := by
    refine Relation.ReflTransGen.mono (fun φ ψ hstep => ?_) _ _ h
    obtain ⟨hp, before, after⟩ := hstep
    exact .step (List.mem_cons_of_mem _ hp) before after
  exact Relation.TransGen.head' hstart hrest

/-- A terminal that comes next behind a nonterminal is in its FOLLOW set. -/
theorem mem_follow (hg : g.WellFormed) (h : Viable g (.nonterminal A :: symbols) rest)
    (ht : Begins g rest t) : t ∈ (Sets.solve g.augment).followAt A := by
  rw [Sets.mem_followAt_solve_iff hg.indexed_augment]
  have hderives := derivesStrictly_augment h.derives
  rw [List.reverse_cons, List.append_assoc, List.singleton_append] at hderives
  cases ht with
  | terminal t rest => exact .inner hderives
  | endMarker => exact .last hderives.to_reflTransGen

end Viable

/-- What can follow a left-hand side can follow its right-hand side. -/
theorem CanFollow.reduce (hp : p ∈ g.productions)
    (h : CanFollow g (.nonterminal p.lhs :: symbols) t) :
    CanFollow g (p.rhs.reverse ++ symbols) t := by
  obtain ⟨rest, hviable, hbegins⟩ := h
  exact ⟨rest, hviable.reduce hp, hbegins⟩

end ShiftReduce
