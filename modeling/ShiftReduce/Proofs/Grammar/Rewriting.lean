import Mathlib.Logic.Relation
import ShiftReduce.Proofs.Grammar.WellFormed

/-!
# Rewriting by productions

A sentential form is a sequence of symbols. A production replaces its left-hand side, wherever it
stands in a form, by its right-hand side; a form derives another one in zero or more of these steps.
Nothing that stands beside a part of a form takes part in rewriting it, so derivations can be put
side by side (`Derives.append`).
-/

namespace ShiftReduce

/-- A nonterminal of a form is replaced by the right-hand side of one of its productions. -/
inductive Rewrites (ps : List Production) : List Symbol → List Symbol → Prop
  | step {p : Production} (hp : p ∈ ps) (before after : List Symbol) :
      Rewrites ps (before ++ .nonterminal p.lhs :: after) (before ++ (p.rhs ++ after))

/-- A form derives another one in zero or more steps. -/
abbrev Derives (ps : List Production) : List Symbol → List Symbol → Prop :=
  Relation.ReflTransGen (Rewrites ps)

/-- A form derives another one in one or more steps. -/
abbrev DerivesStrictly (ps : List Production) : List Symbol → List Symbol → Prop :=
  Relation.TransGen (Rewrites ps)

section Rewriting

variable {ps : List Production} {p : Production} {φ ψ φ' ψ' : List Symbol}

/-- A production rewrites its left-hand side alone. -/
theorem Rewrites.of_mem (hp : p ∈ ps) : Rewrites ps [.nonterminal p.lhs] p.rhs := by
  have h := step hp [] []
  rwa [List.nil_append, List.nil_append, List.append_nil] at h

/-- A step can be made with symbols in front. -/
theorem Rewrites.append_left (h : Rewrites ps φ ψ) (χ : List Symbol) :
    Rewrites ps (χ ++ φ) (χ ++ ψ) := by
  obtain ⟨hp, before, after⟩ := h
  simpa only [List.append_assoc] using step hp (χ ++ before) after

/-- A step can be made with symbols behind. -/
theorem Rewrites.append_right (h : Rewrites ps φ ψ) (χ : List Symbol) :
    Rewrites ps (φ ++ χ) (ψ ++ χ) := by
  obtain ⟨hp, before, after⟩ := h
  simpa only [List.append_assoc, List.cons_append] using step hp before (after ++ χ)

/-- A derivation can be made with symbols in front. -/
theorem Derives.append_left (h : Derives ps φ ψ) (χ : List Symbol) :
    Derives ps (χ ++ φ) (χ ++ ψ) :=
  Relation.ReflTransGen.lift (χ ++ ·) (fun _ _ h => h.append_left χ) _ _ h

/-- A derivation can be made with symbols behind. -/
theorem Derives.append_right (h : Derives ps φ ψ) (χ : List Symbol) :
    Derives ps (φ ++ χ) (ψ ++ χ) :=
  Relation.ReflTransGen.lift (· ++ χ) (fun _ _ h => h.append_right χ) _ _ h

/-- Two derivations side by side. -/
theorem Derives.append (h : Derives ps φ ψ) (h' : Derives ps φ' ψ') :
    Derives ps (φ ++ φ') (ψ ++ ψ') :=
  (h.append_right φ').trans (h'.append_left ψ)

/-- The first step from a single nonterminal takes one of its productions. -/
theorem Rewrites.exists_production {n : ℕ} (h : Rewrites ps [.nonterminal n] φ) :
    ∃ p ∈ ps, p.lhs = n ∧ p.rhs = φ := by
  generalize hsingle : [Symbol.nonterminal n] = χ at h
  obtain ⟨hp, before, after⟩ := h
  rw [eq_comm, List.append_eq_singleton_iff] at hsingle
  rcases hsingle with ⟨rfl, hsingle⟩ | ⟨-, hsingle⟩
  · obtain ⟨hlhs, rfl⟩ := List.cons.inj hsingle
    exact ⟨_, hp, Symbol.nonterminal.inj hlhs, by simp⟩
  · exact absurd hsingle (List.cons_ne_nil _ _)

end Rewriting

end ShiftReduce
