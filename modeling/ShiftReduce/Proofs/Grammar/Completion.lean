import ShiftReduce.Proofs.Grammar.Viable
import ShiftReduce.Proofs.Tree.Derivation

/-!
# Completions of a stack

A stack of symbols with their trees is completed by a list of terminals if shifting the terminals
and reducing by productions of the grammar can turn it into the start symbol with a tree. Without
the trees the stack is viable with these terminals (`Completes.viable`). With a derivation tree on
top it can be completed as the stack without the tree and with the terminals of the tree still to
read (`exists_unread`).
-/

namespace ShiftReduce

/-- Shifting `rest` and reducing turns the symbols and their trees, latest first, into the start
symbol with the tree `T`, in `n` moves. -/
inductive Completes (g : Grammar) (T : Tree) : ℕ → List Symbol → List Tree → List ℕ → Prop
  | whole : Completes g T 0 [.nonterminal g.start] [T] []
  | shift {n t : ℕ} {symbols : List Symbol} {trees : List Tree} {rest : List ℕ}
      (h : Completes g T n (.terminal t :: symbols) (.leaf (g.name (.terminal t)) :: trees) rest) :
      Completes g T (n + 1) symbols trees (t :: rest)
  | reduce {n : ℕ} {p : Production} {symbols : List Symbol} {trees children : List Tree}
      {rest : List ℕ} (hp : p ∈ g.productions) (hlen : children.length = p.rhs.length)
      (h : Completes g T n (.nonterminal p.lhs :: symbols)
        (.node (g.name (.nonterminal p.lhs)) children :: trees) rest) :
      Completes g T (n + 1) (p.rhs.reverse ++ symbols) (children.reverse ++ trees) rest

namespace Completes

variable {g : Grammar} {T : Tree} {n : ℕ} {symbols : List Symbol} {trees : List Tree}
  {rest : List ℕ}

/-- A stack with trees is completed as the stack without them is. -/
theorem viable (h : Completes g T n symbols trees rest) :
    Viable g symbols (rest.map .terminal) := by
  induction h with
  | whole => exact .whole
  | shift _ ih => exact ih.shift
  | reduce hp _ _ ih => exact ih.reduce hp

/-- What is left to read begins with its first terminal, or with the end marker if there is none. -/
theorem begins (g : Grammar) (rest : List ℕ) :
    Begins g (rest.map .terminal) (rest.headD g.augment.endMarker) := by
  cases rest with
  | nil => exact .endMarker
  | cons t rest => exact .terminal t _

end Completes

/-! ## Derivation trees on top of the stack -/

/-- Instead of the symbols `ss` with their trees `ts` on top of the stack one can have the terminals
`v` to read: they lead to the same completions, in `m` more moves. -/
def Unread (g : Grammar) (ss : List Symbol) (ts : List Tree) (v : List ℕ) (m : ℕ) : Prop :=
  ∀ T n symbols trees rest, Completes g T n (ss.reverse ++ symbols) (ts.reverse ++ trees) rest →
    Completes g T (n + m) symbols trees (v ++ rest)

/-- The names of terminals of the augmented grammar. -/
def Augmented.names (g : Augmented) (v : List ℕ) : List String :=
  v.map fun t => g.name (.terminal t)

section Unread

variable {g : Grammar} {s : Symbol} {ss : List Symbol} {t : Tree} {ts : List Tree} {v w : List ℕ}
  {m n : ℕ}

/-- No symbols are no terminals to read. -/
theorem unread_nil (g : Grammar) : Unread g [] [] [] 0 := fun _ _ _ _ _ h => h

/-- Trees are read from left to right. -/
theorem Unread.cons (h : Unread g [s] [t] v m) (hs : Unread g ss ts w n) :
    Unread g (s :: ss) (t :: ts) (v ++ w) (n + m) := by
  intro T k symbols trees rest hcompletes
  rw [List.reverse_cons, List.reverse_cons, List.append_assoc, List.append_assoc] at hcompletes
  have := h _ _ _ _ _ (hs _ _ _ _ _ hcompletes)
  rwa [Nat.add_assoc, ← List.append_assoc] at this

/-- A leaf is read by a shift. -/
theorem unread_leaf (g : Grammar) (t : ℕ) :
    Unread g [.terminal t] [.leaf (g.name (.terminal t))] [t] 1 :=
  fun _ _ _ _ _ h => h.shift

/-- A node is read by reading its children and reducing. -/
theorem Unread.node {p : Production} (hp : p ∈ g.productions) (hlen : ts.length = p.rhs.length)
    (h : Unread g p.rhs ts v m) :
    Unread g [.nonterminal p.lhs] [.node (g.name (.nonterminal p.lhs)) ts] v (m + 1) := by
  intro T k symbols trees rest hcompletes
  have := h _ _ _ _ _ (hcompletes.reduce hp hlen)
  rwa [Nat.add_assoc, Nat.add_comm 1] at this

/-- Derivation trees for symbols can be replaced by the terminals that they derive. -/
private theorem exists_unread_forest (hnames : ts.map Tree.name = ss.map g.name)
    (hrange : ∀ s ∈ ss, g.InRange s)
    (htree : ∀ t ∈ ts, ∀ s, g.InRange s → t.name = g.name s →
      ∃ v m, g.augment.names v = t.yield ∧ Unread g [s] [t] v m) :
    ∃ v m, g.augment.names v = Tree.forestYield ts ∧ Unread g ss ts v m := by
  induction ts generalizing ss with
  | nil =>
    obtain rfl : ss = [] := by simpa using hnames.symm
    exact ⟨[], 0, rfl, unread_nil g⟩
  | cons t ts ih =>
    cases ss with
    | nil => simp at hnames
    | cons s ss =>
      obtain ⟨hname, hnames⟩ := List.cons.inj hnames
      obtain ⟨v, m, hv, hunread⟩ := htree t List.mem_cons_self s (hrange s List.mem_cons_self) hname
      obtain ⟨w, n, hw, hunread'⟩ := ih hnames (fun x hx => hrange x (List.mem_cons_of_mem _ hx))
        fun u hu => htree u (List.mem_cons_of_mem _ hu)
      refine ⟨v ++ w, n + m, ?_, hunread.cons hunread'⟩
      rw [Augmented.names, List.map_append, Tree.forestYield]
      exact congrArg₂ _ hv hw

/-- A derivation tree for a symbol can be replaced by the terminals that it derives. -/
theorem exists_unread (hg : g.WellFormed) (ht : t.IsDerivation g) (hs : g.InRange s)
    (hname : t.name = g.name s) :
    ∃ v m, g.augment.names v = t.yield ∧ Unread g [s] [t] v m := by
  induction ht generalizing s with
  | @leaf a ha =>
    have hlower := hg.isNonterminal_terminal a ha
    cases s with
    | nonterminal n =>
      -- the name of a leaf does not begin with a capital
      have hupper := hg.isNonterminal_name_nonterminal hs
      rw [← hname, Tree.name_leaf, hlower] at hupper
      exact absurd hupper (by simp)
    | terminal n =>
      obtain rfl : a = g.name (.terminal n) := hname
      refine ⟨[n], 1, ?_, unread_leaf g n⟩
      rw [Tree.yield_leaf_name hg hs, Augmented.names, List.map_singleton, Grammar.name_augment hs]
  | @node p cs hp hcs _ ih =>
    have hlhs : g.InRange (.nonterminal p.lhs) := hg.lhs_lt p hp
    obtain rfl : .nonterminal p.lhs = s := hg.name_injective hlhs hs hname
    have hlen : cs.length = p.rhs.length := by simpa using congrArg List.length hcs
    obtain ⟨v, m, hv, hunread⟩ :=
      exists_unread_forest hcs (hg.rhs_inRange p hp) fun c hc s => ih c hc
    exact ⟨v, m + 1, by rw [hv, Tree.yield_node_name hg hlhs], hunread.node hp hlen⟩

end Unread

end ShiftReduce
