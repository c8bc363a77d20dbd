import Mathlib.Tactic.Common

/-!
# Linked lists

The nodes behind a first one, which are found by following a pointer in each, up to a node whose
pointer is null. One more node is linked behind the last one (`Linked.extend`), and the first one is
taken out (`Linked.unlink`), by a change of few pointers; where the others keep theirs, the rest of
the list is what it was.
-/

set_option autoImplicit false

namespace ParseEmbedded.LinkedList

variable {α : Type*}

/-- The nodes behind `p`, in their order. -/
def Linked (next : α → Option α) : α → List α → Prop
  | p, [] => next p = none
  | p, q :: rest => next p = some q ∧ Linked next q rest

variable {next next' : α → Option α} {p q : α} {nodes rest : List α}

/-- Pointers of other nodes make no difference. -/
theorem Linked.congr (nodes : List α) : ∀ {p : α}, Linked next p nodes →
    (∀ a ∈ p :: nodes, next' a = next a) → Linked next' p nodes := by
  induction nodes with
  | nil =>
      intro p linked same
      exact (same p (List.mem_singleton_self p)).trans linked
  | cons q nodes ih =>
      intro p linked same
      obtain ⟨here, there⟩ := List.forall_mem_cons.mp same
      exact ⟨here.trans linked.1, ih linked.2 there⟩

/-- The pointer of the last node is null. -/
theorem Linked.last (nodes : List α) : ∀ {p : α}, Linked next p nodes →
    next (nodes.getLastD p) = none := by
  induction nodes with
  | nil =>
      intro p linked
      exact linked
  | cons q nodes ih =>
      intro p linked
      rw [List.getLastD_cons]
      exact ih linked.2

/-- **One more node** is linked behind the last one. -/
theorem Linked.extend (nodes : List α) : ∀ {p : α}, Linked next p nodes → (p :: nodes).Nodup →
    next' (nodes.getLastD p) = some q → next' q = none →
      (∀ a ∈ p :: nodes, a ≠ nodes.getLastD p → next' a = next a) →
        Linked next' p (nodes ++ [q]) := by
  induction nodes with
  | nil =>
      intro p _ _ atLast ends _
      exact ⟨atLast, ends⟩
  | cons r nodes ih =>
      intro p linked distinct atLast ends same
      obtain ⟨here, there⟩ := List.forall_mem_cons.mp same
      obtain ⟨notMember, distinct⟩ := List.nodup_cons.mp distinct
      rw [List.getLastD_cons] at atLast here there
      have notLast : p ≠ nodes.getLastD r := by
        intro isLast
        rw [isLast] at notMember
        exact notMember List.getLastD_mem_cons
      exact ⟨(here notLast).trans linked.1, ih linked.2 distinct atLast ends there⟩

/-- **The first node** is taken out. -/
theorem Linked.unlink (linked : Linked next p (q :: rest)) (skips : next' p = next q)
    (same : ∀ a ∈ rest, next' a = next a) : Linked next' p rest := by
  cases rest with
  | nil => exact skips.trans linked.2
  | cons r rest =>
      obtain ⟨-, atNext, behind⟩ := linked
      exact ⟨skips.trans atNext, behind.congr rest same⟩

end ParseEmbedded.LinkedList
