import Mathlib.Tactic.Common

/-!
# Cells copied in place

A loop that copies cells to an earlier place of the same memory, one after the other, reads what it
may have written before. `copyCells_eq` says what is left: the cells that were copied, and behind
them the end of what was there before. `fillCells_eq` is the same for a loop that writes one value.
-/

set_option autoImplicit false

namespace ParseEmbedded.InPlace

variable {α : Type*}

/-- So many cells from `source` on are copied to `target` on, one after the other. -/
def copyCells : Nat → List α → Nat → Nat → List α
  | 0, cells, _, _ => cells
  | count + 1, cells, target, source =>
      let cells :=
        match cells[source]? with
        | some value => cells.set target value
        | none => cells
      copyCells count cells (target + 1) (source + 1)

/-- So many cells from `target` on get this value. -/
def fillCells (value : α) : Nat → List α → Nat → List α
  | 0, cells, _ => cells
  | count + 1, cells, target => fillCells value count (cells.set target value) (target + 1)

theorem copyCells_length (count : Nat) : ∀ (cells : List α) (target source : Nat),
    (copyCells count cells target source).length = cells.length := by
  induction count with
  | zero => exact fun _ _ _ => rfl
  | succ count ih =>
      intro cells target source
      rw [copyCells, ih]
      split
      · exact List.length_set
      · rfl

theorem fillCells_length (value : α) (count : Nat) : ∀ (cells : List α) (target : Nat),
    (fillCells value count cells target).length = cells.length := by
  induction count with
  | zero => exact fun _ _ => rfl
  | succ count ih =>
      intro cells target
      rw [fillCells, ih, List.length_set]

theorem getElem?_of_drop {cells behind : List α} {source : Nat} {value : α}
    (here : cells.drop source = value :: behind) : cells[source]? = some value := by
  rw [← List.head?_drop, here, List.head?_cons]

theorem drop_succ_of_drop {cells behind : List α} {source : Nat} {value : α}
    (here : cells.drop source = value :: behind) : cells.drop (source + 1) = behind := by
  rw [← List.drop_drop, here, List.drop_one, List.tail_cons]

/-- A cell that is there is copied. -/
theorem copyCells_succ {cells behind : List α} {target source : Nat} {value : α}
    (here : cells.drop source = value :: behind) (count : Nat) :
    copyCells (count + 1) cells target source =
      copyCells count (cells.set target value) (target + 1) (source + 1) := by
  rw [copyCells, getElem?_of_drop here]

/-- What is behind the cells that are read is not touched by a cell that is written in front. -/
theorem drop_set_before {cells behind : List α} {target source : Nat} {value : α} (written : α)
    (before : target ≤ source) (here : cells.drop source = value :: behind) :
    (cells.set target written).drop (source + 1) = behind := by
  rw [List.drop_set_of_lt (Nat.lt_succ_of_le before), drop_succ_of_drop here]

/-- **Cells copied to an earlier place** are there, and behind them is the end of what was there. -/
theorem copyCells_eq (moved : List α) : ∀ front gap rest : List α,
    copyCells moved.length (front ++ (gap ++ (moved ++ rest))) front.length
        (front.length + gap.length) =
      front ++ (moved ++ ((gap ++ moved).drop moved.length ++ rest)) := by
  induction moved with
  | nil =>
      intro front gap rest
      simp [copyCells]
  | cons value moved ih =>
      intro front gap rest
      have here : (front ++ (gap ++ (value :: moved ++ rest))).drop (front.length + gap.length) =
          value :: (moved ++ rest) := by
        rw [← List.append_assoc, ← List.length_append, List.drop_left, List.cons_append]
      have next : front.length + 1 = (front ++ [value]).length := by
        rw [List.length_append, List.length_singleton]
      rw [List.length_cons, copyCells_succ here, List.set_append_right _ _ (Nat.le_refl _),
        Nat.sub_self]
      cases gap with
      | nil =>
          have written : front ++ ([] ++ (value :: moved ++ rest)).set 0 value =
              (front ++ [value]) ++ ([] ++ (moved ++ rest)) := by
            simp
          rw [written, next, List.length_nil, Nat.add_zero, next]
          refine (ih (front ++ [value]) [] rest).trans ?_
          simp
      | cons old gap =>
          have written : front ++ (old :: gap ++ (value :: moved ++ rest)).set 0 value =
              (front ++ [value]) ++ ((gap ++ [value]) ++ (moved ++ rest)) := by
            simp
          have source : front.length + (old :: gap).length + 1 =
              (front ++ [value]).length + (gap ++ [value]).length := by
            simp only [List.length_cons, List.length_append, List.length_nil]
            omega
          rw [written, source, next]
          refine (ih (front ++ [value]) (gap ++ [value]) rest).trans ?_
          simp

/-- **Cells that get a value** have it, and no other cell changes. -/
theorem fillCells_eq (value : α) (stale : List α) : ∀ front rest : List α,
    fillCells value stale.length (front ++ (stale ++ rest)) front.length =
      front ++ (List.replicate stale.length value ++ rest) := by
  induction stale with
  | nil =>
      intro front rest
      rfl
  | cons old stale ih =>
      intro front rest
      have written : (front ++ (old :: stale ++ rest)).set front.length value =
          (front ++ [value]) ++ (stale ++ rest) := by
        simp
      have next : front.length + 1 = (front ++ [value]).length := by
        rw [List.length_append, List.length_singleton]
      rw [List.length_cons, fillCells, written, next]
      refine (ih (front ++ [value]) rest).trans ?_
      simp [List.replicate_succ]

end ParseEmbedded.InPlace
