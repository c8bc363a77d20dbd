import Mathlib.Tactic.Common

/-!
# Blocks of memory

A block is a fixed number of cells. A store that reaches past the end of the block changes the
cells inside only, so the block stays a block; whether a store stayed inside is read off the
`Extent` it was given.
-/

set_option autoImplicit false

namespace ParseEmbedded

/-- A range of cells. -/
structure Extent where
  offset : Nat
  count : Nat
  deriving DecidableEq, Repr

/-- The range lies inside a block of this size. -/
def Extent.Inside (size : Nat) (extent : Extent) : Prop := extent.offset + extent.count ≤ size

instance (size : Nat) (extent : Extent) : Decidable (extent.Inside size) :=
  inferInstanceAs (Decidable (_ ≤ _))

/-- A block of memory with a fixed number of cells. -/
structure Block (α : Type*) (size : Nat) where
  cells : List α
  length_cells : cells.length = size

namespace Block

variable {α : Type*} {size : Nat}

/-- A block whose cells all hold the same value. -/
def fill (size : Nat) (value : α) : Block α size :=
  ⟨List.replicate size value, List.length_replicate⟩

/-- The values are stored from this cell on. -/
def store (m : Block α size) (offset : Nat) (values : List α) : Block α size where
  cells := (m.cells.take offset ++ (values ++ m.cells.drop (offset + values.length))).take size
  length_cells := by
    have := m.length_cells
    simp only [List.length_take, List.length_append, List.length_drop]
    omega

/-- `memmove`: as many cells from `source` on are copied to `offset` on. -/
def move (m : Block α size) (offset source count : Nat) : Block α size :=
  m.store offset ((m.cells.drop source).take count)

variable (m : Block α size)

theorem store_inside {offset : Nat} {values : List α} (inside : offset + values.length ≤ size) :
    (m.store offset values).cells =
      m.cells.take offset ++ (values ++ m.cells.drop (offset + values.length)) := by
  have := m.length_cells
  refine List.take_of_length_le ?_
  simp only [List.length_append, List.length_take, List.length_drop]
  omega

/-- What a store leaves in front of its end. -/
theorem take_store {offset : Nat} {values : List α} (inside : offset + values.length ≤ size) :
    (m.store offset values).cells.take (offset + values.length) =
      m.cells.take offset ++ values := by
  have front : (m.cells.take offset).length = offset := by
    have := m.length_cells
    simp only [List.length_take]
    omega
  rw [store_inside m inside, ← List.append_assoc]
  refine List.take_left' ?_
  rw [List.length_append, front]

/-- A store leaves the cells in front of it alone. -/
theorem take_store_before {offset : Nat} {values : List α} {n : Nat} (before : n ≤ offset)
    (inside : n ≤ size) : (m.store offset values).cells.take n = m.cells.take n := by
  have front : n ≤ (m.cells.take offset).length := by
    have := m.length_cells
    simp only [List.length_take]
    omega
  rw [store, List.take_take, Nat.min_eq_left inside, List.take_append_of_le_length front,
    List.take_take, Nat.min_eq_left before]

theorem store_cells (offset : Nat) (values : List α) :
    (m.store offset values).cells =
      (m.cells.take offset ++ (values ++ m.cells.drop (offset + values.length))).take size := rfl

/-- A store leaves the cells behind it alone. -/
theorem mem_drop_of_mem_drop_store {offset : Nat} {values : List α} {value : α}
    (member : value ∈ (m.store offset values).cells.drop (offset + values.length)) :
    value ∈ m.cells.drop (offset + values.length) := by
  rw [store_cells, List.drop_take] at member
  have behind := List.mem_of_mem_take member
  by_cases inside : offset ≤ m.cells.length
  · rw [← List.append_assoc, List.drop_left' (by simp [inside])] at behind
    exact behind
  · have short : (m.cells.take offset ++ (values ++ m.cells.drop (offset + values.length))).length ≤
        offset + values.length := by
      simp only [List.length_append, List.length_take, List.length_drop]
      omega
    rw [List.drop_eq_nil_of_le short] at behind
    exact absurd behind List.not_mem_nil

theorem store_single {offset : Nat} (value : α) :
    (m.store offset [value]).cells = m.cells.set offset value := by
  have length := m.length_cells
  by_cases inside : offset < size
  · rw [m.store_inside (show offset + [value].length ≤ size from inside),
      List.set_eq_take_append_cons_drop, if_pos (by omega)]
    rfl
  · have outside : m.cells.length ≤ offset := by omega
    rw [store_cells, List.set_eq_of_length_le outside, List.take_of_length_le outside]
    exact List.take_left' length

/-- Cells moved to the front of the block. -/
theorem take_move {source count : Nat} (inside : source + count ≤ size) :
    (m.move 0 source count).cells.take count = (m.cells.drop source).take count := by
  have length : ((m.cells.drop source).take count).length = count := by
    have := m.length_cells
    simp only [List.length_take, List.length_drop]
    omega
  have stored := m.take_store (show 0 + ((m.cells.drop source).take count).length ≤ size by omega)
  rw [length, Nat.zero_add] at stored
  exact stored

end Block

end ParseEmbedded
