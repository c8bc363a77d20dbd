import Mathlib.Data.List.Basic
import Mathlib.Logic.Function.Basic

/-!
# Fields of fixed sizes in a file

A record is written to a file field by field, and read back field by field, each read going on
where the one before has stopped. A file that has been cut off gives short reads, and behind its
end empty ones. `readFields_cut` says what each field gets from a file that is cut off anywhere, if
only the first fields of the record are read.
-/

set_option autoImplicit false

namespace ParseEmbedded.Fields

variable {κ α : Type*} [DecidableEq κ] (size : κ → Nat)

/-- How many values stand in front of a field. -/
def offset : List κ → κ → Nat
  | [], _ => 0
  | field :: fields, other => if other = field then 0 else size field + offset fields other

/-- At most so many values from a place on. -/
def readAt (file : List α) (place count : Nat) : List α := (file.drop place).take count

/-- The reads of the fields from a place on, each laid over what the field had before. -/
def readFields (lay : List α → List α → List α) (file : List α) :
    List κ → Nat → (κ → List α) → κ → List α
  | [], _, into => into
  | field :: fields, place, into =>
      readFields lay file fields (place + (readAt file place (size field)).length)
        (Function.update into field (lay (into field) (readAt file place (size field))))

/-- A read of the next field of a file that is cut off. -/
theorem readAt_cut (front field back : List α) (k : Nat) :
    readAt ((front ++ (field ++ back)).take k) (min k front.length) field.length =
      field.take (k - front.length) := by
  rw [readAt]
  rcases Nat.le_total k front.length with cut | whole
  · rw [Nat.min_eq_left cut, List.drop_take_self, List.take_nil, Nat.sub_eq_zero_of_le cut,
      List.take_zero]
  · have rest : ((front ++ (field ++ back)).take k).drop front.length =
        (field ++ back).take (k - front.length) := by
      rw [List.drop_take, List.drop_left]
    rw [Nat.min_eq_right whole, rest, List.take_take]
    rcases Nat.le_total (k - front.length) field.length with inside | outside
    · rw [Nat.min_eq_right inside, List.take_append_of_le_length inside]
    · rw [Nat.min_eq_left outside, List.take_left, List.take_of_length_le outside]

/-- The offset of a field does not depend on the fields behind it. -/
theorem offset_append {fields : List κ} {field : κ} (member : field ∈ fields) (more : List κ) :
    offset size (fields ++ more) field = offset size fields field := by
  induction fields with
  | nil => exact absurd member List.not_mem_nil
  | cons first fields ih =>
      rw [List.cons_append, offset, offset]
      split
      · rfl
      · rename_i other
        rw [ih ((List.mem_cons.mp member).resolve_left other)]

variable {size}

/-- **Reading fields from a file that is cut off.** Each gets the part of it that is there. -/
theorem readFields_cut (lay : List α → List α → List α) {record : κ → List α}
    (sized : ∀ field, (record field).length = size field) (back : List α) (k : Nat)
    (fields : List κ) : ∀ (front : List α) (into : κ → List α), fields.Nodup →
      readFields size lay ((front ++ (fields.flatMap record ++ back)).take k) fields
          (min k front.length) into =
        fun field => if field ∈ fields then
          lay (into field) ((record field).take (k - (front.length + offset size fields field)))
        else into field := by
  induction fields with
  | nil =>
      intro front into _
      rfl
  | cons first fields ih =>
      intro front into distinct
      obtain ⟨notAgain, distinct⟩ := List.nodup_cons.mp distinct
      have read := readAt_cut front (record first) (fields.flatMap record ++ back) k
      have place : min k front.length + ((record first).take (k - front.length)).length =
          min k (front ++ record first).length := by
        rw [List.length_take, List.length_append]
        omega
      have split : front ++ ((first :: fields).flatMap record ++ back) =
          front ++ record first ++ (fields.flatMap record ++ back) := by
        rw [List.flatMap_cons, List.append_assoc, List.append_assoc]
      rw [sized] at read
      rw [readFields, split, List.append_assoc, read, place, ← List.append_assoc,
        ih (front ++ record first) _ distinct]
      funext field
      by_cases isFirst : field = first
      · subst isFirst
        rw [if_neg notAgain, if_pos (List.mem_cons_self ..), Function.update_self, offset,
          if_pos rfl, Nat.add_zero]
      · rw [Function.update_of_ne isFirst, offset, if_neg isFirst, List.length_append, sized,
          Nat.add_assoc]
        simp only [List.mem_cons, isFirst, false_or]

end ParseEmbedded.Fields
