import Mathlib.Data.List.Forall2
import Mathlib.Data.List.DropRight
import Mathlib.Tactic.Common

/-!
# Where the contents of a buffer come from

A buffer collects values from a source and loses values at its front, and some of its values are
blanked out. `Stems` says that what it holds is, but for the blanks, the end of what the source
has supplied. The operations of a buffer keep this, and a piece without blanks is a piece of
what was supplied.
-/

set_option autoImplicit false

namespace ParseEmbedded.Origin

variable {α : Type*} (blank : α)

/-- The value is the one supplied, or blanked out. -/
def Same (value supplied : α) : Prop := value = supplied ∨ value = blank

/-- The values held are the end of what has been supplied, but for blanks. -/
def Stems (supplied held : List α) : Prop :=
  ∃ origin, origin <:+ supplied ∧ List.Forall₂ (Same blank) held origin

variable {blank}

theorem same_self (values : List α) : List.Forall₂ (Same blank) values values :=
  List.forall₂_same.mpr fun _ _ => .inl rfl

theorem Stems.nil (supplied : List α) : Stems blank supplied [] :=
  ⟨[], List.nil_suffix, .nil⟩

/-- No more is held than was supplied. -/
theorem Stems.length_le {supplied held : List α} (stems : Stems blank supplied held) :
    held.length ≤ supplied.length := by
  obtain ⟨origin, suffix, same⟩ := stems
  exact same.length_eq ▸ suffix.length_le

/-- Values arrive. -/
theorem Stems.append {supplied held : List α} (stems : Stems blank supplied held)
    (values : List α) : Stems blank (supplied ++ values) (held ++ values) := by
  obtain ⟨origin, ⟨front, rfl⟩, same⟩ := stems
  exact ⟨origin ++ values, ⟨front, (List.append_assoc ..).symm⟩,
    List.rel_append same (same_self values)⟩

/-- Values are lost at the front. -/
theorem Stems.drop {supplied held : List α} (stems : Stems blank supplied held) (n : Nat) :
    Stems blank supplied (held.drop n) := by
  obtain ⟨origin, suffix, same⟩ := stems
  exact ⟨origin.drop n, (List.drop_suffix n origin).trans suffix, List.forall₂_drop n same⟩

/-- A value is blanked out. -/
theorem same_set {held origin : List α} (same : List.Forall₂ (Same blank) held origin) :
    ∀ i, List.Forall₂ (Same blank) (held.set i blank) origin := by
  induction same with
  | nil =>
      intro i
      exact .nil
  | cons first rest ih =>
      intro i
      cases i with
      | zero => exact .cons (.inr rfl) rest
      | succ i => exact .cons first (ih i)

theorem Stems.set {supplied held : List α} (stems : Stems blank supplied held) (i : Nat) :
    Stems blank supplied (held.set i blank) := by
  obtain ⟨origin, suffix, same⟩ := stems
  exact ⟨origin, suffix, same_set same i⟩

/-- Without blanks nothing has been changed. -/
theorem eq_of_same {values origin : List α}
    (same : List.Forall₂ (Same blank) values origin) (noBlank : blank ∉ values) :
    values = origin := by
  induction same with
  | nil => rfl
  | cons first rest ih =>
      rw [List.mem_cons, not_or] at noBlank
      rcases first with rfl | blanked
      · rw [ih noBlank.2]
      · exact absurd blanked.symm noBlank.1

/-- **A piece without blanks was supplied as it is.** -/
theorem Stems.piece {supplied held piece : List α} (stems : Stems blank supplied held)
    (within : piece <:+: held) (noBlank : blank ∉ piece) : piece <:+: supplied := by
  obtain ⟨origin, suffix, same⟩ := stems
  obtain ⟨front, back, rfl⟩ := within
  have here := List.forall₂_take piece.length (List.forall₂_drop front.length same)
  rw [List.append_assoc, List.drop_left, List.take_left] at here
  have whole := eq_of_same here noBlank
  rw [whole]
  exact ((List.take_prefix _ _).isInfix.trans (List.drop_suffix _ _).isInfix).trans
    suffix.isInfix

/-- Where such a piece stands in what was supplied. -/
theorem Stems.slice {supplied held : List α} (stems : Stems blank supplied held)
    {start length : Nat} (noBlank : blank ∉ (held.drop start).take length) :
    (held.drop start).take length =
      (supplied.drop (supplied.length - held.length + start)).take length := by
  obtain ⟨origin, ⟨front, rfl⟩, same⟩ := stems
  have lost : (front ++ origin).length - held.length = front.length := by
    rw [List.length_append, same.length_eq]
    omega
  rw [lost, ← List.drop_drop, List.drop_left]
  exact eq_of_same (List.forall₂_take length (List.forall₂_drop start same)) noBlank

/-! ## The last values of a list -/

theorem rdrop_append_rtake (values : List α) (n : Nat) :
    values.rdrop n ++ values.rtake n = values := List.take_append_drop _ _

theorem rtake_append {values more : List α} {n : Nat} (fits : n ≤ values.length) :
    (values ++ more).rtake (n + more.length) = values.rtake n ++ more := by
  have start : (values ++ more).length - (n + more.length) = values.length - n := by
    rw [List.length_append]
    omega
  rw [List.rtake, List.rtake, start, List.drop_append_of_le_length (Nat.sub_le ..)]

/-- What is left of the last values of a buffer that has lost values at its front. -/
theorem Stems.rtake_drop_set {supplied held : List α} {n : Nat}
    (stems : Stems blank supplied (held.rtake n)) (i count : Nat) :
    Stems blank supplied
      (((held.set i blank).drop count).rtake (min n ((held.set i blank).drop count).length)) := by
  by_cases all : held.length ≤ count
  · rw [List.drop_of_length_le (by rwa [List.length_set]), List.rtake_nil]
    exact .nil supplied
  have start : ∃ more, count + (((held.set i blank).drop count).length -
      min n ((held.set i blank).drop count).length) = held.length - n + more := by
    refine ⟨_, (Nat.add_sub_cancel' ?_).symm⟩
    simp only [List.length_drop, List.length_set]
    omega
  obtain ⟨more, start⟩ := start
  rw [List.rtake, List.drop_drop, start, ← List.drop_drop, List.drop_set]
  split
  · exact stems.drop more
  · exact (stems.set _).drop more

end ParseEmbedded.Origin
