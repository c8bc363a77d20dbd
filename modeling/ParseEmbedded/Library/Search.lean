import Mathlib.Tactic.Common

/-!
# The first occurrence of a pattern

`search` looks for a pattern in a text, and gives the text from its first occurrence on. A text
that goes on behind an occurrence has the same first occurrence, `search_append`; a stretch
without the first symbol of the pattern is skipped, `search_skip`.
-/

set_option autoImplicit false

namespace ParseEmbedded.Search

variable {α : Type*} [DecidableEq α]

/-- The text from the first occurrence of the pattern on. -/
def search (pattern : List α) : List α → Option (List α)
  | [] => if pattern = [] then some [] else none
  | c :: text => if pattern <+: c :: text then some (c :: text) else search pattern text

variable {pattern : List α}

/-- What is found starts with the pattern, and the text ends with it. -/
theorem search_found {text found : List α} (there : search pattern text = some found) :
    pattern <+: found ∧ found <:+ text := by
  induction text with
  | nil =>
      rw [search] at there
      split at there
      · rename_i empty
        obtain rfl := Option.some.inj there
        exact ⟨empty ▸ List.nil_prefix, List.suffix_rfl⟩
      · cases there
  | cons c text ih =>
      rw [search] at there
      split at there
      · rename_i here
        obtain rfl := Option.some.inj there
        exact ⟨here, List.suffix_rfl⟩
      · obtain ⟨starts, ends⟩ := ih there
        exact ⟨starts, ends.trans (List.suffix_cons c text)⟩

/-- Nothing is found exactly if the pattern does not occur. -/
theorem search_eq_none_iff {text : List α} :
    search pattern text = none ↔ ¬ pattern <:+: text := by
  induction text with
  | nil =>
      rw [search, List.infix_nil]
      by_cases empty : pattern = []
      · rw [if_pos empty]
        exact iff_of_false (Option.some_ne_none _) (not_not_intro empty)
      · rw [if_neg empty]
        exact iff_of_true rfl empty
  | cons c text ih =>
      rw [search, List.infix_cons_iff, not_or]
      by_cases here : pattern <+: c :: text
      · rw [if_pos here]
        exact iff_of_false (Option.some_ne_none _) fun nowhere => nowhere.1 here
      · rw [if_neg here, ih]
        exact (and_iff_right here).symm

/-- A place where the pattern does not start is passed. -/
theorem search_pass {c : α} {text : List α} (other : ¬ pattern <+: c :: text) :
    search pattern (c :: text) = search pattern text := if_neg other

/-- What is found stays the first occurrence when the text goes on. -/
theorem search_append {text found : List α} (there : search pattern text = some found)
    (rest : List α) : search pattern (text ++ rest) = some (found ++ rest) := by
  induction text with
  | nil =>
      rw [search] at there
      split at there
      · rename_i empty
        obtain rfl := Option.some.inj there
        subst empty
        rw [List.nil_append]
        cases rest with
        | nil => rfl
        | cons c rest => exact if_pos List.nil_prefix
      · cases there
  | cons c text ih =>
      rw [search] at there
      rw [List.cons_append, search]
      split at there
      · rename_i here
        obtain rfl := Option.some.inj there
        exact if_pos (here.trans (List.prefix_append (c :: text) rest))
      · rename_i other
        obtain ⟨starts, ends⟩ := search_found there
        have short : pattern.length ≤ (c :: text).length :=
          Nat.le_trans starts.length_le (Nat.le_trans ends.length_le (Nat.le_succ _))
        have still : ¬ pattern <+: c :: (text ++ rest) := by
          intro here
          exact other (List.prefix_of_prefix_length_le here
            (List.prefix_append (c :: text) rest) short)
        rw [if_neg still]
        exact ih there

/-- One symbol that does not start the pattern is skipped. -/
theorem search_cons {c first : α} (other : c ≠ first) (text : List α) :
    search (first :: pattern) (c :: text) = search (first :: pattern) text :=
  search_pass fun here => other (List.cons_prefix_cons.mp here).1.symm

/-- A stretch without the first symbol of the pattern is skipped. -/
theorem search_skip {first : α} {stretch : List α} (without : first ∉ stretch) (text : List α) :
    search (first :: pattern) (stretch ++ text) = search (first :: pattern) text := by
  induction stretch with
  | nil => rfl
  | cons c stretch ih =>
      obtain ⟨other, rest⟩ := not_or.mp (fun member => without (List.mem_cons.mpr member))
      rw [List.cons_append, search_cons (Ne.symm other)]
      exact ih rest

end ParseEmbedded.Search
