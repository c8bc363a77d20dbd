import Mathlib.Tactic.Common

/-!
# Texts cut in front of a mark

A segment is a mark with what follows it up to the next mark. The first segment of a text is
determined by the text, `segment_unique`. So where the first segment of a text is removed and the
text stays the same up to a place, all segments up to that place are equal, and what is behind them
moves up as it is: `segments_shift`.
-/

set_option autoImplicit false

namespace ParseEmbedded.Segments

variable {α : Type*} {mark : α}

/-- A text that starts with the mark and has no other one. -/
def IsSegment (mark : α) (segment : List α) : Prop := ∃ body, segment = mark :: body ∧ mark ∉ body

/-- A segment goes on with what has no mark. -/
theorem IsSegment.append {segment more : List α} (is : IsSegment mark segment)
    (none : mark ∉ more) : IsSegment mark (segment ++ more) := by
  obtain ⟨body, rfl, noneBefore⟩ := is
  exact ⟨body ++ more, rfl, fun member => (List.mem_append.mp member).elim noneBefore none⟩

/-- The first segment of a text that goes on with another one. -/
theorem segment_unique {first second behind behind' : List α} (isFirst : IsSegment mark first)
    (isSecond : IsSegment mark second)
    (same : first ++ mark :: behind = second ++ mark :: behind') :
    first = second ∧ behind = behind' := by
  obtain ⟨body, rfl, none⟩ := isFirst
  obtain ⟨body', rfl, none'⟩ := isSecond
  have bodies := (List.cons.inj same).2
  rcases List.append_eq_append_iff.mp bodies with ⟨more, longer, rest⟩ | ⟨more, longer, rest⟩
  · cases more with
    | nil =>
        rw [List.append_nil] at longer
        exact ⟨by rw [longer], (List.cons.inj rest).2⟩
    | cons c more =>
        obtain ⟨rfl, -⟩ := List.cons.inj rest
        exact absurd (longer ▸ List.mem_append_right _ List.mem_cons_self) none'
  · cases more with
    | nil =>
        rw [List.append_nil] at longer
        exact ⟨by rw [longer], (List.cons.inj rest).2.symm⟩
    | cons c more =>
        obtain ⟨rfl, -⟩ := List.cons.inj rest
        exact absurd (longer ▸ List.mem_append_right _ List.mem_cons_self) none

/-- Segments put together, with a text behind them that starts with a mark, start with one. -/
theorem flatten_append_starts {segments : List (List α)}
    (all : ∀ segment ∈ segments, IsSegment mark segment) (behind : List α) :
    ∃ rest, segments.flatten ++ mark :: behind = mark :: rest := by
  cases segments with
  | nil => exact ⟨behind, rfl⟩
  | cons segment segments =>
      obtain ⟨body, rfl, -⟩ := all segment List.mem_cons_self
      exact ⟨_, rfl⟩

/-- **A text that starts with the mark is put together of segments.** -/
theorem exists_segments (mark : α) (text : List α) :
    ∃ (init : List (List α)) (last : List α), mark :: text = init.flatten ++ last ∧
      IsSegment mark last ∧ ∀ segment ∈ init, IsSegment mark segment := by
  generalize length : text.length = n
  induction n using Nat.strongRecOn generalizing text with
  | ind n ih =>
      by_cases more : mark ∈ text
      · obtain ⟨body, rest, rfl, none⟩ := List.eq_append_cons_of_mem more
        have shorter : rest.length < n := by
          rw [← length, List.length_append, List.length_cons]
          omega
        obtain ⟨init, last, whole, isLast, all⟩ := ih rest.length shorter rest rfl
        refine ⟨(mark :: body) :: init, last, ?_, isLast, ?_⟩
        · rw [whole, List.flatten_cons, List.append_assoc, List.cons_append]
        · exact List.forall_mem_cons.mpr ⟨⟨body, rfl, none⟩, all⟩
      · exact ⟨[], mark :: text, rfl, ⟨text, rfl, more⟩, fun _ none => absurd none List.not_mem_nil⟩

/-- **Where the first segment is removed and the text stays as it was** up to the last one, what is
there in place of the last one is what follows the last one. -/
theorem segments_shift (init : List (List α)) : ∀ {last text behind : List α},
    (∀ segment ∈ init, IsSegment mark segment) → IsSegment mark last →
      init.flatten ++ mark :: text = (init ++ [last]).tail.flatten ++ mark :: behind →
        text = behind := by
  induction init with
  | nil =>
      intro last text behind _ _ same
      exact (List.cons.inj same).2
  | cons first init ih =>
      intro last text behind all isLast same
      obtain ⟨isFirst, others⟩ := List.forall_mem_cons.mp all
      obtain ⟨left, starts⟩ := flatten_append_starts others text
      have isNext : ∀ segment ∈ init ++ [last], IsSegment mark segment := by
        intro segment member
        rcases List.mem_append.mp member with earlier | isHere
        · exact others segment earlier
        · exact List.mem_singleton.mp isHere ▸ isLast
      obtain ⟨next, rest, cut⟩ : ∃ next rest, init ++ [last] = next :: rest :=
        List.exists_cons_of_ne_nil (List.append_ne_nil_of_right_ne_nil _ (List.cons_ne_nil _ _))
      rw [cut] at isNext
      obtain ⟨nextIs, restAre⟩ := List.forall_mem_cons.mp isNext
      obtain ⟨right, starts'⟩ := flatten_append_starts restAre behind
      rw [List.cons_append, List.tail_cons, cut, List.flatten_cons, List.flatten_cons,
        List.append_assoc, List.append_assoc, starts, starts'] at same
      obtain ⟨-, tails⟩ := segment_unique isFirst nextIs same
      have shifted : init.flatten ++ mark :: text =
          (init ++ [last]).tail.flatten ++ mark :: behind := by
        rw [starts, cut, List.tail_cons, starts', tails]
      exact ih others isLast shifted

end ParseEmbedded.Segments
