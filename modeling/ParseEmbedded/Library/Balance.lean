import Mathlib.Algebra.BigOperators.Group.List.Basic
import Mathlib.Algebra.Ring.Int.Defs
import Mathlib.Data.List.Infix
import Mathlib.Tactic.Common

/-!
# The first return to level zero

Each symbol of a text has a weight, as an opening bracket and a closing one do, and the level of a
text is the sum. A reader that stops as soon as its level is zero has read the shortest part that
brings it back (`FirstReturn`), or the text as a whole: `untilReturn_cases`. Where a part that
brings it back comes first it stops there, whatever follows: `untilReturn_append`.
-/

set_option autoImplicit false

namespace ParseEmbedded.Balance

variable {α : Type*} (weight : α → Int)

/-- The sum of the weights. -/
def level (text : List α) : Int := (text.map weight).sum

@[simp] theorem level_nil : level weight [] = 0 := rfl

@[simp] theorem level_cons (c : α) (text : List α) :
    level weight (c :: text) = weight c + level weight text := by
  rw [level, List.map_cons, List.sum_cons, level]

theorem level_append (first second : List α) :
    level weight (first ++ second) = level weight first + level weight second := by
  rw [level, List.map_append, List.sum_append, level, level]

/-- What is read from a level up to the first return to zero, and what is left. -/
def untilReturn : Int → List α → List α × List α
  | _, [] => ([], [])
  | d, c :: text =>
      if d + weight c = 0 then ([c], text)
      else
        let rest := untilReturn (d + weight c) text
        (c :: rest.1, rest.2)

/-- From this level the part comes to level zero at its end, and nowhere before. -/
structure FirstReturn (d : Int) (part : List α) : Prop where
  returns : d + level weight part = 0
  first : ∀ read, read <+: part → read ≠ [] → read ≠ part → d + level weight read ≠ 0

instance decidableFirstReturn [DecidableEq α] (d : Int) (part : List α) :
    Decidable (FirstReturn weight d part) :=
  decidable_of_iff (d + level weight part = 0 ∧
      ∀ read ∈ part.inits, read ≠ [] → read ≠ part → d + level weight read ≠ 0)
    ⟨fun h => ⟨h.1, fun read isPrefix => h.2 read ((List.mem_inits read part).mpr isPrefix)⟩,
      fun h => ⟨h.returns, fun read member => h.first read ((List.mem_inits read part).mp member)⟩⟩

/-- From this level the text never comes to level zero. -/
def NoReturn (d : Int) (text : List α) : Prop :=
  ∀ read, read <+: text → read ≠ [] → d + level weight read ≠ 0

variable {weight} {d : Int} {c : α} {text : List α}

theorem untilReturn_of_eq (returns : d + weight c = 0) :
    untilReturn weight d (c :: text) = ([c], text) := if_pos returns

theorem untilReturn_of_ne (goesOn : d + weight c ≠ 0) :
    untilReturn weight d (c :: text) =
      (c :: (untilReturn weight (d + weight c) text).1,
        (untilReturn weight (d + weight c) text).2) := if_neg goesOn

variable (weight) in
/-- What is read and what is left are the text. -/
theorem untilReturn_whole (text : List α) :
    ∀ d, (untilReturn weight d text).1 ++ (untilReturn weight d text).2 = text := by
  induction text with
  | nil =>
      intro d
      rfl
  | cons c text ih =>
      intro d
      by_cases returns : d + weight c = 0
      · rw [untilReturn_of_eq returns]
        rfl
      · rw [untilReturn_of_ne returns]
        exact congrArg (c :: ·) (ih _)

theorem take_untilReturn (d : Int) (text : List α) :
    text.take (untilReturn weight d text).1.length = (untilReturn weight d text).1 := by
  have whole := untilReturn_whole weight text d
  exact (congrArg (List.take _) whole).symm.trans List.take_left

theorem drop_untilReturn (d : Int) (text : List α) :
    text.drop (untilReturn weight d text).1.length = (untilReturn weight d text).2 := by
  have whole := untilReturn_whole weight text d
  exact (congrArg (List.drop _) whole).symm.trans List.drop_left

theorem FirstReturn.single (returns : d + weight c = 0) : FirstReturn weight d [c] where
  returns := by simpa using returns
  first read isPrefix nonempty proper := by
    rcases List.prefix_cons_iff.mp isPrefix with rfl | ⟨rest, rfl, isRest⟩
    · exact absurd rfl nonempty
    · rw [List.prefix_nil.mp isRest] at proper
      exact absurd rfl proper

/-- A part of one symbol and more. -/
theorem firstReturn_cons (goesOn : d + weight c ≠ 0) :
    FirstReturn weight d (c :: text) ↔ FirstReturn weight (d + weight c) text := by
  have sum : ∀ read : List α, d + level weight (c :: read) = d + weight c + level weight read :=
    fun read => by rw [level_cons, Int.add_assoc]
  constructor
  · rintro ⟨returns, first⟩
    refine ⟨(sum text).symm.trans returns, fun read isPrefix _ proper => ?_⟩
    rw [← sum]
    refine first (c :: read) (List.cons_prefix_cons.mpr ⟨rfl, isPrefix⟩) (List.cons_ne_nil _ _) ?_
    exact fun same => proper (List.cons.inj same).2
  · rintro ⟨returns, first⟩
    refine ⟨(sum text).trans returns, fun read isPrefix nonempty proper => ?_⟩
    rcases List.prefix_cons_iff.mp isPrefix with rfl | ⟨rest, rfl, isRest⟩
    · exact absurd rfl nonempty
    rw [sum]
    by_cases empty : rest = []
    · rw [empty, level_nil, Int.add_zero]
      exact goesOn
    · exact first rest isRest empty fun same => proper (congrArg (c :: ·) same)

theorem noReturn_cons (goesOn : d + weight c ≠ 0) (never : NoReturn weight (d + weight c) text) :
    NoReturn weight d (c :: text) := by
  intro read isPrefix nonempty
  rcases List.prefix_cons_iff.mp isPrefix with rfl | ⟨rest, rfl, isRest⟩
  · exact absurd rfl nonempty
  rw [level_cons, ← Int.add_assoc]
  by_cases empty : rest = []
  · rw [empty, level_nil, Int.add_zero]
    exact goesOn
  · exact never rest isRest empty

variable (weight) in
/-- **A reader stops at its first return, or it reads the whole text.** -/
theorem untilReturn_cases (text : List α) : ∀ d,
    FirstReturn weight d (untilReturn weight d text).1 ∨
      untilReturn weight d text = (text, []) ∧ NoReturn weight d text := by
  induction text with
  | nil =>
      intro d
      exact Or.inr ⟨rfl, fun read isPrefix nonempty =>
        absurd (List.prefix_nil.mp isPrefix) nonempty⟩
  | cons c text ih =>
      intro d
      by_cases returns : d + weight c = 0
      · rw [untilReturn_of_eq returns]
        exact Or.inl (.single returns)
      · rw [untilReturn_of_ne returns]
        rcases ih (d + weight c) with first | ⟨all, never⟩
        · exact Or.inl ((firstReturn_cons returns).mpr first)
        · rw [all]
          exact Or.inr ⟨rfl, noReturn_cons returns never⟩

/-- **What brings the reader back is all it reads.** -/
theorem untilReturn_append (part : List α) (rest : List α) : ∀ d, part ≠ [] →
    FirstReturn weight d part → untilReturn weight d (part ++ rest) = (part, rest) := by
  induction part with
  | nil =>
      intro d nonempty _
      exact absurd rfl nonempty
  | cons c part ih =>
      intro d _ back
      by_cases empty : part = []
      · subst empty
        have returns := back.returns
        rw [level_cons, level_nil, Int.add_zero] at returns
        exact untilReturn_of_eq returns
      · have goesOn : d + weight c ≠ 0 := by
          have early := back.first [c] (List.cons_prefix_cons.mpr ⟨rfl, List.nil_prefix⟩)
            (List.cons_ne_nil c []) fun same => empty (List.cons.inj same).2.symm
          rwa [level_cons, level_nil, Int.add_zero] at early
        rw [List.cons_append, untilReturn_of_ne goesOn,
          ih (d + weight c) empty ((firstReturn_cons goesOn).mp back)]

/-- A part with something behind it is all that is read exactly if it brings the reader back. -/
theorem untilReturn_eq_iff {part rest : List α} (nonempty : part ≠ []) (more : rest ≠ []) :
    untilReturn weight d (part ++ rest) = (part, rest) ↔ FirstReturn weight d part := by
  constructor
  · intro read
    rcases untilReturn_cases weight (part ++ rest) d with first | ⟨all, -⟩
    · rwa [read] at first
    · exact absurd (Prod.mk.inj (read.symm.trans all)).2 more
  · exact untilReturn_append part rest d nonempty

end ParseEmbedded.Balance
