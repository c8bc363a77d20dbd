import Mathlib.Tactic.Common

/-!
# Runs of a deterministic system

A system is a function that takes a state and an input to the next state and an output. A run
takes a list of inputs, and is the list of its transitions. Three rules carry a fact about one
step to every run: `run_invariant` for an invariant that steps keep as long as they meet a
condition, `run_forall` for a property that every step has, and `run_forall_iff` for one that a
step has exactly when it meets a condition. An endless run takes an input for every number.
-/

set_option autoImplicit false

namespace ParseEmbedded.Runs

/-- A step taken: the state before, the input, the output and the state after. -/
structure Transition (σ ι ο : Type*) where
  before : σ
  input : ι
  output : ο
  after : σ

variable {σ ι ο : Type*} (step : σ → ι → σ × ο)

/-- The transition from a state on an input. -/
def fire (s : σ) (i : ι) : Transition σ ι ο := ⟨s, i, (step s i).2, (step s i).1⟩

@[simp] theorem fire_before (s : σ) (i : ι) : (fire step s i).before = s := rfl

/-- The transitions of a run. -/
def run : σ → List ι → List (Transition σ ι ο)
  | _, [] => []
  | s, i :: inputs => fire step s i :: run (step s i).1 inputs

/-- The state at the end of a run. -/
def final : σ → List ι → σ
  | s, [] => s
  | s, i :: inputs => final (step s i).1 inputs

@[simp] theorem run_nil (s : σ) : run step s [] = [] := rfl

@[simp] theorem run_cons (s : σ) (i : ι) (inputs : List ι) :
    run step s (i :: inputs) = fire step s i :: run step (step s i).1 inputs := rfl

@[simp] theorem final_nil (s : σ) : final step s [] = s := rfl

@[simp] theorem final_cons (s : σ) (i : ι) (inputs : List ι) :
    final step s (i :: inputs) = final step (step s i).1 inputs := rfl

/-- A run goes on where it has ended. -/
theorem run_append (inputs more : List ι) : ∀ s : σ,
    run step s (inputs ++ more) = run step s inputs ++ run step (final step s inputs) more := by
  induction inputs with
  | nil =>
      intro s
      rfl
  | cons i inputs ih =>
      intro s
      exact congrArg _ (ih (step s i).1)

theorem final_append (inputs more : List ι) : ∀ s : σ,
    final step s (inputs ++ more) = final step (final step s inputs) more := by
  induction inputs with
  | nil =>
      intro s
      rfl
  | cons i inputs ih =>
      intro s
      exact ih (step s i).1

/-- The step from the end of a run is the last one of a longer run. -/
theorem fire_final_mem (inputs : List ι) (i : ι) :
    ∀ s : σ, fire step (final step s inputs) i ∈ run step s (inputs ++ [i]) := by
  induction inputs with
  | nil =>
      intro s
      exact List.mem_cons_self ..
  | cons j inputs ih =>
      intro s
      exact List.mem_cons_of_mem _ (ih (step s j).1)

/-- It leads to the end of the longer run. -/
theorem fire_final_after (inputs : List ι) (i : ι) :
    ∀ s : σ, (fire step (final step s inputs) i).after = final step s (inputs ++ [i]) := by
  induction inputs with
  | nil =>
      intro s
      rfl
  | cons j inputs ih =>
      intro s
      exact ih (step s j).1

/-- Every transition of a run is a step. -/
theorem eq_fire_of_mem {inputs : List ι} : ∀ {s : σ} {t : Transition σ ι ο},
    t ∈ run step s inputs → t = fire step t.before t.input := by
  induction inputs with
  | nil =>
      intro s t member
      exact absurd member List.not_mem_nil
  | cons i inputs ih =>
      intro s t member
      rcases List.mem_cons.mp member with rfl | member
      · rfl
      · exact ih member

/-- The inputs of the transitions are those of the run. -/
theorem input_mem_of_mem {inputs : List ι} : ∀ {s : σ} {t : Transition σ ι ο},
    t ∈ run step s inputs → t.input ∈ inputs := by
  induction inputs with
  | nil =>
      intro s t member
      exact absurd member List.not_mem_nil
  | cons i inputs ih =>
      intro s t member
      rcases List.mem_cons.mp member with rfl | member
      · exact List.mem_cons_self ..
      · exact List.mem_cons_of_mem _ (ih member)

/-- **The invariant rule.** What every step keeps that meets a condition holds along every run
whose steps meet it. -/
theorem run_invariant (Inv : σ → Prop) (Meets : Transition σ ι ο → Prop)
    (keeps : ∀ s i, Inv s → Meets (fire step s i) → Inv (step s i).1) (inputs : List ι) :
    ∀ {s : σ}, Inv s → (∀ t ∈ run step s inputs, Meets t) →
      (∀ t ∈ run step s inputs, Inv t.before ∧ Inv t.after) ∧ Inv (final step s inputs) := by
  induction inputs with
  | nil =>
      intro s inv _
      exact ⟨fun _ member => absurd member (List.not_mem_nil), inv⟩
  | cons i inputs ih =>
      intro s inv meets
      have next := keeps s i inv (meets _ (List.mem_cons_self ..))
      obtain ⟨along, last⟩ := ih next fun t member => meets t (List.mem_cons_of_mem _ member)
      refine ⟨fun t member => ?_, last⟩
      rcases List.mem_cons.mp member with rfl | member
      · exact ⟨inv, next⟩
      · exact along t member

/-- An invariant of every step needs no condition. -/
theorem run_always (Inv : σ → Prop) (keeps : ∀ s i, Inv s → Inv (step s i).1) {s : σ}
    (init : Inv s) (inputs : List ι) :
    (∀ t ∈ run step s inputs, Inv t.before ∧ Inv t.after) ∧ Inv (final step s inputs) :=
  run_invariant step Inv (fun _ => True) (fun s i inv _ => keeps s i inv) inputs init
    fun _ _ => trivial

/-- **The rule for single steps.** What every step from an invariant state has, every transition
of a run has. -/
theorem run_forall (Inv : σ → Prop) (Holds : Transition σ ι ο → Prop)
    (keeps : ∀ s i, Inv s → Inv (step s i).1)
    (holds : ∀ s i, Inv s → Holds (fire step s i)) (inputs : List ι) :
    ∀ {s : σ}, Inv s → ∀ t ∈ run step s inputs, Holds t := by
  induction inputs with
  | nil =>
      intro s _ t member
      exact absurd member (List.not_mem_nil)
  | cons i inputs ih =>
      intro s inv t member
      rcases List.mem_cons.mp member with rfl | member
      · exact holds s i inv
      · exact ih (keeps s i inv) t member

/-- **The rule for exact conditions.** Where, under an invariant, a step has a property exactly
when it meets a condition, and such a step keeps the invariant, a run has the property
throughout exactly when it meets the condition throughout. -/
theorem run_forall_iff (Inv : σ → Prop) (Meets Holds : Transition σ ι ο → Prop)
    (sameStep : ∀ s i, Inv s → (Meets (fire step s i) ↔ Holds (fire step s i)))
    (keeps : ∀ s i, Inv s → Meets (fire step s i) → Inv (step s i).1) (inputs : List ι) :
    ∀ {s : σ}, Inv s →
      ((∀ t ∈ run step s inputs, Meets t) ↔ ∀ t ∈ run step s inputs, Holds t) := by
  induction inputs with
  | nil =>
      intro s _
      exact ⟨fun _ _ member => absurd member (List.not_mem_nil),
        fun _ _ member => absurd member (List.not_mem_nil)⟩
  | cons i inputs ih =>
      intro s inv
      simp only [run_cons, List.forall_mem_cons]
      constructor
      · rintro ⟨first, rest⟩
        exact ⟨(sameStep s i inv).mp first, (ih (keeps s i inv first)).mp rest⟩
      · rintro ⟨first, rest⟩
        have meets := (sameStep s i inv).mpr first
        exact ⟨meets, (ih (keeps s i inv meets)).mpr rest⟩

/-- The rule for exact conditions in a run whose steps are all promised something. -/
theorem run_forall_iff_promised (Inv : σ → Prop) (Promised Meets Holds : Transition σ ι ο → Prop)
    (sameStep : ∀ s i, Inv s → Promised (fire step s i) →
      (Meets (fire step s i) ↔ Holds (fire step s i)))
    (keeps : ∀ s i, Inv s → Promised (fire step s i) → Meets (fire step s i) →
      Inv (step s i).1) (inputs : List ι) {s : σ} (inv : Inv s)
    (promised : ∀ t ∈ run step s inputs, Promised t) :
    (∀ t ∈ run step s inputs, Meets t) ↔ ∀ t ∈ run step s inputs, Holds t := by
  have exactly := run_forall_iff step Inv (fun t => Promised t ∧ Meets t)
    (fun t => Promised t ∧ Holds t)
    (fun s i inv => and_congr_right fun promise => sameStep s i inv promise)
    (fun s i inv meets => keeps s i inv meets.1 meets.2) inputs inv
  constructor
  · intro meets t member
    exact (exactly.mp (fun t member => ⟨promised t member, meets t member⟩) t member).2
  · intro holds t member
    exact (exactly.mpr (fun t member => ⟨promised t member, holds t member⟩) t member).2

/-! ## Endless runs -/

/-- The state of an endless run behind its first inputs. -/
def behind (s : σ) (inputs : Nat → ι) : Nat → σ
  | 0 => s
  | n + 1 => (step (behind s inputs n) (inputs n)).1

/-- The transition of an endless run with this number. -/
def endless (s : σ) (inputs : Nat → ι) (n : Nat) : Transition σ ι ο :=
  fire step (behind step s inputs n) (inputs n)

/-- **The rule for endless runs.** What a step keeps exactly when it meets a condition is kept for
ever exactly when all steps meet it. -/
theorem endless_always_iff (Holds : σ → Prop) (Meets : Transition σ ι ο → Prop)
    (keeps : ∀ s i, Holds s → (Meets (fire step s i) ↔ Holds (step s i).1)) (s : σ)
    (inputs : Nat → ι) :
    (∀ n, Holds (endless step s inputs n).before) ↔
      Holds s ∧ ∀ n, Meets (endless step s inputs n) := by
  constructor
  · intro always
    refine ⟨always 0, fun n => ?_⟩
    exact (keeps _ _ (always n)).mpr (always (n + 1))
  · rintro ⟨first, meets⟩ n
    induction n with
    | zero => exact first
    | succ n ih => exact (keeps _ _ ih).mp (meets n)

end ParseEmbedded.Runs
