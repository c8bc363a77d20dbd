import Mathlib.Data.List.Forall2
import ParseEmbedded.Library.Runs

/-!
# Simulations

Two machines take the same inputs. If related states stay related under an input, and what the two
machines show is related each time, then whole runs show the same: `run_simulates`.
-/

set_option autoImplicit false

namespace ParseEmbedded.Simulation

open Runs

variable {σ τ ι ο π : Type*} {step : σ → ι → σ × ο} {spec : τ → ι → τ × π}
  (Related : σ → τ → Prop) (Allowed : ι → Prop) (Shows : ο → π → Prop)

/-- The first machine simulates the second in one step, for the inputs that are allowed. -/
def Simulates (step : σ → ι → σ × ο) (spec : τ → ι → τ × π) : Prop :=
  ∀ s t i, Related s t → Allowed i →
    Related (step s i).1 (spec t i).1 ∧ Shows (step s i).2 (spec t i).2

/-- What a run shows, input by input. -/
def shown (step : σ → ι → σ × ο) (s : σ) (inputs : List ι) : List ο :=
  (run step s inputs).map Transition.output

theorem shown_cons (s : σ) (i : ι) (inputs : List ι) :
    shown step s (i :: inputs) = (step s i).2 :: shown step (step s i).1 inputs := rfl

/-- **The rule for simulations.** -/
theorem run_simulates (simulates : Simulates Related Allowed Shows step spec) (inputs : List ι) :
    ∀ {s : σ} {t : τ}, Related s t → (∀ i ∈ inputs, Allowed i) →
      Related (final step s inputs) (final spec t inputs) ∧
        List.Forall₂ Shows (shown step s inputs) (shown spec t inputs) := by
  induction inputs with
  | nil =>
      intro s t related _
      exact ⟨related, .nil⟩
  | cons i inputs ih =>
      intro s t related allowed
      obtain ⟨isAllowed, areAllowed⟩ := List.forall_mem_cons.mp allowed
      obtain ⟨next, first⟩ := simulates s t i related isAllowed
      obtain ⟨last, others⟩ := ih next areAllowed
      refine ⟨last, ?_⟩
      rw [shown_cons, shown_cons]
      exact .cons first others

end ParseEmbedded.Simulation
