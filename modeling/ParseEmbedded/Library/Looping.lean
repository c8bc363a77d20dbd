import Mathlib.Tactic.Common

/-!
# A loop that its inputs may end

The body of the loop takes a state and an input to the next state, and to the way it leaves the
loop if it does. The loop runs over a list of inputs, and is still running where they are used up.
`loop_ends` carries an invariant to the end, `loop_append` joins two lists of inputs,
`loop_append_of_some` adds inputs that the loop does not come to, and `loop_replicate` is for a loop
that one input never ends.
-/

set_option autoImplicit false

namespace ParseEmbedded.Looping

variable {σ ι ε : Type*} (pass : σ → ι → σ × Option ε)

/-- The state at the end of the loop and the way it is left, unless it is still running. -/
def loop : σ → List ι → Option (σ × ε)
  | _, [] => none
  | s, i :: inputs =>
      match (pass s i).2 with
      | some exit => some ((pass s i).1, exit)
      | none => loop (pass s i).1 inputs

/-- The state behind some inputs that have not ended the loop. -/
def behind (s : σ) (inputs : List ι) : σ := inputs.foldl (fun s i => (pass s i).1) s

variable {pass}

theorem loop_cons_of_some {s : σ} {i : ι} {exit : ε} (leaves : (pass s i).2 = some exit)
    (inputs : List ι) : loop pass s (i :: inputs) = some ((pass s i).1, exit) := by
  rw [loop, leaves]

theorem loop_cons_of_none {s : σ} {i : ι} (stays : (pass s i).2 = none) (inputs : List ι) :
    loop pass s (i :: inputs) = loop pass (pass s i).1 inputs := by
  rw [loop, stays]

/-- A loop over more inputs is still running exactly if it stays in the first pass and then is. -/
theorem loop_cons_eq_none {s : σ} {i : ι} {inputs : List ι} :
    loop pass s (i :: inputs) = none ↔
      (pass s i).2 = none ∧ loop pass (pass s i).1 inputs = none := by
  cases leaves : (pass s i).2 with
  | some exit =>
      rw [loop_cons_of_some leaves]
      simp
  | none =>
      rw [loop_cons_of_none leaves]
      simp

/-- **The rule for the end.** What every pass keeps that stays in the loop gives what a pass that
leaves it has. -/
theorem loop_ends (Inv : σ → Prop) (Ends : σ → ε → Prop)
    (keeps : ∀ s i, Inv s → (pass s i).2 = none → Inv (pass s i).1)
    (ends : ∀ s i exit, Inv s → (pass s i).2 = some exit → Ends (pass s i).1 exit)
    (inputs : List ι) : ∀ {s : σ}, Inv s → ∀ {ended : σ × ε},
      loop pass s inputs = some ended → Ends ended.1 ended.2 := by
  induction inputs with
  | nil =>
      intro s _ ended never
      exact absurd never (by simp [loop])
  | cons i inputs ih =>
      intro s inv ended done
      cases leaves : (pass s i).2 with
      | some exit =>
          rw [loop_cons_of_some leaves] at done
          rw [← Option.some.inj done]
          exact ends s i exit inv leaves
      | none =>
          rw [loop_cons_of_none leaves] at done
          exact ih (keeps s i inv leaves) done

/-- A loop that is still running behind some inputs goes on with the next ones. -/
theorem loop_append (inputs more : List ι) : ∀ {s : σ}, loop pass s inputs = none →
    loop pass s (inputs ++ more) = loop pass (behind pass s inputs) more := by
  induction inputs with
  | nil =>
      intro s _
      rfl
  | cons i inputs ih =>
      intro s running
      obtain ⟨stays, running⟩ := loop_cons_eq_none.mp running
      rw [List.cons_append, loop_cons_of_none stays]
      exact ih running

/-- A loop that has ended does not depend on what else would have come. -/
theorem loop_append_of_some (inputs more : List ι) {ended : σ × ε} : ∀ {s : σ},
    loop pass s inputs = some ended → loop pass s (inputs ++ more) = some ended := by
  induction inputs with
  | nil =>
      intro s never
      exact absurd never.symm (Option.some_ne_none ended)
  | cons i inputs ih =>
      intro s done
      cases leaves : (pass s i).2 with
      | some exit =>
          rw [loop_cons_of_some leaves] at done
          rw [List.cons_append, loop_cons_of_some leaves, done]
      | none =>
          rw [loop_cons_of_none leaves] at done
          rw [List.cons_append, loop_cons_of_none leaves]
          exact ih done

/-- An input that never ends the loop keeps it running for ever. -/
theorem loop_replicate (Inv : σ → Prop) {i : ι}
    (stays : ∀ s, Inv s → (pass s i).2 = none ∧ Inv (pass s i).1) (n : Nat) :
    ∀ {s : σ}, Inv s → loop pass s (List.replicate n i) = none := by
  induction n with
  | zero =>
      intro s _
      rfl
  | succ n ih =>
      intro s inv
      obtain ⟨stay, next⟩ := stays s inv
      rw [List.replicate_succ, loop_cons_of_none stay]
      exact ih next

end ParseEmbedded.Looping
