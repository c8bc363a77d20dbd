import ParseEmbedded.Library.Runs

/-!
# Events at a distance

A list in which every item stands in a relation to the one before, or to a beginning, `Follows`.
`run_follows` carries it from the steps of a system to its runs, where each step adds at most one
item, and the state remembers the last one.

A timer that is looked at now and then fires when more than an interval has gone by. Its firings are
more than the interval apart, and not much more where the looks are close to each other
(`firings_close`).
-/

set_option autoImplicit false

namespace ParseEmbedded.Pacing

open Runs

section Follows

variable {β γ : Type*} (key : β → γ) (R : γ → β → Prop)

/-- Every item stands in the relation to the key of the one before. -/
def Follows : γ → List β → Prop
  | _, [] => True
  | c, b :: items => R c b ∧ Follows (key b) items

/-- The key of the last item. -/
def lastKey : γ → List β → γ
  | c, [] => c
  | _, b :: items => lastKey (key b) items

end Follows

section Runs

variable {σ ι ο β γ δ : Type*} {step : σ → ι → σ × ο} (key : β → γ) (R : γ → β → Prop)
  (last : σ → γ) (emits : Transition σ ι ο → List β)

/-- **The rule for items at a distance**, in a run whose steps follow each other as they should.
Each step adds at most one item, and the state remembers the last one. The invariant may speak of
what the next step has to follow. -/
theorem run_follows_paced (pace : Transition σ ι ο → δ) (P : δ → Transition σ ι ο → Prop)
    (Inv : δ → σ → Prop)
    (keeps : ∀ d s i, Inv d s → P d (fire step s i) →
      Inv (pace (fire step s i)) (step s i).1 ∧
        (emits (fire step s i) = [] ∧ last (step s i).1 = last s ∨
          ∃ b, emits (fire step s i) = [b] ∧ R (last s) b ∧ last (step s i).1 = key b))
    (inputs : List ι) : ∀ {d : δ} {s : σ}, Inv d s → Follows pace P d (run step s inputs) →
      Inv (lastKey pace d (run step s inputs)) (final step s inputs) ∧
        Follows key R (last s) ((run step s inputs).flatMap emits) ∧
        last (final step s inputs) = lastKey key (last s) ((run step s inputs).flatMap emits) := by
  induction inputs with
  | nil =>
      intro d s inv _
      exact ⟨inv, trivial, rfl⟩
  | cons i inputs ih =>
      intro d s inv paced
      rw [run_cons] at paced
      obtain ⟨here, paced⟩ := paced
      obtain ⟨next, item⟩ := keeps d s i inv here
      obtain ⟨kept, follows, isLast⟩ := ih next paced
      rw [run_cons, List.flatMap_cons, final_cons]
      refine ⟨kept, ?_⟩
      rcases item with ⟨none, same⟩ | ⟨b, one, related, now⟩
      · rw [same] at follows isLast
        rw [none, List.nil_append]
        exact ⟨follows, isLast⟩
      · rw [now] at follows isLast
        rw [one, List.singleton_append]
        exact ⟨⟨related, follows⟩, isLast⟩

/-- Every list of items stands in a relation that always holds. -/
theorem follows_always {β γ : Type*} (key : β → γ) {R : γ → β → Prop} (always : ∀ c b, R c b)
    (items : List β) : ∀ c : γ, Follows key R c items := by
  induction items with
  | nil =>
      intro c
      trivial
  | cons b items ih =>
      intro c
      exact ⟨always c b, ih (key b)⟩

/-- The rule without a condition on the steps. -/
theorem run_follows
    (keeps : ∀ s i, emits (fire step s i) = [] ∧ last (step s i).1 = last s ∨
      ∃ b, emits (fire step s i) = [b] ∧ R (last s) b ∧ last (step s i).1 = key b)
    (inputs : List ι) (s : σ) :
    Follows key R (last s) ((run step s inputs).flatMap emits) ∧
      last (final step s inputs) = lastKey key (last s) ((run step s inputs).flatMap emits) :=
  (run_follows_paced key R last emits (fun _ => ()) (fun _ _ => True) (fun _ _ => True)
    (fun _ s i _ _ => ⟨trivial, keeps s i⟩) inputs trivial
    (follows_always _ (fun _ _ => trivial) _ ())).2

end Runs

/-! ## A timer that is looked at -/

variable (interval : Nat)

/-- The times at which the timer fires, of those at which it is looked at. -/
def firings : Nat → List Nat → List Nat
  | _, [] => []
  | last, now :: times =>
      if last + interval < now then now :: firings now times else firings last times

/-- **Looks that are close to each other miss no firing by more than their distance.** -/
theorem firings_close (distance : Nat) (times : List Nat) : ∀ {last seen : Nat},
    seen ≤ last + interval → Follows id (fun a b => b ≤ a + distance) seen times →
      Follows id (fun a b => a + interval < b ∧ b ≤ a + interval + distance) last
          (firings interval last times) ∧
        lastKey id seen times ≤ lastKey id last (firings interval last times) + interval := by
  induction times with
  | nil =>
      intro last seen early _
      exact ⟨trivial, early⟩
  | cons now times ih =>
      intro last seen early close
      obtain ⟨near, close⟩ := close
      rw [firings]
      split
      · rename_i late
        obtain ⟨follows, isLast⟩ := ih (Nat.le_add_right now interval) close
        exact ⟨⟨⟨late, by omega⟩, follows⟩, isLast⟩
      · rename_i notLate
        exact ih (Nat.le_of_not_lt notLate) close

end ParseEmbedded.Pacing
