import Mathlib.Data.List.Basic
import Mathlib.Data.List.Nodup
import ParseEmbedded.Library.Runs

/-!
# Reading a log in parts

A reader gets the entries of a log in parts. It remembers the key of the last entry it has taken,
and each part is the beginning of what the log has behind the entry with that key.
`run_continues` says what the steps of a system take together that each take such a part: the
beginning of the log, with no entry left out and none twice, if no two entries have the same key.
-/

set_option autoImplicit false

namespace ParseEmbedded.Resuming

open Runs

variable {α κ : Type*} (key : α → κ)

/-- The key of the last entry that has been taken. -/
def lastTaken (last : Option κ) (part : List α) : Option κ := ((part.map key).getLast?).or last

theorem lastTaken_append (last : Option κ) (part more : List α) :
    lastTaken key last (part ++ more) = lastTaken key (lastTaken key last part) more := by
  rw [lastTaken, lastTaken, lastTaken, List.map_append, List.getLast?_append, Option.or_assoc]

theorem lastTaken_concat (last : Option κ) (part : List α) (a : α) :
    lastTaken key last (part ++ [a]) = some (key a) := by
  rw [lastTaken_append]
  rfl

variable [DecidableEq κ]

/-- What the log has behind the entry with this key, and all of it without a key. -/
def behind (log : List α) : Option κ → List α
  | none => log
  | some k => (log.dropWhile fun a => key a ≠ k).tail

theorem mem_of_mem_behind {log : List α} {last : Option κ} {a : α}
    (member : a ∈ behind key log last) : a ∈ log := by
  cases last with
  | none => exact member
  | some k => exact (List.dropWhile_sublist _).subset (List.mem_of_mem_tail member)

/-- **Behind the entries that have been taken there are the others.** -/
theorem behind_append {front back : List α} (distinct : ((front ++ back).map key).Nodup) :
    behind key (front ++ back) (lastTaken key none front) = back := by
  rcases List.eq_nil_or_concat' front with rfl | ⟨before, a, rfl⟩
  · rfl
  · have notBefore : ∀ b ∈ before, key b ≠ key a := by
      intro b member same
      rw [List.map_append, List.map_append, List.nodup_append, List.nodup_append] at distinct
      exact distinct.1.2.2 (key b) (List.mem_map_of_mem member) (key a)
        (List.mem_map_of_mem (List.mem_singleton_self a)) same
    rw [lastTaken_concat, behind, List.append_assoc, List.dropWhile_append_of_pos]
    · rw [List.singleton_append, List.dropWhile_cons_of_neg (by simp), List.tail_cons]
    · exact fun b member => decide_eq_true (notBefore b member)

/-- The entries that have been taken and those behind them are the log. -/
theorem append_behind {log front : List α} (distinct : (log.map key).Nodup)
    (isFront : front <+: log) : front ++ behind key log (lastTaken key none front) = log := by
  obtain ⟨back, rfl⟩ := isFront
  rw [behind_append key distinct]

section Runs

variable {σ ι ο β : Type*} (last : σ → Option κ) (shows : Transition σ ι ο → List β)
  (text : α → β) (log : List α)

/-- A step shows the entries of a part that continues the log, and remembers the last of them. -/
def Continues (t : Transition σ ι ο) : Prop :=
  ∃ part, part <+: behind key log (last t.before) ∧ shows t = part.map text ∧
    last t.after = lastTaken key (last t.before) part

/-- **The rule for logs that are read in parts.** In a run whose steps continue the log, together
they show what it has behind the entries in front. -/
theorem run_continues {step : σ → ι → σ × ο} (distinct : (log.map key).Nodup) (Inv : σ → Prop)
    (P : Transition σ ι ο → Prop)
    (keeps : ∀ s i, Inv s → P (fire step s i) →
      Inv (step s i).1 ∧ Continues key last shows text log (fire step s i))
    (inputs : List ι) : ∀ {s : σ} {front : List α}, Inv s → front <+: log →
      last s = lastTaken key none front → (∀ t ∈ run step s inputs, P t) →
        Inv (final step s inputs) ∧ ∃ shown, front ++ shown <+: log ∧
          (run step s inputs).flatMap shows = shown.map text ∧
          last (final step s inputs) = lastTaken key none (front ++ shown) := by
  induction inputs with
  | nil =>
      intro s front inv isFront isLast _
      rw [← List.append_nil front] at isFront isLast
      exact ⟨inv, [], isFront, rfl, isLast⟩
  | cons i inputs ih =>
      rintro s front inv ⟨back, rfl⟩ isLast all
      rw [run_cons, List.forall_mem_cons] at all
      obtain ⟨inv, part, isPart, shown, next⟩ := keeps s i inv all.1
      rw [fire_before, isLast] at isPart next
      rw [behind_append key distinct] at isPart
      rw [← lastTaken_append] at next
      obtain ⟨inv, others, isPrefix, more, isLast⟩ :=
        ih inv ((List.prefix_append_right_inj front).mpr isPart) next all.2
      rw [List.append_assoc] at isPrefix isLast
      refine ⟨inv, part ++ others, isPrefix, ?_, isLast⟩
      rw [run_cons, List.flatMap_cons, shown, more, List.map_append]

end Runs

end ParseEmbedded.Resuming
