import Mathlib.Data.Finset.Basic
import Mathlib.Tactic.Common

/-!
# Handles that are opened and closed

What a program does with the handles it is given, as the list of its uses, and the handles that
are open behind them (`live`). Whether a handle is open depends on its own uses alone
(`mem_live_iff`), so a program that closes each handle it opens, once and afterwards, leaves open
what was open before (`live_of_closesEach`).
-/

set_option autoImplicit false

namespace ParseEmbedded.Handles

/-- What is done with a handle. -/
inductive Use (η : Type*) where
  | opened (handle : η)
  | closed (handle : η)
  deriving DecidableEq, Repr

variable {η : Type*}

def Use.handle : Use η → η
  | .opened handle => handle
  | .closed handle => handle

variable [DecidableEq η]

/-- The handles that are open behind a use. -/
def Use.apply (s : Finset η) : Use η → Finset η
  | .opened handle => insert handle s
  | .closed handle => s.erase handle

/-- The handles that are open behind some uses. -/
def live (s : Finset η) (uses : List (Use η)) : Finset η := uses.foldl Use.apply s

@[simp] theorem live_nil (s : Finset η) : live s [] = s := rfl

@[simp] theorem live_cons (s : Finset η) (use : Use η) (uses : List (Use η)) :
    live s (use :: uses) = live (use.apply s) uses := rfl

theorem live_append (s : Finset η) (first second : List (Use η)) :
    live s (first ++ second) = live (live s first) second := List.foldl_append

theorem mem_live_opened (handle : η) (handles : List η) : ∀ s : Finset η,
    handle ∈ live s (handles.map .opened) ↔ handle ∈ s ∨ handle ∈ handles := by
  induction handles with
  | nil =>
      intro s
      exact (or_iff_left List.not_mem_nil).symm
  | cons h handles ih =>
      intro s
      rw [List.map_cons, live_cons, ih, Use.apply, Finset.mem_insert, List.mem_cons,
        or_comm (a := handle = h), or_assoc]

theorem mem_live_closed (handle : η) (handles : List η) : ∀ s : Finset η,
    handle ∈ live s (handles.map .closed) ↔ handle ∈ s ∧ handle ∉ handles := by
  induction handles with
  | nil =>
      intro s
      exact (and_iff_left List.not_mem_nil).symm
  | cons h handles ih =>
      intro s
      rw [List.map_cons, live_cons, ih, Use.apply, Finset.mem_erase, List.mem_cons, not_or,
        and_comm (a := handle ≠ h), and_assoc]

/-- A use of another handle does not count. -/
theorem mem_apply_of_ne {s : Finset η} {use : Use η} {handle : η}
    (other : use.handle ≠ handle) : handle ∈ use.apply s ↔ handle ∈ s := by
  cases use with
  | opened h =>
      change h ≠ handle at other
      rw [Use.apply, Finset.mem_insert]
      exact or_iff_right other.symm
  | closed h =>
      change h ≠ handle at other
      rw [Use.apply, Finset.mem_erase]
      exact and_iff_right other.symm

theorem mem_apply_congr {first second : Finset η} {handle : η}
    (same : handle ∈ first ↔ handle ∈ second) (use : Use η) :
    handle ∈ use.apply first ↔ handle ∈ use.apply second := by
  cases use with
  | opened h =>
      rw [Use.apply, Use.apply, Finset.mem_insert, Finset.mem_insert, same]
  | closed h =>
      rw [Use.apply, Use.apply, Finset.mem_erase, Finset.mem_erase, same]

theorem mem_live_congr {handle : η} (uses : List (Use η)) : ∀ {first second : Finset η},
    (handle ∈ first ↔ handle ∈ second) →
      (handle ∈ live first uses ↔ handle ∈ live second uses) := by
  induction uses with
  | nil =>
      intro first second same
      exact same
  | cons use uses ih =>
      intro first second same
      exact ih (mem_apply_congr same use)

/-- **Whether a handle is open depends on its own uses alone.** -/
theorem mem_live_iff (handle : η) (uses : List (Use η)) : ∀ s : Finset η,
    handle ∈ live s uses ↔
      handle ∈ live s (uses.filter fun use => use.handle = handle) := by
  induction uses with
  | nil =>
      intro s
      rfl
  | cons use uses ih =>
      intro s
      rw [live_cons, ih]
      by_cases own : use.handle = handle
      · rw [List.filter_cons_of_pos (by simpa using own), live_cons]
      · rw [List.filter_cons_of_neg (by simpa using own)]
        exact mem_live_congr _ (mem_apply_of_ne own)

/-- Each handle that is opened is closed afterwards, and used no more. -/
def ClosesEach (uses : List (Use η)) : Prop :=
  ∀ handle, .opened handle ∈ uses →
    uses.filter (fun use => use.handle = handle) = [.opened handle, .closed handle]

/-- **Nothing stays open** where nothing was open and each handle is closed. -/
theorem live_of_closesEach {uses : List (Use η)} (closes : ClosesEach uses) :
    live ∅ uses = ∅ := by
  refine Finset.eq_empty_of_forall_notMem fun handle isOpen => ?_
  rw [mem_live_iff] at isOpen
  by_cases opened : .opened handle ∈ uses
  · rw [closes handle opened] at isOpen
    simp [Use.apply] at isOpen
  · have never : ∀ use ∈ uses.filter (fun use => use.handle = handle), use = .closed handle := by
      intro use member
      obtain ⟨inUses, own⟩ := List.mem_filter.mp member
      have own := of_decide_eq_true own
      cases use with
      | opened h =>
          obtain rfl : h = handle := own
          exact absurd inUses opened
      | closed h =>
          obtain rfl : h = handle := own
          rfl
    have closed : ∀ (rest : List (Use η)) (s : Finset η), handle ∉ s →
        (∀ use ∈ rest, use = .closed handle) → handle ∉ live s rest := by
      intro rest
      induction rest with
      | nil => exact fun _ notOpen _ => notOpen
      | cons use rest ih =>
          intro s notOpen all
          obtain ⟨here, there⟩ := List.forall_mem_cons.mp all
          rw [live_cons, here]
          exact ih _ (Finset.notMem_erase handle s) there
    exact closed _ ∅ (Finset.notMem_empty handle) never isOpen

/-- Several programs that close each of their handles, one after the other. -/
theorem live_flatten_of_closesEach {uses : List (List (Use η))}
    (closes : ∀ u ∈ uses, ClosesEach u) :
    live ∅ uses.flatten = ∅ := by
  induction uses with
  | nil => rfl
  | cons first rest ih =>
      obtain ⟨here, there⟩ := List.forall_mem_cons.mp closes
      rw [List.flatten_cons, live_append, live_of_closesEach here, ih there]

end ParseEmbedded.Handles
