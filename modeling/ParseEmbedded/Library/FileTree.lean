import Mathlib.Data.List.Induction
import Mathlib.Tactic.Common

/-!
# Trees of directories and files

A tree says what stands at each path, a list of names from the root on, and lists the names in
each directory. That every entry stands in a directory, and that the lists are right, are fields
of the tree. The two operations, `put` and `erase`, do nothing where a file system would refuse:
`put` needs a directory and replaces no directory, `erase` takes away a file or an empty
directory.

A path is looked up by a walk, which may also stay where it is or go up. Through names alone it
arrives exactly where there is a directory (`walk_down`).
-/

set_option autoImplicit false

namespace ParseEmbedded

/-- What stands at a path. -/
inductive Node (α : Type*) where
  | directory
  | file (content : α)
  deriving DecidableEq

instance decidableDirectory {α : Type*} (x : Option (Node α)) :
    Decidable (x = some .directory) :=
  match x with
  | none => isFalse (by simp)
  | some .directory => isTrue rfl
  | some (.file _) => isFalse (by simp)

/-- A tree of directories and files. -/
structure FileTree (ν α : Type*) where
  node : List ν → Option (Node α)
  entries : List ν → List ν
  root : node [] = some .directory
  listed : ∀ p n, n ∈ entries p ↔ node (p ++ [n]) ≠ none
  closed : ∀ p n, node (p ++ [n]) ≠ none → node p = some .directory

/-- A step of a walk through a tree. -/
inductive PathStep (ν : Type*) where
  | stay
  | up
  | down (name : ν)
  deriving DecidableEq

namespace FileTree

variable {ν α : Type*}

theorem snoc_inj {p q : List ν} {n m : ν} (same : p ++ [n] = q ++ [m]) : p = q ∧ n = m := by
  have parts := List.append_inj' same rfl
  exact ⟨parts.1, List.singleton_inj.mp parts.2⟩

/-- The tree with nothing in it but its root. -/
def bare [DecidableEq ν] : FileTree ν α where
  node p := if p = [] then some .directory else none
  entries _ := []
  root := rfl
  listed := by simp
  closed := by simp

section Shape

variable (t : FileTree ν α) {p : List ν} {n : ν}

/-- What has something below it is a directory. -/
theorem directory_of_below {q : List ν} (below : q ≠ []) (there : t.node (p ++ q) ≠ none) :
    t.node p = some .directory := by
  induction q using List.reverseRecOn with
  | nil => exact absurd rfl below
  | append_singleton q n ih =>
      rw [← List.append_assoc] at there
      have parent := t.closed _ _ there
      by_cases empty : q = []
      · rw [empty, List.append_nil] at parent
        exact parent
      · exact ih empty (parent ▸ Option.some_ne_none _)

/-- Nothing stands in a file, or where there is nothing. -/
theorem entries_eq_nil (noDirectory : t.node p ≠ some .directory) : t.entries p = [] := by
  refine List.eq_nil_iff_forall_not_mem.mpr fun n member => noDirectory ?_
  exact t.closed _ _ ((t.listed p n).mp member)

end Shape

section Changes

variable [DecidableEq ν] (t : FileTree ν α)

/-! ## Putting and erasing -/

/-- Puts a file or an empty directory into a directory. -/
def put (p : List ν) (n : ν) (x : Node α) : FileTree ν α :=
  if allowed : t.node p = some .directory ∧ t.node (p ++ [n]) ≠ some .directory then
    { node := Function.update t.node (p ++ [n]) (some x)
      entries := if n ∈ t.entries p then t.entries
        else Function.update t.entries p (t.entries p ++ [n])
      root := by
        rw [Function.update_of_ne (by simp)]
        exact t.root
      listed := fun q m => by
        have old := t.listed q m
        by_cases same : q ++ [m] = p ++ [n]
        · obtain ⟨rfl, rfl⟩ := snoc_inj same
          rw [Function.update_self]
          refine iff_of_true ?_ (Option.some_ne_none _)
          split
          · assumption
          · simp
        · rw [Function.update_of_ne same, ← old]
          split
          · rfl
          · by_cases dir : q = p
            · subst dir
              have other : m ≠ n := fun h => same (by rw [h])
              simp [other]
            · rw [Function.update_of_ne dir]
      closed := fun q m there => by
        by_cases inside : q = p ++ [n]
        · subst inside
          rw [Function.update_of_ne (by simp)] at there
          exact absurd (t.closed _ _ there) allowed.2
        · rw [Function.update_of_ne inside]
          by_cases same : q ++ [m] = p ++ [n]
          · obtain ⟨rfl, rfl⟩ := snoc_inj same
            exact allowed.1
          · rw [Function.update_of_ne same] at there
            exact t.closed _ _ there }
  else t

/-- Takes away a file or an empty directory. -/
def erase (p : List ν) (n : ν) : FileTree ν α :=
  if allowed : t.entries (p ++ [n]) = [] then
    { node := Function.update t.node (p ++ [n]) none
      entries := Function.update t.entries p ((t.entries p).filter (· ≠ n))
      root := by
        rw [Function.update_of_ne (by simp)]
        exact t.root
      listed := fun q m => by
        have old := t.listed q m
        by_cases same : q ++ [m] = p ++ [n]
        · obtain ⟨rfl, rfl⟩ := snoc_inj same
          simp
        · rw [Function.update_of_ne same, ← old]
          by_cases dir : q = p
          · subst dir
            have other : m ≠ n := fun h => same (by rw [h])
            simp [other]
          · rw [Function.update_of_ne dir]
      closed := fun q m there => by
        by_cases same : q ++ [m] = p ++ [n]
        · rw [same, Function.update_self] at there
          exact absurd rfl there
        · rw [Function.update_of_ne same] at there
          by_cases inside : q = p ++ [n]
          · have member := (t.listed q m).mpr there
            rw [inside, allowed] at member
            exact absurd member List.not_mem_nil
          · rw [Function.update_of_ne inside]
            exact t.closed _ _ there }
  else t

variable {p : List ν} {n : ν}

theorem node_put {x : Node α} (directory : t.node p = some .directory)
    (noDirectory : t.node (p ++ [n]) ≠ some .directory) :
    (t.put p n x).node = Function.update t.node (p ++ [n]) (some x) := by
  rw [put, dif_pos ⟨directory, noDirectory⟩]

theorem node_erase (allowed : t.entries (p ++ [n]) = []) :
    (t.erase p n).node = Function.update t.node (p ++ [n]) none := by
  rw [erase, dif_pos allowed]

end Changes

/-! ## Walking -/

section Walking

variable (t : FileTree ν α)

/-- Where a walk from a directory arrives, if it goes through directories only. -/
def walk : List ν → List (PathStep ν) → Option (List ν)
  | p, [] => some p
  | p, .stay :: steps => walk p steps
  | p, .up :: steps => walk p.dropLast steps
  | p, .down n :: steps =>
      if t.node (p ++ [n]) = some .directory then walk (p ++ [n]) steps else none

theorem walk_down (names : List ν) : ∀ {p : List ν}, t.node p = some .directory →
    t.walk p (names.map .down) =
      if t.node (p ++ names) = some .directory then some (p ++ names) else none := by
  induction names with
  | nil =>
      intro p directory
      simp [walk, directory]
  | cons n names ih =>
      intro p directory
      rw [List.map_cons, walk]
      by_cases below : t.node (p ++ [n]) = some .directory
      · rw [if_pos below, ih below, List.append_assoc, List.singleton_append]
      · rw [if_neg below, if_neg]
        intro there
        have cut : p ++ n :: names = (p ++ [n]) ++ names := by simp
        rw [cut] at there
        by_cases last : names = []
        · rw [last, List.append_nil] at there
          exact below there
        · exact below (t.directory_of_below last (there ▸ Option.some_ne_none _))

end Walking

end FileTree

end ParseEmbedded
