import ParseEmbedded.SimpleJson.Messages

/-!
# Scanning a growing block of bytes

A scanner that stops at a byte has seen nothing behind it but one byte, which it forgets. So a
scan with another size stops at the same byte if that byte lies inside its block
(`beginAt_resize`, `endAt_resize`), and this is all there is to say about `getPushJson` on a block
that grows (`getPushJson_grow`): a beginning stays where it is, a message stays as it is, and
what was not found before ends behind the bytes of the earlier scan.
-/

set_option autoImplicit false

namespace ParseEmbedded.SimpleJson

/-! ## Where the two passes stop -/

/-- Where the first pass of `getPushJson` stops. -/
def beginAt (data : List Byte) (size : Nat) : Option Nat :=
  (findJsonBeginningParams data size false 0).stop

/-- Where the second pass of `getPushJson` stops, counted from the beginning it was given. -/
def endAt (data : List Byte) (size : Nat) : Option Nat :=
  (findJsonEndParams data size false 0 0).stop

theorem beginAt_lt {data : List Byte} {size p : Nat} (found : beginAt data size = some p) :
    p < size := by
  obtain ⟨before, rest, -, -, within, -⟩ := findJsonBeginning_stop_lt found
  exact within

theorem beginAt_resize {data : List Byte} {size other p : Nat}
    (found : beginAt data size = some p) (inside : p < other) : beginAt data other = some p :=
  findJsonBeginning_shrink inside found

theorem endAt_lt {data : List Byte} {size p : Nat} (found : endAt data size = some p) :
    p < size := by
  obtain ⟨body, after, -, -, within, -⟩ := findJsonEnd_stop_lt found
  exact within

theorem endAt_resize {data : List Byte} {size other p : Nat} (found : endAt data size = some p)
    (inside : p < other) : endAt data other = some p :=
  findJsonEnd_resize inside found

/-! ## The two results of `getPushJson` -/

/-- The start and the length that `getPushJson` reports. -/
def boundaries (data : List Byte) (dataSize : Nat) : Int × Int :=
  ((getPushJson data dataSize).start, (getPushJson data dataSize).length)

theorem boundaries_none {data : List Byte} {size : Nat} (none : beginAt data size = none) :
    boundaries data size = (-1, -1) := by
  change (findJsonBeginningParams data size false 0).stop = _ at none
  rw [boundaries, getPushJson_eq, none]

theorem boundaries_cut {data : List Byte} {size p : Nat} (begins : beginAt data size = some p)
    (none : endAt (data.drop p) (size - p) = none) : boundaries data size = ((p : Int), -1) := by
  change (findJsonBeginningParams data size false 0).stop = _ at begins
  change (findJsonEndParams (data.drop p) (size - p) false 0 0).stop = _ at none
  rw [boundaries, getPushJson_eq, begins]
  simp only [none]

theorem boundaries_complete {data : List Byte} {size p last : Nat}
    (begins : beginAt data size = some p) (ends : endAt (data.drop p) (size - p) = some last) :
    boundaries data size = ((p : Int), (last : Int) + 1) := by
  change (findJsonBeginningParams data size false 0).stop = _ at begins
  change (findJsonEndParams (data.drop p) (size - p) false 0 0).stop = _ at ends
  rw [boundaries, getPushJson_eq, begins]
  simp only [ends]

/-- The bytes behind the size, whatever they are, do not matter. -/
theorem boundaries_agree {data data' : List Byte} {size : Nat}
    (agree : data.take size = data'.take size) : boundaries data size = boundaries data' size := by
  have alone : ∀ block : List Byte, size ≤ block.length →
      boundaries block size = boundaries (block.take size) size := by
    intro block long
    have same := getPushJson_append (block.take size) (block.drop size)
    rw [List.take_append_drop, List.length_take_of_le long] at same
    exact Prod.ext same.1 same.2
  by_cases short : data.length < size ∨ data'.length < size
  · -- a block that is shorter than the size is the other block
    have equal : data = data' := by
      have lengths := congrArg List.length agree
      simp only [List.length_take] at lengths
      rwa [List.take_of_length_le (by omega), List.take_of_length_le (by omega)] at agree
    rw [equal]
  · rw [alone data (by omega), alone data' (by omega), agree]

/-- What a later scan of the same bytes may report, given what an earlier one of `size` bytes has
reported. -/
structure Grows (size : Nat) (before after : Int × Int) : Prop where
  complete : 0 < before.2 → after = before
  cut : 0 ≤ before.1 → before.2 = -1 →
    after.1 = before.1 ∧ (after.2 = -1 ∨ (size : Int) < after.1 + after.2)
  nothing : before.1 = -1 → after.1 = -1 ∨ (size : Int) ≤ after.1

/-- **A scan of more bytes keeps what a scan of fewer has found.** -/
theorem getPushJson_grow (data : List Byte) {n m : Nat} (le : n ≤ m) :
    Grows n (boundaries data n) (boundaries data m) := by
  cases begins : beginAt data n with
  | none =>
      rw [boundaries_none begins]
      refine ⟨fun positive => by omega, fun nonneg => by omega, fun _ => ?_⟩
      cases later : beginAt data m with
      | none =>
          rw [boundaries_none later]
          exact .inl rfl
      | some p =>
          have behind : n ≤ p := by
            by_contra inside
            rw [beginAt_resize later (by omega)] at begins
            cases begins
          cases ends : endAt (data.drop p) (m - p) with
          | none =>
              rw [boundaries_cut later ends]
              exact .inr (Int.ofNat_le.mpr behind)
          | some last =>
              rw [boundaries_complete later ends]
              exact .inr (Int.ofNat_le.mpr behind)
  | some p =>
      have inside := beginAt_lt begins
      have later : beginAt data m = some p := beginAt_resize begins (by omega)
      cases ends : endAt (data.drop p) (n - p) with
      | some last =>
          have within := endAt_lt ends
          rw [boundaries_complete begins ends,
            boundaries_complete later (endAt_resize ends (by omega))]
          exact ⟨fun _ => rfl, fun _ cut => by simp at cut; omega, fun none => by simp at none⟩
      | none =>
          rw [boundaries_cut begins ends]
          refine ⟨fun positive => by simp at positive, fun _ _ => ?_, fun none => by simp at none⟩
          cases ends' : endAt (data.drop p) (m - p) with
          | none =>
              rw [boundaries_cut later ends']
              exact ⟨rfl, .inl rfl⟩
          | some last =>
              have behind : n - p ≤ last := by
                by_contra within
                rw [endAt_resize ends' (by omega)] at ends
                cases ends
              rw [boundaries_complete later ends']
              refine ⟨rfl, .inr ?_⟩
              change (n : Int) < (p : Int) + ((last : Int) + 1)
              omega

end ParseEmbedded.SimpleJson
