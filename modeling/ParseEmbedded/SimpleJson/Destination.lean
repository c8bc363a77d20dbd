import ParseEmbedded.SimpleJson.ValueScan

/-!
# The destination of a lookup

What `simpleJsonProcessor` leaves in its value buffer: at the front a text without a zero byte,
which leaves room for one, and, unless the lookup has failed, a zero behind it. So the buffer
keeps its length, and a zero in its last byte stays there. What is stored does not depend on the
buffer.
-/

set_option autoImplicit false

namespace ParseEmbedded.SimpleJson

/-- What a lookup leaves in a buffer: a text at the front, and behind it perhaps a zero. -/
def Leaves (buffer : List Byte) (size : Int) (after : List Byte) : Prop :=
  ∃ text : List Byte, Byte.nul ∉ text ∧ text.length ≤ (size - 1).toNat ∧
    (after = overwrite buffer text ∨ after = overwrite buffer (text ++ [Byte.nul]))

theorem overwrite_nil (buffer : List Byte) : overwrite buffer [] = buffer := rfl

theorem length_overwrite {buffer bytes : List Byte} (inside : bytes.length ≤ buffer.length) :
    (overwrite buffer bytes).length = buffer.length := by
  rw [overwrite, List.length_append, List.length_drop]
  omega

/-- **What a lookup leaves in its buffer.** -/
theorem simpleJsonProcessor_leaves {data key : CString} {buffer : List Byte} {size : Int}
    {lookup : Lookup} (done : simpleJsonProcessor data key (some buffer) size = .ok lookup) :
    ∃ after, lookup.value = some after ∧ Leaves buffer size after := by
  rcases lookup_cases done with ⟨-, rfl⟩ | ⟨text, some, noNul, -, rfl⟩
  · exact ⟨buffer, rfl, [], List.not_mem_nil, Nat.zero_le _, Or.inl (overwrite_nil buffer).symm⟩
  · obtain ⟨plain, short⟩ := extractAt_written (size - 1).toNat noNul
    rw [lookUpAt_some buffer size some]
    exact ⟨_, rfl, _, plain, short, Or.inr rfl⟩

/-- A lookup with another buffer: it stores the same bytes there. -/
def Lookup.onto (lookup : Lookup) (buffer : List Byte) : Lookup :=
  ⟨lookup.result, lookup.value.map (overwrite buffer)⟩

theorem overwrite_overwrite (buffer text : List Byte) :
    overwrite buffer (overwrite [] text) = overwrite buffer text := by
  rw [overwrite, overwrite, overwrite, List.drop_nil, List.append_nil]

theorem lookUpAt_onto (buffer : List Byte) (size : Int) (text : List Byte) :
    lookUpAt (some buffer) size text = (lookUpAt (some []) size text).onto buffer := by
  by_cases nonempty : text = []
  · rw [lookUpAt, lookUpAt, if_pos nonempty, if_pos nonempty]
    rfl
  · rw [lookUpAt_some buffer size nonempty, lookUpAt_some [] size nonempty, Lookup.onto,
      Option.map_some, overwrite_overwrite]

/-- **What a lookup stores does not depend on the buffer.** -/
theorem simpleJsonProcessor_onto (data key : CString) (buffer : List Byte) (size : Int) :
    simpleJsonProcessor data key (some buffer) size =
      (simpleJsonProcessor data key (some []) size).map fun lookup => lookup.onto buffer := by
  by_cases nonempty : key.bytes = []
  · rw [simpleJsonProcessor, simpleJsonProcessor, if_pos nonempty, if_pos nonempty]
    rfl
  · rw [simpleJsonProcessor_eq data nonempty, simpleJsonProcessor_eq data nonempty]
    cases scan key.bytes ⟨data.bytes, false, 0⟩ with
    | absent => rfl
    | malformed => rfl
    | overread => rfl
    | stopped text => exact congrArg Except.ok (lookUpAt_onto buffer size text)

end ParseEmbedded.SimpleJson
