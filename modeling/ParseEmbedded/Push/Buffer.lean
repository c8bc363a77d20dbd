import ParseEmbedded.Library.Block
import ParseEmbedded.SimpleJson.Messages

/-!
# The receive buffer of the push service

Both platforms collect the bytes of the push connection in a static buffer with a signed fill
count, look for a message in it with `getPushJson`, store a zero behind the message, hand it on
and move what is left to the front. `PushBuffer` is the buffer with its fill count,
`parse_push_message_buffer` and `parse_push_message_size` on Unix, `pushDataBuffer` and
`pushDataBufferUsed` on an RTOS.

The view for reasoning is the list of the unread bytes. Each operation of the buffer has one
lemma that says what it does to them.
-/

set_option autoImplicit false

namespace ParseEmbedded.Push

open SimpleJson

/-- The buffer and its fill count. -/
structure PushBuffer (capacity : Nat) where
  data : Block Byte capacity
  used : Int

/-- The width of a `size_t`. -/
inductive WordSize where
  | bits32
  | bits64
  deriving DecidableEq, Repr

/-- How many values a `size_t` has. -/
def WordSize.values : WordSize → Int
  | .bits32 => 4294967296
  | .bits64 => 18446744073709551616

/-- The conversion of an `int` to a `size_t`. -/
def toSizeT (word : WordSize) (i : Int) : Nat := (i % word.values).toNat

theorem toSizeT_of_nonneg (word : WordSize) {i : Int} (nonneg : 0 ≤ i) (small : i < 4294967296) :
    toSizeT word i = i.toNat := by
  have fits : i < word.values := by
    cases word with
    | bits32 => exact small
    | bits64 => exact Int.lt_trans small (by decide)
  rw [toSizeT, Int.emod_eq_of_lt nonneg fits]

/-- A fill count of minus one is the largest `size_t`. -/
theorem toSizeT_neg_one (word : WordSize) : 4294967295 ≤ toSizeT word (-1) := by
  cases word <;> decide

/-! ## Messages in a block of bytes -/

/-- Where a message stands. -/
structure Message where
  start : Nat
  length : Nat
  deriving DecidableEq, Repr

/-- The complete message that `getPushJson` finds in these bytes. -/
def completeMessage (bytes : List Byte) : Option Message :=
  let found := getPushJson bytes bytes.length
  if found.length = -1 then none else some ⟨found.start.toNat, found.length.toNat⟩

def Message.text (m : Message) (bytes : List Byte) : List Byte :=
  (bytes.drop m.start).take m.length

/-- `strncmp("{}", message, 2) == 0` -/
def isHeartbeat (message : CString) : Bool :=
  message.bytes.take 2 = [Byte.openBrace, Byte.closeBrace]

/-- A complete message lies inside the bytes. -/
structure Message.IsIn (m : Message) (bytes : List Byte) : Prop where
  two_le : 2 ≤ m.length
  inside : m.start + m.length ≤ bytes.length
  noNul : Byte.nul ∉ m.text bytes
  first : (m.text bytes).head? = some Byte.openBrace
  last : (m.text bytes).getLast? = some Byte.closeBrace

/-- **Both results of `getPushJson`, from the message it finds.** -/
theorem getPushJson_completeMessage (bytes : List Byte) :
    (completeMessage bytes = none ∧ (getPushJson bytes bytes.length).length = -1) ∨
      ∃ m : Message, completeMessage bytes = some m ∧ m.IsIn bytes ∧
        (getPushJson bytes bytes.length).start = m.start ∧
        (getPushJson bytes bytes.length).length = m.length := by
  have outcome := getPushJson_outcome bytes
  rw [completeMessage]
  generalize (getPushJson bytes bytes.length).start = start at outcome ⊢
  generalize (getPushJson bytes bytes.length).length = length at outcome ⊢
  cases outcome with
  | nothing => exact .inl ⟨rfl, rfl⟩
  | cut before rest split noNul => exact .inl ⟨rfl, rfl⟩
  | complete before message after split noNul first last =>
      have text : Message.text ⟨before.length, message.length⟩ bytes = message := by
        simp [Message.text, split]
      have notCut : ¬ (message.length : Int) = -1 := by omega
      refine .inr ⟨⟨before.length, message.length⟩, ?_, ⟨?_, ?_, ?_, ?_, ?_⟩, rfl, rfl⟩
      · rw [if_neg notCut]
        rfl
      · cases message with
        | nil => cases first
        | cons c tail =>
            cases tail with
            | nil =>
                simp only [List.head?_cons, List.getLast?_singleton] at first last
                exact absurd (first.symm.trans last) (by decide)
            | cons d tail => simp
      · simp only [split, List.length_append]
        omega
      · rw [text]
        exact fun member => noNul (List.mem_append_right before member)
      · rw [text]
        exact first
      · rw [text]
        exact last

theorem isIn_of_completeMessage {bytes : List Byte} {m : Message}
    (complete : completeMessage bytes = some m) : m.IsIn bytes := by
  rcases getPushJson_completeMessage bytes with ⟨none, -⟩ | ⟨m', same, isIn, -⟩
  · rw [none] at complete
    cases complete
  · rw [same] at complete
    cases complete
    exact isIn

/-- Where the two passes of `getPushJson` stop that find a message. -/
theorem completeMessage_stops {bytes : List Byte} {m : Message}
    (complete : completeMessage bytes = some m) :
    (findJsonBeginningParams bytes bytes.length false 0).stop = some m.start ∧
      (findJsonEndParams (bytes.drop m.start) (bytes.length - m.start) false 0 0).stop =
        some (m.length - 1) := by
  rw [completeMessage, getPushJson_eq] at complete
  cases beginning : (findJsonBeginningParams bytes bytes.length false 0).stop with
  | none => simp [beginning] at complete
  | some start =>
      cases ending :
          (findJsonEndParams (bytes.drop start) (bytes.length - start) false 0 0).stop with
      | none => simp [beginning, ending] at complete
      | some last =>
          have notCut : ¬ (last : Int) + 1 = -1 := by omega
          simp only [beginning, ending, if_neg notCut, Option.some.injEq] at complete
          subst complete
          exact ⟨rfl, ending⟩

theorem Message.IsIn.length_text {m : Message} {bytes : List Byte} (isIn : m.IsIn bytes) :
    (m.text bytes).length = m.length := by
  have := isIn.inside
  simp only [text, List.length_take, List.length_drop]
  omega

/-- The text of a message is itself a complete message. -/
theorem completeMessage_text {bytes : List Byte} {m : Message}
    (complete : completeMessage bytes = some m) :
    completeMessage (m.text bytes) = some ⟨0, m.length⟩ := by
  have isIn := isIn_of_completeMessage complete
  have length := isIn.length_text
  have two := isIn.two_le
  obtain ⟨inner, starts⟩ : ∃ inner, m.text bytes = Byte.openBrace :: inner :=
    List.head?_eq_some_iff.mp isIn.first
  have first : (findJsonBeginningParams (m.text bytes) m.length false 0).stop = some 0 := by
    rw [starts]
    exact congrArg BeginningScan.stop (findJsonBeginning_openBrace (by omega))
  -- the scan for the end stops at the same brace in the text alone
  have last : (findJsonEndParams (m.text bytes) m.length false 0 0).stop =
      some (m.length - 1) := by
    have inside : m.length - 1 < m.length := by omega
    have shrunk := findJsonEnd_resize inside (completeMessage_stops complete).2
    rw [← List.take_append_drop m.length (bytes.drop m.start)] at shrunk
    rw [← findJsonEnd_append _ _ _ _ _ _ (by omega)]
    exact shrunk
  rw [completeMessage, getPushJson_eq, length, first]
  simp only [List.drop_zero, Nat.sub_zero, last]
  have whole : ((m.length - 1 : Nat) : Int) + 1 = m.length := by omega
  have notCut : ¬ (m.length : Int) = -1 := by omega
  rw [whole, if_neg notCut]
  rfl

/-! ## The operations of the buffer -/

namespace PushBuffer

variable {capacity : Nat}

/-- The bytes received and not yet handed on. -/
def unread (p : PushBuffer capacity) : List Byte := p.data.cells.take p.used.toNat

/-- Bytes arrive behind the bytes already there. -/
def receive (p : PushBuffer capacity) (bytes : List Byte) : PushBuffer capacity :=
  ⟨p.data.store p.used.toNat bytes, p.used + bytes.length⟩

/-- `getPushJson(buffer, used, &start, &length)` -/
def pushJson (p : PushBuffer capacity) : PushJson := getPushJson p.data.cells p.used.toNat

/-- A zero is stored at this index. -/
def terminate (p : PushBuffer capacity) (index : Nat) : PushBuffer capacity :=
  { p with data := p.data.store index [Byte.nul] }

/-- The zero-terminated string that starts at this index. -/
def string (p : PushBuffer capacity) (index : Nat) : CString :=
  CString.ofMemory (p.data.cells.drop index)

/-- `used -= length + 1`, and the `memmove` if bytes are left. -/
def consume (p : PushBuffer capacity) (length : Nat) : PushBuffer capacity :=
  let used := p.used - (length + 1)
  if used > 0 then ⟨p.data.move 0 (length + 1) used.toNat, used⟩ else ⟨p.data, used⟩

/-- The range that the `memmove` writes. -/
def moved (p : PushBuffer capacity) (length : Nat) : List Extent :=
  let used := p.used - (length + 1)
  if used > 0 then [⟨0, used.toNat⟩] else []

variable {p : PushBuffer capacity}

theorem length_unread (inside : p.used ≤ capacity) : p.unread.length = p.used.toNat := by
  have := p.data.length_cells
  simp only [unread, List.length_take]
  omega

theorem unread_of_nonpos (nothing : p.used ≤ 0) : p.unread = [] := by
  rw [unread, Int.toNat_of_nonpos nothing, List.take_zero]

theorem unread_receive {bytes : List Byte} (nonneg : 0 ≤ p.used)
    (fits : p.used + bytes.length ≤ capacity) :
    (p.receive bytes).unread = p.unread ++ bytes := by
  have count : (p.used + bytes.length).toNat = p.used.toNat + bytes.length := by omega
  simp only [unread, receive, count]
  exact p.data.take_store (by omega)

/-- `getPushJson` sees the unread bytes only. -/
theorem pushJson_unread (inside : p.used ≤ capacity) :
    p.pushJson.start = (getPushJson p.unread p.unread.length).start ∧
      p.pushJson.length = (getPushJson p.unread p.unread.length).length := by
  have independent := getPushJson_append p.unread (p.data.cells.drop p.used.toNat)
  have whole : p.unread ++ p.data.cells.drop p.used.toNat = p.data.cells :=
    List.take_append_drop _ _
  rw [whole, length_unread inside] at independent
  rw [length_unread inside]
  exact independent

/-- The pointer returned is the place where the message starts. -/
theorem pushJson_json (inside : p.used ≤ capacity) (found : 0 ≤ p.pushJson.start) :
    p.pushJson.json = some (p.data.cells.drop p.pushJson.start.toNat) := by
  have sees := (pushJson_unread inside).1
  have pointer := @getPushJson_json p.unread (p.data.cells.drop p.used.toNat) (sees ▸ found)
  have whole : p.unread ++ p.data.cells.drop p.used.toNat = p.data.cells :=
    List.take_append_drop _ _
  rw [whole, ← sees, length_unread inside] at pointer
  exact pointer

/-- **Both results of a look into the buffer.** -/
theorem pushJson_completeMessage (inside : p.used ≤ capacity) :
    (completeMessage p.unread = none ∧ p.pushJson.length = -1) ∨
      ∃ m : Message, completeMessage p.unread = some m ∧ p.pushJson.start = m.start ∧
        p.pushJson.length = m.length ∧
        (p.pushJson.json.map fun _ => p.pushJson.start.toNat) = some m.start := by
  have sees := pushJson_unread inside
  rcases getPushJson_completeMessage p.unread with ⟨none, length⟩ | ⟨m, complete, -, start, length⟩
  · exact .inl ⟨none, sees.2.trans length⟩
  · have start := sees.1.trans start
    have pointer := pushJson_json inside (by omega)
    refine .inr ⟨m, complete, start, sees.2.trans length, ?_⟩
    rw [pointer, Option.map_some, start, Int.toNat_natCast]

theorem unread_terminate (index : Nat) :
    (p.terminate index).unread = p.unread.set index Byte.nul := by
  rw [unread, unread, terminate, Block.store_single, List.take_set]

theorem used_terminate (index : Nat) : (p.terminate index).used = p.used := rfl

theorem used_consume (length : Nat) : (p.consume length).used = p.used - (length + 1) := by
  rw [consume]
  split <;> rfl

theorem unread_consume (inside : p.used ≤ capacity) (length : Nat) :
    (p.consume length).unread = p.unread.drop (length + 1) := by
  have cells := p.data.length_cells
  rw [consume]
  split
  · rename_i left
    have source : length + 1 + (p.used - (length + 1)).toNat ≤ capacity := by omega
    have count : (p.used - (length + 1)).toNat = p.used.toNat - (length + 1) := by omega
    simp only [unread]
    rw [p.data.take_move source, List.drop_take, count]
  · rename_i nothing
    rw [unread_of_nonpos (Int.not_lt.mp nothing), List.drop_of_length_le]
    rw [length_unread inside]
    omega

/-- The `memmove` stays inside the buffer. -/
theorem moved_inside (inside : p.used ≤ capacity) (length : Nat) :
    ∀ extent ∈ p.moved length, extent.Inside capacity := by
  intro extent member
  rw [moved] at member
  split at member
  · cases List.mem_singleton.mp member
    rename_i left
    simp only [Extent.Inside]
    omega
  · cases member

/-- **The string handed on is the message**, also where its zero lies behind the buffer. -/
theorem string_terminate {m : Message} (inside : p.used ≤ capacity) (isIn : m.IsIn p.unread) :
    ((p.terminate (m.start + m.length)).string m.start).bytes = m.text p.unread := by
  have cells := p.data.length_cells
  have fits := isIn.inside
  rw [length_unread inside] at fits
  have text : m.text p.unread = (p.data.cells.drop m.start).take m.length := by
    rw [Message.text, unread, List.drop_take, List.take_take]
    congr 1
    omega
  have noNul : Byte.nul ∉ (p.data.cells.drop m.start).take m.length := text ▸ isIn.noNul
  rw [string, terminate, Block.store_single, text]
  by_cases last : m.start + m.length < capacity
  · have split : (p.data.cells.set (m.start + m.length) Byte.nul).drop m.start =
        (p.data.cells.drop m.start).take m.length ++
          Byte.nul :: (p.data.cells.drop m.start).drop (m.length + 1) := by
      rw [List.drop_set, if_neg (by omega), Nat.add_sub_cancel_left,
        List.set_eq_take_append_cons_drop, if_pos (by simp only [List.length_drop]; omega)]
    rw [split]
    exact CString.ofMemory_append_nul noNul _
  · rw [List.set_eq_of_length_le (by omega), CString.ofMemory_bytes]
    · exact (List.take_of_length_le (by simp only [List.length_drop]; omega)).symm
    · rwa [List.take_of_length_le (by simp only [List.length_drop]; omega)] at noNul

end PushBuffer

end ParseEmbedded.Push
