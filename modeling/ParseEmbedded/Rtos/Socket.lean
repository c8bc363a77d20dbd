import ParseEmbedded.Bytes
import ParseEmbedded.Library.Block

/-!
# The sockets of the CC3200

`socketRead` of `socket.c` waits with `select`, takes what `recv` has, and goes on until the
buffer is full but for one byte, which is kept for the zero behind the bytes. What the driver
answers is an input, one `SocketRound` for each pass of the loop; when the answers are used up,
`select` times out. The file waits with one timeout before the first bytes and with another one
behind them; both only decide how `select` answers.

`Reads` is what the loop keeps, and `socketRead_reads` what a call leaves: the bytes it counts
stand in the buffer, behind them there is still room for a byte, and every store is inside.
-/

set_option autoImplicit false

namespace ParseEmbedded.Rtos

/-- The code of the driver for a `recv` that would have to wait. -/
abbrev EAGAIN : Int := -11

/-- How `recv` answers, once it does not answer `EAGAIN`. Of the bytes it has, it stores at most
as many as asked for. -/
inductive RecvAnswer where
  | bytes (bytes : List Byte)
  | failed (status : { status : Int // status < 0 ∧ status ≠ EAGAIN })
  deriving DecidableEq

/-- One pass of the loop of `socketRead`: the answer of `select`, how often `recv` answers
`EAGAIN` first, and its answer then. -/
structure SocketRound where
  wait : Int
  agains : Nat
  answer : RecvAnswer
  deriving DecidableEq

/-- The buffer and the local variables of `socketRead`, the bytes received in place of their
number, and the ranges written. -/
structure Reading (capacity : Nat) where
  memory : Block Byte capacity
  bytes : List Byte
  status : Int
  readBlock : Bool
  writes : List Extent

namespace Reading

variable {capacity : Nat}

/-- `receiveBuffer[bytesReceived] = 0` -/
def terminate (offset : Nat) (reading : Reading capacity) : Reading capacity :=
  let place := offset + reading.bytes.length
  { reading with
    memory := reading.memory.store place [Byte.nul]
    writes := reading.writes ++ [⟨place, 1⟩] }

/-- `recv` has bytes: they are stored behind the ones received before. -/
def recv (offset size : Nat) (bytes : List Byte) (reading : Reading capacity) :
    Reading capacity :=
  let place := offset + reading.bytes.length
  let room := size - reading.bytes.length - 1
  let stored := bytes.take room
  { memory := reading.memory.store place stored
    bytes := reading.bytes ++ stored
    status := stored.length
    readBlock := true
    writes := reading.writes ++ [⟨place, room⟩] }

/-- The loop of `socketRead`. -/
def rounds (offset size : Nat) : List SocketRound → Reading capacity → Reading capacity
  | [], reading => { reading with status := 0 }
  | round :: rest, reading =>
      if round.wait ≤ 0 then { reading with status := round.wait }
      -- before the first bytes `EAGAIN` is asked again, behind them it ends the loop
      else if reading.readBlock ∧ round.agains > 0 then { reading with status := EAGAIN }
      else
        match round.answer with
        | .failed status => { reading with status := status }
        | .bytes bytes =>
            let next := (reading.recv offset size bytes).terminate offset
            if next.bytes.length < size - 1 then rounds offset size rest next else next

/-- The value that `socketRead` returns. -/
def result (reading : Reading capacity) : Int :=
  if reading.status < 0 then reading.status else reading.bytes.length

end Reading

/-- `socketRead` into the `size` bytes of the buffer from `offset` on, with what it returns. -/
def socketRead {capacity : Nat} (socketHandle : Int) (memory : Block Byte capacity)
    (offset size : Nat) (rounds : List SocketRound) : Reading capacity × Int :=
  let entered : Reading capacity := ⟨memory, [], 0, false, []⟩
  if socketHandle < 0 then (entered, socketHandle)
  else if size = 0 then (entered, -1)
  else
    let reading := ((entered.terminate offset).rounds offset size rounds).terminate offset
    (reading, reading.result)

/-- `socketWrite` of a zero-terminated string, where `send` answers like this. -/
def socketWrite (socketHandle : Int) (sendBuffer : List Byte) (send : Int) : Int :=
  if socketHandle < 0 then socketHandle
  else if sendBuffer.length > 0 then send
  else 0

/-! ## What a call leaves -/

/-- Without rounds nothing is read. -/
theorem socketRead_nil {capacity : Nat} (socketHandle : Int) (memory : Block Byte capacity)
    (offset size : Nat) : (socketRead socketHandle memory offset size []).1.bytes = [] := by
  rw [socketRead]
  split
  · rfl
  · split <;> rfl

/-- The bytes received stand in the buffer, with room for a byte behind them, and the cells in
front of them are as they were. -/
structure Reads {capacity : Nat} (memory : Block Byte capacity) (offset size : Nat)
    (reading : Reading capacity) : Prop where
  room : reading.bytes.length < size
  stored : reading.memory.cells.take (offset + reading.bytes.length) =
    memory.cells.take offset ++ reading.bytes
  writes : ∀ extent ∈ reading.writes, extent.Inside capacity

section Reads

variable {capacity : Nat} {memory : Block Byte capacity} {offset size : Nat}
  {reading : Reading capacity} (inside : offset + size ≤ capacity)

include inside

theorem Reads.terminate (reads : Reads memory offset size reading) :
    Reads memory offset size (reading.terminate offset) := by
  have room := reads.room
  refine ⟨room, ?_, ?_⟩
  · have before : offset + reading.bytes.length ≤ capacity := by omega
    exact (Block.take_store_before _ (Nat.le_refl _) before).trans reads.stored
  · refine List.forall_mem_append.mpr ⟨reads.writes, List.forall_mem_singleton.mpr ?_⟩
    simp only [Extent.Inside]
    omega

theorem Reads.recv (reads : Reads memory offset size reading) (bytes : List Byte) :
    Reads memory offset size (reading.recv offset size bytes) := by
  have room := reads.room
  have count : (bytes.take (size - reading.bytes.length - 1)).length ≤
      size - reading.bytes.length - 1 := by
    simp only [List.length_take]
    omega
  refine ⟨?_, ?_, ?_⟩
  · simp only [Reading.recv, List.length_append]
    omega
  · simp only [Reading.recv, List.length_append]
    rw [← Nat.add_assoc, Block.take_store _ (by omega), reads.stored, List.append_assoc]
  · refine List.forall_mem_append.mpr ⟨reads.writes, List.forall_mem_singleton.mpr ?_⟩
    simp only [Extent.Inside]
    omega

theorem Reads.rounds (rounds : List SocketRound) : ∀ {reading : Reading capacity},
    Reads memory offset size reading →
      Reads memory offset size (reading.rounds offset size rounds) := by
  induction rounds with
  | nil =>
      intro reading reads
      exact ⟨reads.room, reads.stored, reads.writes⟩
  | cons round rounds ih =>
      intro reading reads
      have unchanged : ∀ status : Int, Reads memory offset size { reading with status } :=
        fun _ => ⟨reads.room, reads.stored, reads.writes⟩
      rw [Reading.rounds]
      split
      · exact unchanged _
      split
      · exact unchanged _
      split
      · exact unchanged _
      · rename_i bytes _
        have next := (reads.recv inside bytes).terminate inside
        dsimp only
        split
        · exact ih next
        · exact next

/-- **What a call of `socketRead` leaves.** -/
theorem socketRead_reads {socketHandle : Int} (valid : 0 ≤ socketHandle) (some : 0 < size)
    (rounds : List SocketRound) :
    Reads memory offset size (socketRead socketHandle memory offset size rounds).1 ∧
      (0 ≤ (socketRead socketHandle memory offset size rounds).2 →
        (socketRead socketHandle memory offset size rounds).2 =
          (socketRead socketHandle memory offset size rounds).1.bytes.length) := by
  have entered : Reads memory offset size ⟨memory, [], 0, false, []⟩ :=
    ⟨some, by simp, fun _ member => absurd member (List.not_mem_nil)⟩
  have reads := ((entered.terminate inside).rounds inside rounds).terminate inside
  rw [socketRead, if_neg (by omega), if_neg (by omega)]
  refine ⟨reads, fun nonneg => ?_⟩
  simp only [Reading.result] at nonneg ⊢
  split
  · rename_i negative
    rw [if_pos negative] at nonneg
    omega
  · rfl

end Reads

end ParseEmbedded.Rtos
