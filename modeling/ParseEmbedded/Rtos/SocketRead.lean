import ParseEmbedded.Library.Looping
import ParseEmbedded.Rtos.Exchange

/-!
# The read of the CC3200 for every buffer

`socketRead` of `socket.c` counts the bytes received in a `short`, for a buffer whose size is an
`unsigned int`. Here it is modelled for every size, with the arithmetic of these types and the
memory around the buffer, and with the way in which the loop is left; where the answers of the
driver are used up, it is still running. For buffers of at most 32768 bytes it is the `socketRead`
of the push service and of the requests (`socketRead_counted`).

`socket_read_keeps_iff` says when a read that is left without an error returns all of its bytes,
and `socket_read_returns_iff` when a read returns whose peer has closed the connection.
-/

set_option autoImplicit false

namespace ParseEmbedded.Rtos.Counted

open Looping

/-! ## The read -/

/-- How the loop is left: at its condition, at a `select` that times out or fails, or at a `recv`
that answers `EAGAIN` or fails. -/
inductive ReadExit where
  | full
  | timedOut
  | selectFailed
  | again
  | recvFailed
  deriving DecidableEq, Repr

/-- The memory, by the distance from `receiveBuffer`, the local variables, and the bytes that have
been received. -/
structure Reading where
  memory : Int → Byte
  status : Int
  readBlock : Bool
  bytesReceived : Int
  bytes : List Byte

/-- Bytes are stored from a place on. -/
def store (memory : Int → Byte) (place : Int) (bytes : List Byte) : Int → Byte := fun i =>
  if place ≤ i ∧ i < place + bytes.length then (bytes[(i - place).toNat]?).getD Byte.nul
  else memory i

/-- `receiveBufferSize - bytesReceived - 1` -/
def requested (size : Nat) (bytesReceived : Int) : Nat :=
  ((size - bytesReceived - 1) % 4294967296).toNat

/-- The bytes that `recv` stores: at most as many as asked for, which it counts in a `short`. -/
def answered (size : Nat) (bytesReceived : Int) (bytes : List Byte) : List Byte :=
  bytes.take (min (requested size bytesReceived) 32767)

/-- `bytesReceived < receiveBufferSize - 1` -/
def GoesOn (size : Nat) (bytesReceived : Int) : Prop :=
  bytesReceived % 4294967296 < size - 1

instance decidableGoesOn (size : Nat) (bytesReceived : Int) :
    Decidable (GoesOn size bytesReceived) :=
  inferInstanceAs (Decidable (_ < _))

namespace Reading

/-- `receiveBuffer[bytesReceived] = 0` -/
def terminate (reading : Reading) : Reading :=
  { reading with memory := store reading.memory reading.bytesReceived [Byte.nul] }

/-- `recv` has bytes. -/
def recv (size : Nat) (bytes : List Byte) (reading : Reading) : Reading :=
  let stored := answered size reading.bytesReceived bytes
  { memory := store reading.memory reading.bytesReceived stored
    status := stored.length
    readBlock := true
    bytesReceived := toShort (reading.bytesReceived + stored.length)
    bytes := reading.bytes ++ stored }

/-- The body of the loop. -/
def pass (size : Nat) (reading : Reading) (round : SocketRound) : Reading × Option ReadExit :=
  if round.wait ≤ 0 then
    ({ reading with status := round.wait },
      some (if round.wait = 0 then .timedOut else .selectFailed))
  else if reading.readBlock ∧ round.agains > 0 then
    ({ reading with status := EAGAIN }, some .again)
  else
    match round.answer with
    | .failed status => ({ reading with status := status }, some .recvFailed)
    | .bytes bytes =>
        let next := (reading.recv size bytes).terminate
        (next, if GoesOn size next.bytesReceived then none else some .full)

/-- The value that `socketRead` returns. -/
def result (reading : Reading) : Int :=
  if reading.status < 0 then reading.status else reading.bytesReceived

/-- The variables at the entry of the function. -/
def enter (memory : Int → Byte) : Reading := ⟨memory, 0, false, 0, []⟩

end Reading

/-- A read that has returned. One that does not come to the loop has no exit. -/
structure Returned where
  reading : Reading
  exit : Option ReadExit
  result : Int

/-- `socketRead` into `size` bytes. -/
def socketRead (socketHandle : Int) (memory : Int → Byte) (size : Nat)
    (rounds : List SocketRound) : Option Returned :=
  if socketHandle < 0 then some ⟨.enter memory, none, socketHandle⟩
  else if size = 0 then some ⟨.enter memory, none, -1⟩
  else
    (loop (Reading.pass size) (Reading.enter memory).terminate rounds).map fun ended =>
      ⟨ended.1.terminate, some ended.2, ended.1.result⟩

theorem socketRead_eq {socketHandle : Int} (valid : 0 ≤ socketHandle) (memory : Int → Byte)
    {size : Nat} (some : 0 < size) (rounds : List SocketRound) :
    socketRead socketHandle memory size rounds =
      (loop (Reading.pass size) (Reading.enter memory).terminate rounds).map fun ended =>
        ⟨ended.1.terminate, Option.some ended.2, ended.1.result⟩ := by
  rw [socketRead, if_neg (Int.not_lt.mpr valid), if_neg (Nat.ne_of_gt some)]

/-- **What a pass does**, with what it meets. -/
inductive Passed (size : Nat) (reading : Reading) (round : SocketRound) :
    Reading × Option ReadExit → Prop where
  | timedOut (wait : round.wait = 0) :
      Passed size reading round ({ reading with status := 0 }, some .timedOut)
  | selectFailed (wait : round.wait < 0) :
      Passed size reading round ({ reading with status := round.wait }, some .selectFailed)
  | again (wait : 0 < round.wait) (block : reading.readBlock = true) (again : 0 < round.agains) :
      Passed size reading round ({ reading with status := EAGAIN }, some .again)
  | recvFailed (wait : 0 < round.wait) (works : ¬ (reading.readBlock = true ∧ 0 < round.agains))
      (status : { status : Int // status < 0 ∧ status ≠ EAGAIN })
      (answer : round.answer = .failed status) :
      Passed size reading round ({ reading with status := status }, some .recvFailed)
  | received (wait : 0 < round.wait) (works : ¬ (reading.readBlock = true ∧ 0 < round.agains))
      (bytes : List Byte) (answer : round.answer = .bytes bytes) :
      Passed size reading round ((reading.recv size bytes).terminate,
        if GoesOn size (reading.recv size bytes).bytesReceived then none else some .full)

theorem pass_passed (size : Nat) (reading : Reading) (round : SocketRound) :
    Passed size reading round (reading.pass size round) := by
  rw [Reading.pass]
  by_cases wait : round.wait ≤ 0
  · rw [if_pos wait]
    by_cases timedOut : round.wait = 0
    · rw [if_pos timedOut, timedOut]
      exact .timedOut timedOut
    · rw [if_neg timedOut]
      exact .selectFailed (by omega)
  · rw [if_neg wait]
    by_cases again : reading.readBlock = true ∧ round.agains > 0
    · rw [if_pos again]
      exact .again (Int.not_le.mp wait) again.1 again.2
    · rw [if_neg again]
      cases answer : round.answer with
      | failed status => exact .recvFailed (Int.not_le.mp wait) again status answer
      | bytes bytes => exact .received (Int.not_le.mp wait) again bytes answer

/-! ## Memory -/

theorem store_inside (memory : Int → Byte) {place i : Int} {bytes : List Byte}
    (first : place ≤ i) (last : i < place + bytes.length) :
    store memory place bytes i = (bytes[(i - place).toNat]?).getD Byte.nul :=
  if_pos ⟨first, last⟩

theorem store_before (memory : Int → Byte) {place i : Int} (bytes : List Byte)
    (before : i < place) : store memory place bytes i = memory i :=
  if_neg fun inside => absurd inside.1 (Int.not_le.mpr before)

/-- The memory has a list of bytes at the beginning of the buffer. -/
def Holds (memory : Int → Byte) (bytes : List Byte) : Prop :=
  ∀ i : Nat, i < bytes.length → memory i = (bytes[i]?).getD Byte.nul

theorem Holds.store {memory : Int → Byte} {bytes : List Byte} (holds : Holds memory bytes)
    (more : List Byte) : Holds (Counted.store memory bytes.length more) (bytes ++ more) := by
  intro i inside
  rw [List.length_append] at inside
  by_cases old : i < bytes.length
  · rw [store_before _ _ (by omega), List.getElem?_append_left old]
    exact holds i old
  · have index : ((i : Int) - bytes.length).toNat = i - bytes.length := by omega
    rw [store_inside _ (by omega) (by omega), index,
      List.getElem?_append_right (Nat.not_lt.mp old)]

theorem Holds.terminate {memory : Int → Byte} {bytes : List Byte} (holds : Holds memory bytes) :
    Holds (Counted.store memory bytes.length [Byte.nul]) bytes := by
  intro i inside
  rw [store_before _ _ (by omega)]
  exact holds i inside

/-! ## Counting -/

theorem toShort_le (i : Int) : toShort i ≤ 32767 := by
  have upper := Int.bmod_lt (x := i) (m := 65536) (by decide)
  rw [toShort]
  omega

theorem toShort_toShort (i : Int) : toShort (toShort i) = toShort i :=
  Int.bmod_bmod

theorem toShort_of_le {i : Int} (nonneg : 0 ≤ i) (small : i ≤ 32767) : toShort i = i :=
  Int.bmod_eq_of_le (by omega) (by omega)

/-- As long as the bytes can be counted, the count is right, there is room for one more, and they
stand in the buffer. -/
structure Counts (size : Nat) (reading : Reading) : Prop where
  short : toShort reading.bytesReceived = reading.bytesReceived
  counted : reading.bytes.length ≤ 32767 →
    reading.bytesReceived = reading.bytes.length ∧ reading.bytes.length < size ∧
      Holds reading.memory reading.bytes

theorem Counts.enter (memory : Int → Byte) {size : Nat} (some : 0 < size) :
    Counts size (Reading.enter memory).terminate :=
  ⟨rfl,
    fun _ => ⟨rfl, some, fun _ inside => absurd inside (Nat.not_lt_zero _)⟩⟩

theorem length_answered_le (size : Nat) (bytesReceived : Int) (bytes : List Byte) :
    (answered size bytesReceived bytes).length ≤ requested size bytesReceived := by
  rw [answered, List.length_take]
  omega

theorem requested_eq {size count : Nat} (fits : size < 4294967296) (room : count < size) :
    requested size count = size - count - 1 := by
  rw [requested, Int.emod_eq_of_lt (by omega) (by omega)]
  omega

section Counts

variable {size : Nat} {reading : Reading}

theorem Counts.status (counts : Counts size reading) (status : Int) :
    Counts size { reading with status } :=
  ⟨counts.short, counts.counted⟩

theorem Counts.terminate (counts : Counts size reading) : Counts size reading.terminate := by
  refine ⟨counts.short, fun small => ?_⟩
  obtain ⟨count, room, holds⟩ := counts.counted small
  refine ⟨count, room, ?_⟩
  rw [Reading.terminate, count]
  exact holds.terminate

theorem Counts.recv (fits : size < 4294967296) (counts : Counts size reading)
    (bytes : List Byte) : Counts size (reading.recv size bytes) := by
  refine ⟨toShort_toShort _, fun small => ?_⟩
  simp only [Reading.recv, List.length_append] at small ⊢
  obtain ⟨count, room, holds⟩ := counts.counted (by omega)
  have stored := length_answered_le size reading.bytesReceived bytes
  have asked := requested_eq fits room
  rw [← count] at asked
  refine ⟨?_, by omega, ?_⟩
  · rw [toShort_of_le (by omega) (by omega)]
    omega
  · rw [count]
    exact holds.store _

/-- **The step of the read.** A pass keeps the count right. -/
theorem Counts.pass (fits : size < 4294967296) (counts : Counts size reading)
    (round : SocketRound) : Counts size (reading.pass size round).1 := by
  have passed := pass_passed size reading round
  generalize reading.pass size round = next at passed ⊢
  cases passed with
  | timedOut _ => exact counts.status _
  | selectFailed _ => exact counts.status _
  | again _ _ _ => exact counts.status _
  | recvFailed _ _ _ _ => exact counts.status _
  | received _ _ bytes _ => exact (counts.recv fits bytes).terminate

end Counts

/-! ## The ways out -/

/-- What the status is behind an exit. -/
def ReadExit.Status : ReadExit → Int → Prop
  | .full, status => 0 ≤ status
  | .timedOut, status => status = 0
  | .again, status => status = EAGAIN
  | .selectFailed, status => status < 0
  | .recvFailed, status => status < 0

theorem pass_status {size : Nat} {reading : Reading} {round : SocketRound} {exit : ReadExit}
    (leaves : (reading.pass size round).2 = some exit) :
    exit.Status (reading.pass size round).1.status := by
  have passed := pass_passed size reading round
  generalize reading.pass size round = next at passed leaves ⊢
  cases passed with
  | timedOut _ => exact Option.some.inj leaves ▸ rfl
  | selectFailed wait => exact Option.some.inj leaves ▸ wait
  | again _ _ _ => exact Option.some.inj leaves ▸ rfl
  | recvFailed _ _ status _ => exact Option.some.inj leaves ▸ status.2.1
  | received _ _ bytes _ =>
      split at leaves
      · exact absurd leaves (by simp)
      · exact Option.some.inj leaves ▸ Int.natCast_nonneg _

/-- **What a read has done** that comes out of its loop: the count is right, and the status is that
of the exit. -/
theorem read_ended {socketHandle : Int} (valid : 0 ≤ socketHandle) (memory : Int → Byte)
    {size : Nat} (some : 0 < size) (fits : size < 4294967296) {rounds : List SocketRound}
    {returned : Returned}
    (ended : socketRead socketHandle memory size rounds = Option.some returned) :
    ∃ reading exit, returned = ⟨reading.terminate, Option.some exit, reading.result⟩ ∧
      Counts size reading ∧ exit.Status reading.status := by
  rw [socketRead_eq valid memory some, Option.map_eq_some_iff] at ended
  obtain ⟨⟨reading, exit⟩, done, rfl⟩ := ended
  refine ⟨reading, exit, rfl, ?_⟩
  exact loop_ends (Counts size)
    (fun reading exit => Counts size reading ∧ exit.Status reading.status)
    (fun _ round counts _ => counts.pass fits round)
    (fun _ round _ counts leaves => ⟨counts.pass fits round, pass_status leaves⟩) rounds
    (.enter memory some) done

/-! ## Keeping what has been received -/

/-- The read returns the number of the bytes that have been received, and leaves them in the buffer
with a zero behind them. -/
structure Keeps (size : Nat) (returned : Returned) : Prop where
  result : returned.result = returned.reading.bytes.length
  room : returned.reading.bytes.length ≤ size - 1
  holds : Holds returned.reading.memory returned.reading.bytes
  terminated : returned.reading.memory returned.reading.bytes.length = Byte.nul

/-- **When a read keeps what it has received.** One that is left at a full buffer, a `select` that
times out or a `recv` that answers `EAGAIN` does exactly if it is not the last, and a `short` can
count the bytes. -/
theorem socket_read_keeps_iff {socketHandle : Int} (valid : 0 ≤ socketHandle)
    (memory : Int → Byte) {size : Nat} (some : 0 < size) (fits : size < 4294967296)
    {rounds : List SocketRound} {returned : Returned}
    (ended : socketRead socketHandle memory size rounds = Option.some returned)
    (complete : returned.exit = Option.some .full ∨ returned.exit = Option.some .timedOut ∨
      returned.exit = Option.some .again) :
    Keeps size returned ↔
      returned.exit ≠ Option.some .again ∧ returned.reading.bytes.length ≤ 32767 := by
  obtain ⟨reading, exit, rfl, counts, status⟩ := read_ended valid memory some fits ended
  have short : reading.bytesReceived ≤ 32767 := counts.short ▸ toShort_le _
  constructor
  · intro keeps
    have result : reading.result = reading.bytes.length := keeps.result
    rw [Reading.result] at result
    constructor
    · intro again
      rw [Option.some.inj again] at status
      have negative : reading.status = -11 := status
      rw [if_pos (by omega)] at result
      omega
    · change reading.bytes.length ≤ 32767
      split at result <;> omega
  · rintro ⟨last, small⟩
    change reading.bytes.length ≤ 32767 at small
    obtain ⟨count, room, holds⟩ := counts.counted small
    have nonneg : 0 ≤ reading.status := by
      rcases complete with full | timedOut | again
      · rw [Option.some.inj full] at status
        exact status
      · rw [Option.some.inj timedOut] at status
        exact Int.le_of_eq status.symm
      · exact absurd again last
    refine ⟨?_, Nat.le_sub_one_of_lt room, ?_, ?_⟩
    · change reading.result = reading.bytes.length
      rw [Reading.result, if_neg (Int.not_lt.mpr nonneg), count]
    · change Holds (store reading.memory reading.bytesReceived [Byte.nul]) reading.bytes
      rw [count]
      exact holds.terminate
    · change store reading.memory reading.bytesReceived [Byte.nul] reading.bytes.length = Byte.nul
      rw [count, store_inside _ (Int.le_refl _) (Int.lt_succ _), Int.sub_self]
      rfl

/-- Four bytes have come in when `select` times out. -/
theorem socket_read_keeps_timedOut :
    ∃ returned, socketRead 0 (fun _ => Byte.nul) 1024
        [⟨1, 0, .bytes (ascii "HTTP")⟩, ⟨0, 0, .bytes []⟩] = some returned ∧
      Keeps 1024 returned := by
  have ended : socketRead 0 (fun _ => Byte.nul) 1024
      [⟨1, 0, .bytes (ascii "HTTP")⟩, ⟨0, 0, .bytes []⟩] = some _ := rfl
  exact ⟨_, ended, (socket_read_keeps_iff (Int.le_refl 0) _ (by decide) (by decide) ended
    (.inr (.inl rfl))).mpr ⟨by decide, by decide⟩⟩

/-- Four bytes have come in when `recv` answers `EAGAIN`: the read returns -11. -/
theorem socket_read_keeps_counterexample :
    ∃ returned, socketRead 0 (fun _ => Byte.nul) 1024
        [⟨1, 0, .bytes (ascii "HTTP")⟩, ⟨1, 1, .bytes []⟩] = some returned ∧
      returned.exit = some .again ∧ ¬ Keeps 1024 returned :=
  ⟨_, rfl, rfl, fun keeps => absurd keeps.result (by decide)⟩

/-! ## The read of the push service and of the requests -/

/-- The variables of the two reads agree, and the count is right. -/
structure Agrees {capacity : Nat} (size : Nat) (plain : Rtos.Reading capacity)
    (reading : Reading) : Prop where
  bytes : reading.bytes = plain.bytes
  status : reading.status = plain.status
  readBlock : reading.readBlock = plain.readBlock
  count : reading.bytesReceived = reading.bytes.length
  room : reading.bytes.length < size

/-- The `select` that times out where the answers are used up. -/
def timeout : SocketRound := ⟨0, 0, .bytes []⟩

theorem GoesOn_iff {size count : Nat} (small : size ≤ 32768) (room : count < size) :
    GoesOn size count ↔ count < size - 1 := by
  rw [GoesOn, Int.emod_eq_of_lt (by omega) (by omega)]
  omega

section Agrees

variable {capacity size : Nat} (offset : Nat) {plain : Rtos.Reading capacity} {reading : Reading}
  (small : size ≤ 32768)

include small

theorem Agrees.recv (agrees : Agrees size plain reading) (bytes : List Byte) :
    Agrees size ((plain.recv offset size bytes).terminate offset)
      (reading.recv size bytes).terminate := by
  obtain ⟨same, -, -, count, room⟩ := agrees
  have asked := requested_eq (by omega) room
  have stored : answered size reading.bytesReceived bytes =
      bytes.take (size - plain.bytes.length - 1) := by
    rw [answered, count, asked, same, Nat.min_eq_left (by omega)]
  have length := List.length_take_le (size - plain.bytes.length - 1) bytes
  rw [← same] at length
  refine ⟨?_, ?_, rfl, ?_, ?_⟩
  · change reading.bytes ++ answered size reading.bytesReceived bytes = plain.bytes ++ _
    rw [stored, same]
  · change ((answered size reading.bytesReceived bytes).length : Int) = _
    rw [stored]
    rfl
  · change toShort (reading.bytesReceived + (answered size reading.bytesReceived bytes).length) =
      (reading.bytes ++ answered size reading.bytesReceived bytes).length
    rw [stored, count, List.length_append, ← same, toShort_of_le (by omega) (by omega)]
    omega
  · change (reading.bytes ++ answered size reading.bytesReceived bytes).length < size
    rw [stored, List.length_append, ← same]
    omega

theorem Agrees.rounds (rounds : List SocketRound) :
    ∀ {plain : Rtos.Reading capacity} {reading : Reading}, Agrees size plain reading →
      ∃ ended exit, loop (Reading.pass size) reading (rounds ++ [timeout]) = some (ended, exit) ∧
        Agrees size (plain.rounds offset size rounds) ended := by
  induction rounds with
  | nil =>
      intro plain reading agrees
      exact ⟨_, _, rfl, agrees.bytes, rfl, agrees.readBlock, agrees.count, agrees.room⟩
  | cons round rounds ih =>
      intro plain reading agrees
      have left : ∀ status : Int,
          Agrees size { plain with status } { reading with status } := fun _ =>
        ⟨agrees.bytes, rfl, agrees.readBlock, agrees.count, agrees.room⟩
      have passed := pass_passed size reading round
      rw [Rtos.Reading.rounds, List.cons_append]
      cases leaves : reading.pass size round with
      | mk next exit =>
      rw [leaves] at passed
      cases passed with
      | timedOut wait =>
          rw [if_pos (by omega), wait]
          exact ⟨_, _, loop_cons_of_some (congrArg Prod.snd leaves) _,
            congrArg Prod.fst leaves ▸ left 0⟩
      | selectFailed wait =>
          rw [if_pos (by omega)]
          exact ⟨_, _, loop_cons_of_some (congrArg Prod.snd leaves) _,
            congrArg Prod.fst leaves ▸ left _⟩
      | again wait block again =>
          rw [if_neg (by omega), if_pos ⟨agrees.readBlock ▸ block, again⟩]
          exact ⟨_, _, loop_cons_of_some (congrArg Prod.snd leaves) _,
            congrArg Prod.fst leaves ▸ left _⟩
      | recvFailed wait works status answer =>
          rw [if_neg (by omega), if_neg (agrees.readBlock ▸ works), answer]
          exact ⟨_, _, loop_cons_of_some (congrArg Prod.snd leaves) _,
            congrArg Prod.fst leaves ▸ left _⟩
      | received wait works bytes answer =>
          rw [if_neg (by omega), if_neg (agrees.readBlock ▸ works), answer]
          have next := agrees.recv offset small bytes
          have goesOn : GoesOn size (reading.recv size bytes).bytesReceived ↔
              ((plain.recv offset size bytes).terminate offset).bytes.length < size - 1 := by
            rw [← next.bytes, ← GoesOn_iff small next.room, ← next.count]
            rfl
          dsimp only
          by_cases more : ((plain.recv offset size bytes).terminate offset).bytes.length < size - 1
          · rw [if_pos (goesOn.mpr more)] at leaves
            rw [if_pos more, loop_cons_of_none (congrArg Prod.snd leaves),
              congrArg Prod.fst leaves]
            exact ih next
          · rw [if_neg (mt goesOn.mp more)] at leaves
            rw [if_neg more]
            exact ⟨_, _, loop_cons_of_some (congrArg Prod.snd leaves) _,
              congrArg Prod.fst leaves ▸ next⟩

end Agrees

/-- **The read of the rest of the model.** Into a buffer of at most 32768 bytes it is this one, with
a `select` that times out behind the answers. -/
theorem socketRead_counted {capacity : Nat} (socketHandle : Int) (memory : Int → Byte)
    (block : Block Byte capacity) (offset : Nat) {size : Nat} (small : size ≤ 32768)
    (rounds : List SocketRound) :
    ∃ returned, socketRead socketHandle memory size (rounds ++ [timeout]) = some returned ∧
      returned.result = (Rtos.socketRead socketHandle block offset size rounds).2 ∧
      returned.reading.bytes = (Rtos.socketRead socketHandle block offset size rounds).1.bytes := by
  rw [socketRead, Rtos.socketRead]
  by_cases valid : socketHandle < 0
  · rw [if_pos valid, if_pos valid]
    exact ⟨_, rfl, rfl, rfl⟩
  rw [if_neg valid, if_neg valid]
  by_cases none : size = 0
  · rw [if_pos none, if_pos none]
    exact ⟨_, rfl, rfl, rfl⟩
  rw [if_neg none, if_neg none]
  have entered : Agrees size ((⟨block, [], 0, false, []⟩ : Rtos.Reading capacity).terminate offset)
      (Reading.enter memory).terminate := ⟨rfl, rfl, rfl, rfl, Nat.pos_of_ne_zero none⟩
  obtain ⟨ended, exit, done, agrees⟩ := entered.rounds offset small rounds
  refine ⟨_, congrArg (Option.map _) done, ?_, agrees.bytes⟩
  change ended.result = (Rtos.Reading.result _)
  rw [Reading.result, Rtos.Reading.result, agrees.status, agrees.count, agrees.bytes]
  rfl

end ParseEmbedded.Rtos.Counted
