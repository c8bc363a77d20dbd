import ParseEmbedded.Rtos.SocketRead

/-!
# A read from a peer that has closed

Behind an orderly close `select` reports the socket readable and `recv` returns zero, each time.
For `socketRead` that is one more block, of no bytes: it goes on until the buffer is full, which
such blocks never fill. So a read that the answers before the close have not ended never returns
(`socket_read_returns_iff`).
-/

set_option autoImplicit false

namespace ParseEmbedded.Rtos.Counted

open Looping

/-! ## The answers -/

/-- What `select` and `recv` answer behind an orderly close. -/
def closed : SocketRound := ⟨1, 0, .bytes []⟩

/-- `select` reports the socket readable and `recv` does not fail. -/
def Works (round : SocketRound) : Prop := 0 < round.wait ∧ ∃ bytes, round.answer = .bytes bytes

/-- How many bytes `recv` stores in a round. -/
def stored (size : Nat) (bytesReceived : Int) (round : SocketRound) : Nat :=
  match round.answer with
  | .bytes bytes => (answered size bytesReceived bytes).length
  | .failed _ => 0

/-- The count of the bytes, in a `short`, behind some rounds. -/
def countBehind (size : Nat) (count : Int) (rounds : List SocketRound) : Int :=
  rounds.foldl (fun count round => toShort (count + stored size count round)) count

/-- The rounds in which `EAGAIN` ends the loop. -/
def laterRounds (readBlock : Bool) (rounds : List SocketRound) : List SocketRound :=
  if readBlock then rounds else rounds.tail

section Rounds

variable {size : Nat} {reading : Reading} {round : SocketRound}

/-- **When the loop goes on behind a round.** -/
theorem pass_eq_none_iff :
    (reading.pass size round).2 = none ↔
      Works round ∧ (reading.readBlock = true → round.agains = 0) ∧
        GoesOn size
          (toShort (reading.bytesReceived + stored size reading.bytesReceived round)) := by
  have passed := pass_passed size reading round
  generalize reading.pass size round = next at passed ⊢
  cases passed with
  | timedOut wait =>
      exact iff_of_false (by simp) fun goesOn => absurd goesOn.1.1 (by omega)
  | selectFailed wait =>
      exact iff_of_false (by simp) fun goesOn => absurd goesOn.1.1 (by omega)
  | again wait block again =>
      exact iff_of_false (by simp) fun goesOn => absurd (goesOn.2.1 block) (by omega)
  | recvFailed wait works status answer =>
      refine iff_of_false (by simp) fun goesOn => ?_
      obtain ⟨bytes, same⟩ := goesOn.1.2
      exact absurd (answer.symm.trans same) (by simp)
  | received wait works bytes answer =>
      have count : stored size reading.bytesReceived round =
          (answered size reading.bytesReceived bytes).length := by
        rw [stored, answer]
      rw [count]
      have holds : Works round ∧ (reading.readBlock = true → round.agains = 0) :=
        ⟨⟨wait, bytes, answer⟩, fun block => by
          by_contra some
          exact works ⟨block, Nat.pos_of_ne_zero some⟩⟩
      rw [← and_assoc, and_iff_right holds]
      change (if GoesOn size (toShort _) then none else some ReadExit.full) = none ↔ _
      split
      · rename_i goesOn
        exact iff_of_true rfl goesOn
      · rename_i stops
        exact iff_of_false (by simp) stops

/-- What such a round leaves behind. -/
theorem pass_of_none (stays : (reading.pass size round).2 = none) :
    (reading.pass size round).1.readBlock = true ∧
      (reading.pass size round).1.bytesReceived =
        toShort (reading.bytesReceived + stored size reading.bytesReceived round) := by
  have passed := pass_passed size reading round
  generalize reading.pass size round = next at passed stays ⊢
  cases passed with
  | timedOut _ => exact absurd stays (by simp)
  | selectFailed _ => exact absurd stays (by simp)
  | again _ _ _ => exact absurd stays (by simp)
  | recvFailed _ _ _ _ => exact absurd stays (by simp)
  | received _ _ bytes answer =>
      refine ⟨rfl, ?_⟩
      rw [stored, answer]
      rfl

end Rounds

section Running

variable {size : Nat}

theorem laterRounds_cons (readBlock : Bool) (round : SocketRound) (rounds : List SocketRound) :
    (∀ later ∈ laterRounds readBlock (round :: rounds), later.agains = 0) ↔
      (readBlock = true → round.agains = 0) ∧ ∀ later ∈ rounds, later.agains = 0 := by
  cases readBlock <;> simp [laterRounds]

/-- **When the loop is still running behind some rounds.** -/
theorem loop_eq_none_iff (rounds : List SocketRound) : ∀ reading : Reading,
    loop (Reading.pass size) reading rounds = none ↔
      (∀ round ∈ rounds, Works round) ∧
        (∀ later ∈ laterRounds reading.readBlock rounds, later.agains = 0) ∧
        ∀ n < rounds.length,
          GoesOn size (countBehind size reading.bytesReceived (rounds.take (n + 1))) := by
  induction rounds with
  | nil =>
      intro reading
      simp [loop, laterRounds]
  | cons round rounds ih =>
      intro reading
      rw [loop_cons_eq_none, List.forall_mem_cons, laterRounds_cons]
      constructor
      · rintro ⟨stays, running⟩
        obtain ⟨block, count⟩ := pass_of_none stays
        obtain ⟨works, again, goesOn⟩ := pass_eq_none_iff.mp stays
        obtain ⟨allWork, agains, allGoOn⟩ := (ih _).mp running
        rw [block] at agains
        rw [count] at allGoOn
        refine ⟨⟨works, allWork⟩, ⟨again, agains⟩, fun n inside => ?_⟩
        cases n with
        | zero => exact goesOn
        | succ n => exact allGoOn n (Nat.lt_of_succ_lt_succ inside)
      · rintro ⟨⟨works, allWork⟩, ⟨again, agains⟩, allGoOn⟩
        have stays : (reading.pass size round).2 = none :=
          pass_eq_none_iff.mpr ⟨works, again, allGoOn 0 (Nat.succ_pos _)⟩
        obtain ⟨block, count⟩ := pass_of_none stays
        refine ⟨stays, (ih _).mpr ⟨allWork, ?_, fun n inside => ?_⟩⟩
        · rw [block]
          exact agains
        · rw [count]
          exact allGoOn (n + 1) (Nat.succ_lt_succ inside)

/-- The count of a loop that is still running. -/
theorem behind_bytesReceived (rounds : List SocketRound) : ∀ {reading : Reading},
    loop (Reading.pass size) reading rounds = none →
      (behind (Reading.pass size) reading rounds).bytesReceived =
        countBehind size reading.bytesReceived rounds := by
  induction rounds with
  | nil =>
      intro reading _
      rfl
  | cons round rounds ih =>
      intro reading running
      obtain ⟨stays, running⟩ := loop_cons_eq_none.mp running
      have count := ih running
      rw [(pass_of_none stays).2] at count
      exact count

/-! ## Behind the close -/

theorem stored_closed (bytesReceived : Int) : stored size bytesReceived closed = 0 := by
  change (answered size bytesReceived []).length = 0
  rw [answered, List.take_nil]
  rfl

/-- **The step behind the close.** Nothing is received, so the loop goes on exactly if the buffer
has room. -/
theorem pass_closed {reading : Reading}
    (short : toShort reading.bytesReceived = reading.bytesReceived) :
    (reading.pass size closed).2 = none ↔ GoesOn size reading.bytesReceived := by
  rw [pass_eq_none_iff, stored_closed, Int.natCast_zero, Int.add_zero, short]
  exact ⟨fun goesOn => goesOn.2.2, fun goesOn => ⟨⟨by decide, [], rfl⟩, fun _ => rfl, goesOn⟩⟩

theorem loop_closed {reading : Reading}
    (short : toShort reading.bytesReceived = reading.bytesReceived) :
    (∀ n, loop (Reading.pass size) reading (List.replicate n closed) = none) ↔
      GoesOn size reading.bytesReceived := by
  constructor
  · intro running
    exact (pass_closed short).mp (loop_cons_eq_none.mp (running 1)).1
  · intro goesOn n
    refine loop_replicate (fun reading => toShort reading.bytesReceived = reading.bytesReceived ∧
      GoesOn size reading.bytesReceived) (fun reading holds => ?_) n ⟨short, goesOn⟩
    have stays := (pass_closed holds.1).mpr holds.2
    have count := (pass_of_none stays).2
    rw [stored_closed, Int.natCast_zero, Int.add_zero, holds.1] at count
    refine ⟨stays, ?_⟩
    rw [count]
    exact holds

theorem countBehind_short (rounds : List SocketRound) : ∀ {count : Int}, toShort count = count →
    toShort (countBehind size count rounds) = countBehind size count rounds := by
  induction rounds with
  | nil =>
      intro count short
      exact short
  | cons round rounds ih =>
      intro count _
      exact ih (toShort_toShort _)

/-- The loop runs for ever behind the close exactly if it has come there with room in the buffer. -/
theorem loop_append_closed (before : List SocketRound) {reading : Reading}
    (short : toShort reading.bytesReceived = reading.bytesReceived) :
    (∀ n, loop (Reading.pass size) reading (before ++ List.replicate n closed) = none) ↔
      loop (Reading.pass size) reading before = none ∧
        GoesOn size (countBehind size reading.bytesReceived before) := by
  constructor
  · intro running
    have first : loop (Reading.pass size) reading before = none := by
      rw [← running 0, List.replicate_zero, List.append_nil]
    refine ⟨first, ?_⟩
    rw [← behind_bytesReceived before first]
    refine (loop_closed ?_).mp fun n => ?_
    · rw [behind_bytesReceived before first]
      exact countBehind_short before short
    · rw [← loop_append before _ first]
      exact running n
  · rintro ⟨first, goesOn⟩ n
    rw [loop_append before _ first]
    refine (loop_closed ?_).mpr ?_ n
    · rw [behind_bytesReceived before first]
      exact countBehind_short before short
    · rw [behind_bytesReceived before first]
      exact goesOn

/-! ## Returning -/

/-- The read returns behind some number of the zeros that `recv` returns after the close. -/
def Returns (socketHandle : Int) (memory : Int → Byte) (size : Nat) (before : List SocketRound) :
    Prop :=
  ∃ n returned, socketRead socketHandle memory size (before ++ List.replicate n closed) =
    some returned

theorem goesOn_zero {count : Int} (goesOn : GoesOn size count) : GoesOn size 0 := by
  have nonneg := Int.emod_nonneg count (by decide : (4294967296 : Int) ≠ 0)
  rw [GoesOn] at goesOn ⊢
  rw [Int.zero_emod]
  omega

theorem not_returns_iff {socketHandle : Int} (valid : 0 ≤ socketHandle) (memory : Int → Byte)
    (some : 0 < size) (before : List SocketRound) :
    ¬ Returns socketHandle memory size before ↔
      ∀ n, loop (Reading.pass size) (Reading.enter memory).terminate
        (before ++ List.replicate n closed) = none := by
  rw [Returns, not_exists]
  refine forall_congr' fun n => ?_
  rw [socketRead_eq valid memory some, not_exists, ← Option.eq_none_iff_forall_ne_some,
    Option.map_eq_none_iff]

/-- The loop has room behind every number of rounds, the one before the first one included. -/
theorem goesOn_through (before : List SocketRound) :
    ((∀ n < before.length, GoesOn size (countBehind size 0 (before.take (n + 1)))) ∧
        GoesOn size (countBehind size 0 before)) ↔
      ∀ n ≤ before.length, GoesOn size (countBehind size 0 (before.take n)) := by
  constructor
  · rintro ⟨along, last⟩ n inside
    cases n with
    | zero => exact goesOn_zero last
    | succ n => exact along n inside
  · intro through
    refine ⟨fun n inside => through (n + 1) inside, ?_⟩
    rw [← before.take_length]
    exact through before.length (Nat.le_refl _)

/-- **When a read returns whose peer has closed.** Before the close `select` times out or fails,
`recv` fails or answers `EAGAIN` behind a block, or the count of the bytes that have come in, as an
unsigned number, reaches the last byte of the buffer. -/
theorem socket_read_returns_iff {socketHandle : Int} (valid : 0 ≤ socketHandle)
    (memory : Int → Byte) (some : 0 < size) (before : List SocketRound) :
    Returns socketHandle memory size before ↔
      (∃ round ∈ before, ¬ Works round) ∨ (∃ round ∈ before.tail, 0 < round.agains) ∨
        ∃ n ≤ before.length, ¬ GoesOn size (countBehind size 0 (before.take n)) := by
  have entered : toShort (Reading.enter memory).terminate.bytesReceived =
      (Reading.enter memory).terminate.bytesReceived := rfl
  have never : ¬ Returns socketHandle memory size before ↔
      (∀ round ∈ before, Works round) ∧ (∀ round ∈ before.tail, round.agains = 0) ∧
        ∀ n ≤ before.length, GoesOn size (countBehind size 0 (before.take n)) := by
    rw [not_returns_iff valid memory some, loop_append_closed before entered, loop_eq_none_iff,
      and_assoc, and_assoc]
    exact and_congr_right fun _ => and_congr_right fun _ => goesOn_through before
  rw [← not_iff_not, never, not_or, not_or]
  refine and_congr ?_ (and_congr ?_ ?_)
  · simp
  · simp
  · simp

end Running

/-- Four bytes fill a buffer of five. -/
theorem socket_read_returns_full :
    Returns 0 (fun _ => Byte.nul) 5 [⟨1, 0, .bytes (ascii "HTTP")⟩] :=
  (socket_read_returns_iff (Int.le_refl 0) _ (by decide) _).mpr
    (.inr (.inr ⟨1, Nat.le_refl 1, by decide⟩))

/-- An answer of 15 bytes, and then the peer closes: a read into 1024 bytes never returns. -/
theorem socket_read_returns_counterexample :
    ¬ Returns 0 (fun _ => Byte.nul) 1024 [⟨1, 0, .bytes (ascii "HTTP/1.1 200 OK")⟩] := by
  have entered : toShort (Reading.enter fun _ => Byte.nul).terminate.bytesReceived =
      (Reading.enter fun _ => Byte.nul).terminate.bytesReceived := rfl
  rw [not_returns_iff (Int.le_refl 0) _ (by decide), loop_append_closed _ entered]
  exact ⟨rfl, by decide⟩

end ParseEmbedded.Rtos.Counted
