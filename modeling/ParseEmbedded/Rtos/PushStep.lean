import ParseEmbedded.Rtos.Push
import ParseEmbedded.Library.Runs

/-!
# What one call does on an RTOS

`socketRead` keeps a cell for the zero behind the bytes, so the fill count stays below the size
of the buffer: it is at most 1023 at every moment (`Collected`), and a call keeps what it has
received or hands a message on (`Served`). The branch that drops a full buffer is never taken.
-/

set_option autoImplicit false

namespace ParseEmbedded.Rtos

open SimpleJson Push Runs

/-! ## The receive loop -/

/-- The fill counts at the start of a call. -/
def Bounded (buffer : PushDataBuffer) : Prop := -1 ≤ buffer.used ∧ buffer.used ≤ 1023

/-- A message found lies inside the bytes that were there. -/
def Look.Inside (look : Look) : Prop :=
  look.length ≠ -1 → 0 ≤ look.start ∧ look.start + look.length ≤ look.used

/-- What the loop has collected so far. -/
structure Collected (before : PushDataBuffer) (loop : Loop) : Prop where
  unread : loop.buffer.unread = before.unread ++ loop.received
  used : loop.buffer.used = before.used + loop.received.length
  lower : -1 ≤ loop.buffer.used
  upper : loop.buffer.used ≤ 1023
  looks : ∀ look ∈ loop.looks, look.Inside
  writes : ∀ extent ∈ loop.writes, extent.Inside 1024

/-- The loop variables report the message in the unread bytes. -/
def Looked (loop : Loop) : Prop :=
  (completeMessage loop.buffer.unread = none ∧ loop.length = -1) ∨
    ∃ m : Message, completeMessage loop.buffer.unread = some m ∧ loop.length = m.length ∧
      loop.message = some m.start

/-- No read has had bytes yet. -/
structure Silent (loop : Loop) : Prop where
  received : loop.received = []
  length : loop.length = -1

theorem Loop.goesOn_iff {loop : Loop} (lower : -1 ≤ loop.buffer.used)
    (upper : loop.buffer.used ≤ 1023) :
    loop.goesOn = true ↔ loop.length = -1 ∧ 0 ≤ loop.buffer.used := by
  rw [goesOn, decide_eq_true_iff]
  by_cases negative : loop.buffer.used = -1
  · have large := toSizeT_neg_one .bits32
    rw [negative]
    omega
  · rw [toSizeT_of_nonneg .bits32 (by omega) (by omega)]
    omega

theorem Collected.begin {buffer : PushDataBuffer} (bounded : Bounded buffer) :
    Collected buffer (.begin buffer) where
  unread := (List.append_nil _).symm
  used := by simp [Loop.begin]
  lower := bounded.1
  upper := bounded.2
  looks := fun _ member => absurd member (List.not_mem_nil)
  writes := fun _ member => absurd member (List.not_mem_nil)

theorem Silent.begin (buffer : PushDataBuffer) : Silent (.begin buffer) := ⟨rfl, rfl⟩

section Read

variable {before : PushDataBuffer} {loop : Loop} (collected : Collected before loop)
  (nonneg : 0 ≤ loop.buffer.used) {socketHandle : Int} (isOpen : 0 < socketHandle)
  (rounds : List SocketRound)

include collected nonneg isOpen

/-- What a `socketRead` of the loop leaves: the fill count is the start of its part of the
buffer, and that part goes to the end. -/
theorem Collected.reads :
    Reads loop.buffer.data loop.buffer.used.toNat (1024 - loop.buffer.used.toNat)
        (loop.socketRead socketHandle rounds).1 ∧
      (0 ≤ (loop.socketRead socketHandle rounds).2 →
        (loop.socketRead socketHandle rounds).2 =
          (loop.socketRead socketHandle rounds).1.bytes.length) := by
  have upper := collected.upper
  have size : toSizeT .bits32 (1024 - loop.buffer.used) = 1024 - loop.buffer.used.toNat := by
    rw [toSizeT_of_nonneg .bits32 (by omega) (by omega)]
    omega
  rw [Loop.socketRead, size]
  exact socketRead_reads (by omega) (by omega) (by omega) rounds

theorem Collected.noBytes :
    Collected before (loop.noBytes (loop.socketRead socketHandle rounds).1) := by
  obtain ⟨reads, -⟩ := collected.reads nonneg isOpen rounds
  have front := congrArg (List.take loop.buffer.used.toNat) reads.stored
  have cells := loop.buffer.data.length_cells
  have upper := collected.upper
  have length : (loop.buffer.data.cells.take loop.buffer.used.toNat).length =
      loop.buffer.used.toNat := by
    rw [List.length_take]
    omega
  rw [List.take_take, Nat.min_eq_left (Nat.le_add_right ..), List.take_left' length] at front
  have writes := List.forall_mem_append.mpr ⟨collected.writes, reads.writes⟩
  exact ⟨front.trans collected.unread, collected.used, collected.lower, upper, collected.looks,
    writes⟩

theorem Collected.look (some : 0 < (loop.socketRead socketHandle rounds).2) :
    Collected before (loop.look (loop.socketRead socketHandle rounds).1
        (loop.socketRead socketHandle rounds).2) ∧
      Looked (loop.look (loop.socketRead socketHandle rounds).1
        (loop.socketRead socketHandle rounds).2) := by
  obtain ⟨reads, count⟩ := collected.reads nonneg isOpen rounds
  rw [count (Int.le_of_lt some)]
  generalize (loop.socketRead socketHandle rounds).1 = reading at reads
  have room := reads.room
  have used := collected.used
  let buffer : PushDataBuffer := ⟨reading.memory, loop.buffer.used + reading.bytes.length⟩
  have sum : buffer.used = loop.buffer.used + reading.bytes.length := rfl
  have upper : buffer.used ≤ 1023 := by omega
  have unread : buffer.unread = loop.buffer.unread ++ reading.bytes := by
    have count : buffer.used.toNat = loop.buffer.used.toNat + reading.bytes.length := by omega
    rw [PushBuffer.unread, count]
    exact reads.stored
  have inside : buffer.used ≤ (1024 : Nat) := by omega
  have looked : Looked (loop.look reading reading.bytes.length) ∧
      Look.Inside ⟨buffer.pushJson.start, buffer.pushJson.length, buffer.used⟩ := by
    rcases PushBuffer.pushJson_completeMessage inside with
      none | ⟨m, complete, start, length, index⟩
    · exact ⟨.inl none, fun found => absurd none.2 found⟩
    · have fits := (isIn_of_completeMessage complete).inside
      rw [PushBuffer.length_unread inside] at fits
      refine ⟨.inr ⟨m, complete, length, index⟩, fun _ => ?_⟩
      change 0 ≤ buffer.pushJson.start ∧
        buffer.pushJson.start + buffer.pushJson.length ≤ buffer.used
      rw [start, length]
      omega
  refine ⟨⟨?_, ?_, ?_, upper, ?_, ?_⟩, looked.1⟩
  · change buffer.unread = before.unread ++ (loop.received ++ reading.bytes)
    rw [unread, collected.unread, List.append_assoc]
  · change buffer.used = before.used + ((loop.received ++ reading.bytes).length : Int)
    rw [List.length_append]
    push_cast
    omega
  · change -1 ≤ buffer.used
    omega
  · exact List.forall_mem_append.mpr ⟨collected.looks, List.forall_mem_singleton.mpr looked.2⟩
  · exact List.forall_mem_append.mpr ⟨collected.writes, reads.writes⟩

end Read

/-- A read without bytes leaves what has been looked through as it is. -/
theorem Looked.noBytes {before : PushDataBuffer} {loop : Loop} (looked : Looked loop)
    (collected : Collected before loop) {reading : Reading 1024}
    (collected' : Collected before (loop.noBytes reading)) : Looked (loop.noBytes reading) := by
  have same : (loop.noBytes reading).buffer.unread = loop.buffer.unread :=
    collected'.unread.trans collected.unread.symm
  rw [Looked, same]
  exact looked

/-- Once bytes have been looked through, the loop ends so. -/
theorem receiveLoop_looked {before : PushDataBuffer} {socketHandle : Int}
    (isOpen : 0 < socketHandle) (reads : List (List SocketRound)) :
    ∀ {loop : Loop}, Collected before loop → Looked loop →
      Collected before (receiveLoop socketHandle reads loop) ∧
        Looked (receiveLoop socketHandle reads loop) := by
  induction reads with
  | nil =>
      intro loop collected looked
      rw [receiveLoop]
      split
      · rename_i more
        have nonneg := ((Loop.goesOn_iff collected.lower collected.upper).mp more).2
        have collected' := collected.noBytes nonneg isOpen []
        exact ⟨collected', looked.noBytes collected collected'⟩
      · exact ⟨collected, looked⟩
  | cons rounds reads ih =>
      intro loop collected looked
      rw [receiveLoop]
      split
      · rename_i more
        have nonneg := ((Loop.goesOn_iff collected.lower collected.upper).mp more).2
        dsimp only
        split
        · rename_i some
          have next := collected.look nonneg isOpen rounds some
          exact ih next.1 next.2
        · have collected' := collected.noBytes nonneg isOpen rounds
          exact ⟨collected', looked.noBytes collected collected'⟩
      · exact ⟨collected, looked⟩

/-- The first read of a call has bytes. -/
def hears (before : PushDataBuffer) (call : Call) : Bool :=
  call.client.socketHandle > 0 ∧ (Loop.begin before).goesOn ∧
    0 < ((Loop.begin before).socketRead call.client.socketHandle (call.reads.headD [])).2

/-- The loop of a call whose first read has bytes. -/
theorem receiveLoop_hears {before : PushDataBuffer} (bounded : Bounded before) {call : Call}
    (heard : hears before call = true) :
    Collected before (receiveLoop call.client.socketHandle call.reads (.begin before)) ∧
      Looked (receiveLoop call.client.socketHandle call.reads (.begin before)) := by
  have collected := Collected.begin bounded
  simp only [hears, decide_eq_true_eq] at heard
  obtain ⟨isOpen, more, some⟩ := heard
  have nonneg := ((Loop.goesOn_iff collected.lower collected.upper).mp more).2
  cases reads : call.reads with
  | nil =>
      -- without rounds the read times out
      rw [reads] at some
      obtain ⟨read, count⟩ := collected.reads nonneg isOpen []
      have none : ((Loop.begin before).socketRead call.client.socketHandle []).1.bytes = [] :=
        socketRead_nil ..
      have silent := count (Int.le_of_lt some)
      rw [none] at silent
      exact absurd some (by rw [List.headD_nil, silent]; decide)
  | cons rounds reads' =>
      rw [reads, List.headD_cons] at some
      have next := collected.look nonneg isOpen rounds some
      rw [receiveLoop, if_pos more]
      dsimp only
      rw [if_pos some]
      exact receiveLoop_looked isOpen reads' next.1 next.2

/-- The loop of a call whose first read has none. -/
theorem receiveLoop_silent {before : PushDataBuffer} (bounded : Bounded before) {call : Call}
    (isOpen : 0 < call.client.socketHandle) (silent : hears before call = false) :
    Collected before (receiveLoop call.client.socketHandle call.reads (.begin before)) ∧
      Silent (receiveLoop call.client.socketHandle call.reads (.begin before)) := by
  have collected := Collected.begin bounded
  have begins := Silent.begin before
  by_cases more : (Loop.begin before).goesOn = true
  · have nonneg := ((Loop.goesOn_iff collected.lower collected.upper).mp more).2
    cases reads : call.reads with
    | nil =>
        rw [receiveLoop, if_pos more]
        exact ⟨collected.noBytes nonneg isOpen [], ⟨rfl, rfl⟩⟩
    | cons rounds reads' =>
        have none : ¬ 0 < ((Loop.begin before).socketRead call.client.socketHandle rounds).2 := by
          simp only [hears, decide_eq_false_iff_not, reads, List.headD_cons] at silent
          exact fun some => silent ⟨isOpen, more, some⟩
        rw [receiveLoop, if_pos more]
        dsimp only
        rw [if_neg none]
        exact ⟨collected.noBytes nonneg isOpen rounds, ⟨rfl, rfl⟩⟩
  · cases reads : call.reads with
    | nil =>
        rw [receiveLoop, if_neg more]
        exact ⟨collected, begins⟩
    | cons rounds reads' =>
        rw [receiveLoop, if_neg more]
        exact ⟨collected, begins⟩

/-! ## Handing on -/

theorem rememberTime_delivered (client : ParseClientInternal) (message : CString) :
    (rememberTime client message).2.filterMap Event.delivered = [] := by
  rw [rememberTime]
  split
  · dsimp only
    split <;> rfl
  · rfl

/-- An event with an error, or without a message, hands nothing on. -/
theorem call_delivered (client : ParseClientInternal) (error : Int) :
    (client.call error none).filterMap Event.delivered = [] := by
  rw [ParseClientInternal.call]
  split
  · simp [Event.delivered]
  · rfl

theorem sendPing_delivered (client : ParseClientInternal) (isPingTime : Bool) (send : Int) :
    (sendPing client isPingTime send).2.filterMap Event.delivered = [] := by
  rw [sendPing]
  split
  · dsimp only
    split
    · split
      · have silent := call_delivered client (-1)
        simp only [List.filterMap_cons, List.filterMap_append, silent]
        rfl
      · rfl
    · rfl
  · rfl

/-! ## The two outcomes of a call -/

/-- Whatever a call finds lies inside the bytes it has, and it writes inside the buffer. -/
structure Guarded (out : Outcome) : Prop where
  looks : ∀ look ∈ out.looks, look.Inside
  writes : ∀ extent ∈ out.writes, extent.Inside 1024

/-- What a call does to the buffer and hands on. -/
inductive Served (before : PushDataBuffer) (call : Call) (after : PushDataBuffer)
    (out : Outcome) : Prop where
  /-- No message: what has been received is kept. -/
  | kept (unread : after.unread = before.unread ++ out.received)
      (used : after.used = before.used + out.received.length) (upper : after.used ≤ 1023)
      (incomplete : hears before call = true → completeMessage after.unread = none)
      (silent : hears before call = false → out.received = [])
      (delivered : out.delivered = [])
  /-- A message: it is handed on, and as many bytes as it has and one more are taken off. -/
  | served (m : Message) (heard : hears before call = true) (nonneg : 0 ≤ before.used)
      (complete : completeMessage (before.unread ++ out.received) = some m)
      (unread : after.unread =
        ((before.unread ++ out.received).set (m.start + m.length) Byte.nul).drop (m.length + 1))
      (used : after.used = before.used + out.received.length - (m.length + 1))
      (upper : before.used + out.received.length ≤ 1023)
      (delivered : ∀ text ∈ out.delivered, text = m.text (before.unread ++ out.received))

/-- A fill count is never the size of the buffer: nothing is dropped. -/
theorem Collected.not_full {before : PushDataBuffer} {loop : Loop}
    (collected : Collected before loop) :
    ¬ (loop.length = -1 ∧ toSizeT .bits32 loop.buffer.used = 1024) := by
  have lower := collected.lower
  have upper := collected.upper
  rintro ⟨-, full⟩
  by_cases negative : loop.buffer.used = -1
  · have large := toSizeT_neg_one .bits32
    rw [negative] at full
    omega
  · rw [toSizeT_of_nonneg .bits32 (by omega) (by omega)] at full
    omega

section Ends

variable {before : PushDataBuffer} {call : Call} {loop : Loop}
  (collected : Collected before loop)

include collected

/-- The loop has found nothing. -/
theorem processReceived_nothing (length : loop.length = -1) :
    processReceived call loop = processNothing call loop := by
  have notFound : ¬ loop.length > 0 := by omega
  rw [processReceived, if_neg collected.not_full]
  split
  · exact if_neg notFound
  · rfl

/-- The loop has found a message. -/
theorem processReceived_message {index : Nat} (length : loop.length > 0)
    (found : loop.message = some index) :
    processReceived call loop = processMessage call.client loop index := by
  rw [processReceived, if_neg collected.not_full, found]
  exact if_pos length

theorem served_nothing
    (incomplete : hears before call = true → completeMessage loop.buffer.unread = none)
    (silent : hears before call = false → loop.received = []) :
    Served before call (processNothing call loop).1 (processNothing call loop).2 ∧
      Guarded (processNothing call loop).2 :=
  ⟨.kept collected.unread collected.used collected.upper incomplete silent
      (sendPing_delivered call.client call.isPingTime call.send),
    ⟨collected.looks, collected.writes⟩⟩

theorem served_message {m : Message} (heard : hears before call = true) (nonneg : 0 ≤ before.used)
    (complete : completeMessage loop.buffer.unread = some m) (length : loop.length = m.length) :
    Served before call (processMessage call.client loop m.start).1
        (processMessage call.client loop m.start).2 ∧
      Guarded (processMessage call.client loop m.start).2 := by
  have upper := collected.upper
  have used := collected.used
  have unread := collected.unread
  have inside : loop.buffer.used ≤ (1024 : Nat) := by omega
  have isIn := isIn_of_completeMessage complete
  have fits := isIn.inside
  rw [PushBuffer.length_unread inside] at fits
  have count : loop.length.toNat = m.length := by omega
  have bytes := PushBuffer.string_terminate inside isIn
  have inside' : (loop.buffer.terminate (m.start + m.length)).used ≤ (1024 : Nat) := inside
  constructor
  · refine .served m heard nonneg (unread ▸ complete) ?_ ?_ (used ▸ upper) ?_
    · rw [processMessage, count]
      refine (PushBuffer.unread_consume inside' m.length).trans ?_
      rw [PushBuffer.unread_terminate, unread]
    · change ((loop.buffer.terminate _).consume _).used = _
      rw [PushBuffer.used_consume, PushBuffer.used_terminate, count, used]
      rfl
    · intro text member
      change text = m.text (before.unread ++ loop.received)
      rw [processMessage, Outcome.delivered, List.filterMap_append, rememberTime_delivered,
        List.nil_append, count] at member
      split at member
      · cases member
      · rw [ParseClientInternal.call] at member
        split at member
        · have same := List.mem_singleton.mp member
          rw [same, bytes, unread]
        · cases member
  · refine ⟨collected.looks, ?_⟩
    change ∀ extent ∈ loop.writes ++ (⟨m.start + loop.length.toNat, 1⟩ ::
      (loop.buffer.terminate (m.start + loop.length.toNat)).moved loop.length.toNat),
        extent.Inside 1024
    rw [count]
    intro extent member
    rcases List.mem_append.mp member with earlier | member
    · exact collected.writes extent earlier
    rcases List.mem_cons.mp member with rfl | moved
    · simp only [Extent.Inside]
      omega
    · exact PushBuffer.moved_inside inside' _ extent moved

end Ends

/-- **What one call does.** -/
theorem process_served {before : PushDataBuffer} (bounded : Bounded before) (call : Call) :
    Served before call (parseProcessNextPushNotification before call).1
        (parseProcessNextPushNotification before call).2 ∧
      Guarded (parseProcessNextPushNotification before call).2 := by
  rw [parseProcessNextPushNotification]
  by_cases isOpen : call.client.socketHandle > 0
  · rw [if_pos isOpen]
    by_cases heard : hears before call = true
    · obtain ⟨collected, looked⟩ := receiveLoop_hears bounded heard
      have loud : hears before call = false → (receiveLoop call.client.socketHandle call.reads
          (.begin before)).received = [] :=
        fun silent => absurd (silent.symm.trans heard) (by decide)
      rcases looked with ⟨none, length⟩ | ⟨m, complete, length, index⟩
      · rw [processReceived_nothing collected length]
        exact served_nothing collected (fun _ => none) loud
      · have two := (isIn_of_completeMessage complete).two_le
        have nonneg : 0 ≤ before.used := by
          simp only [hears, decide_eq_true_eq] at heard
          exact ((Loop.goesOn_iff bounded.1 bounded.2).mp heard.2.1).2
        rw [processReceived_message collected (by omega) index]
        exact served_message collected heard nonneg complete length
    · obtain ⟨collected, silent⟩ :=
        receiveLoop_silent bounded isOpen (Bool.not_eq_true _ ▸ heard)
      rw [processReceived_nothing collected silent.length]
      exact served_nothing collected (fun same => absurd same heard) fun _ => silent.received
  · rw [if_neg isOpen]
    have silent : hears before call = false := by simp [hears, isOpen]
    refine ⟨.kept (List.append_nil _).symm (by simp) bounded.2 ?_ (fun _ => rfl) rfl, ?_⟩
    · intro heard
      exact absurd (silent.symm.trans heard) (by decide)
    · exact ⟨fun _ member => absurd member (List.not_mem_nil),
        fun _ member => absurd member (List.not_mem_nil)⟩

theorem Served.bounded {before : PushDataBuffer} {call : Call} {after : PushDataBuffer}
    {out : Outcome} (served : Served before call after out) (bounded : Bounded before) :
    Bounded after := by
  obtain ⟨lower, upperBefore⟩ := bounded
  cases served with
  | kept unread used upper => exact ⟨by omega, upper⟩
  | served m heard nonneg complete unread used upper =>
      have isIn := isIn_of_completeMessage complete
      have fits := isIn.inside
      have two := isIn.two_le
      rw [List.length_append, PushBuffer.length_unread (by omega)] at fits
      exact ⟨by omega, by omega⟩

end ParseEmbedded.Rtos
