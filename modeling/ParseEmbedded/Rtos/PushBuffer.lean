import ParseEmbedded.Rtos.PushStep

/-!
# The push buffer of an RTOS over whole runs

A run starts the service and processes notifications, in any order and for any clients. All of
it is safe: the fill count, the messages found and every store stay inside the buffer
(`push_data_buffer_safe`), because `socketRead` always keeps a cell for its zero. For the same
reason the fill count never reaches the size of the buffer, which is what the branch for a
message bigger than the buffer waits for. A buffer that is full but for that cell stays so in
every run, and nothing is handed on any more (`full_buffer_wedges`).
-/

set_option autoImplicit false

namespace ParseEmbedded.Rtos

open SimpleJson Push Runs

/-- The calls that work with the buffer. -/
inductive Command where
  | start (client : ParseClientInternal) (around : Surroundings)
  | process (call : Call)

/-- One command, as the step of a system whose state is the buffer. -/
def pushStep (buffer : PushDataBuffer) : Command → PushDataBuffer × Outcome
  | .start client around => parseStartPushService buffer client around
  | .process call => parseProcessNextPushNotification buffer call

abbrev Transition := Runs.Transition PushDataBuffer Command Outcome

/-- The buffer before the first command: nothing has been received. -/
def unfilled (data : Block Byte 1024) : PushDataBuffer := ⟨data, 0⟩

theorem unfilled_bounded (data : Block Byte 1024) : Bounded (unfilled data) := by
  change -1 ≤ (0 : Int) ∧ (0 : Int) ≤ 1023
  decide

/-- A client with a callback and an open socket. -/
def openClient : ParseClientInternal where
  applicationId := CString.literal "app"
  installationId := CString.literal "id"
  callback := true
  socketHandle := 1
  nFailedPing := 0
  lastPushTime := List.replicate 41 0

/-! ## Safety -/

theorem length_handshake (client : ParseClientInternal) : (handshake client).length ≤ 1022 := by
  simp only [handshake, snprintf, List.length_take]
  omega

/-- The handshake fits the buffer, and starting changes no fill count. -/
theorem start_guarded (buffer : PushDataBuffer) (client : ParseClientInternal)
    (around : Surroundings) :
    (parseStartPushService buffer client around).1.used = buffer.used ∧
      Guarded (parseStartPushService buffer client around).2 := by
  have fits := length_handshake { client with installationId := around.installationId }
  have inside : ∀ extent ∈ [(⟨0, (handshake
      { client with installationId := around.installationId }).length + 1⟩ : Extent)],
        extent.Inside 1024 := by
    refine List.forall_mem_singleton.mpr ?_
    simp only [Extent.Inside]
    omega
  have nothing : ∀ look ∈ ([] : List Look), look.Inside :=
    fun _ member => absurd member (List.not_mem_nil)
  rw [parseStartPushService]
  split
  · dsimp only
    split
    · exact ⟨rfl, nothing, inside⟩
    · exact ⟨rfl, nothing, inside⟩
  · exact ⟨rfl, nothing, fun _ member => absurd member (List.not_mem_nil)⟩

/-- What is safe about a step. -/
structure Safe (t : Transition) : Prop where
  lower : -1 ≤ t.after.used
  upper : t.after.used ≤ 1023
  looks : ∀ look ∈ t.output.looks, look.Inside
  writes : ∀ extent ∈ t.output.writes, extent.Inside 1024

theorem safe_step {before : PushDataBuffer} (bounded : Bounded before) (command : Command) :
    Safe (fire pushStep before command) := by
  cases command with
  | start client around =>
      obtain ⟨used, guarded⟩ := start_guarded before client around
      exact ⟨used ▸ bounded.1, used ▸ bounded.2, guarded.looks, guarded.writes⟩
  | process call =>
      obtain ⟨served, guarded⟩ := process_served bounded call
      have after := served.bounded bounded
      exact ⟨after.1, after.2, guarded.looks, guarded.writes⟩

theorem pushStep_bounded (before : PushDataBuffer) (command : Command)
    (bounded : Bounded before) : Bounded (pushStep before command).1 :=
  ⟨(safe_step bounded command).lower, (safe_step bounded command).upper⟩

/-- **In every run the push buffer is safe.** -/
theorem push_data_buffer_safe (data : Block Byte 1024) (commands : List Command) :
    ∀ t ∈ run pushStep (unfilled data) commands, Safe t :=
  run_forall pushStep Bounded Safe pushStep_bounded (fun _ command bounded =>
    safe_step bounded command) commands (unfilled_bounded data)

/-- A message arrives without its line feed. -/
def messageCall : Call where
  client := openClient
  reads := [[⟨1, 0, .bytes (ascii "\x7b\"a\":1\x7d")⟩]]
  isPingTime := false
  send := 0

/-- The fill count becomes minus one, and everything is safe all the same. -/
theorem push_data_buffer_safe_message :
    (fire pushStep (unfilled (Block.fill 1024 0)) (.process messageCall)).after.used = -1 ∧
      Safe (fire pushStep (unfilled (Block.fill 1024 0)) (.process messageCall)) :=
  ⟨by decide +kernel, push_data_buffer_safe (Block.fill 1024 0) [.process messageCall] _
    (List.mem_cons_self ..)⟩

/-! ## A full buffer -/

/-- A read of one byte has none: it is kept for the zero. -/
theorem deaf_of_full {before : PushDataBuffer} (full : before.used = 1023) (call : Call) :
    hears before call = false := by
  have bounded : Bounded before := ⟨by omega, by omega⟩
  by_contra loud
  have heard := Bool.not_eq_false _ ▸ loud
  simp only [hears, decide_eq_true_eq] at heard
  obtain ⟨isOpen, -, some⟩ := heard
  have nonneg : 0 ≤ (Loop.begin before).buffer.used := by
    change 0 ≤ before.used
    omega
  obtain ⟨reads, count⟩ := (Collected.begin bounded).reads nonneg isOpen (call.reads.headD [])
  have room := reads.room
  have none := count (Int.le_of_lt some)
  have offset : (Loop.begin before).buffer.used.toNat = 1023 := by
    change before.used.toNat = 1023
    omega
  omega

/-- Without a socket the buffer is left alone. -/
theorem start_failed (buffer : PushDataBuffer) (client : ParseClientInternal)
    {around : Surroundings} (failed : ¬ around.socketHandle ≥ 0) :
    (parseStartPushService buffer client around).1 = buffer := by
  rw [parseStartPushService]
  exact congrArg Prod.fst (if_neg failed)

/-- Starting passes nothing to the callback with error zero. -/
theorem start_delivered (buffer : PushDataBuffer) (client : ParseClientInternal)
    (around : Surroundings) : (parseStartPushService buffer client around).2.delivered = [] := by
  have silent := call_delivered { client with installationId := around.installationId }
  rw [parseStartPushService]
  split
  · dsimp only
    split
    · rw [Outcome.delivered, List.filterMap_cons, List.filterMap_cons, silent]
      rfl
    · rfl
  · exact silent _

/-- A full buffer stays full, and nothing is handed on. -/
theorem full_step {before : PushDataBuffer} (full : before.used = 1023) (command : Command) :
    (pushStep before command).1.used = 1023 ∧ (pushStep before command).2.delivered = [] := by
  have bounded : Bounded before := ⟨by omega, by omega⟩
  cases command with
  | start client around =>
      exact ⟨(start_guarded before client around).1.trans full,
        start_delivered before client around⟩
  | process call =>
      have deaf := deaf_of_full full call
      obtain ⟨served, -⟩ := process_served bounded call
      cases served with
      | kept unread used upper incomplete silent delivered =>
          rw [silent deaf] at used
          exact ⟨used.trans (by simpa using full), delivered⟩
      | served m heard => exact absurd (deaf.symm.trans heard) (by decide)

/-- A call on an open socket ends its receive loop without a message, and with room in the
buffer for the zero of `socketRead` alone. -/
structure FilledUp (t : Transition) : Prop where
  isOpen : ∃ call, t.input = .process call ∧ 0 < call.client.socketHandle
  noRoom : toSizeT .bits32 (1024 - (t.before.used + t.output.received.length)) ≤ 1
  incomplete : completeMessage (t.before.unread ++ t.output.received) = none

theorem full_of_filledUp {before : PushDataBuffer} (bounded : Bounded before) {command : Command}
    (filledUp : FilledUp (fire pushStep before command)) :
    (pushStep before command).1.used = 1023 := by
  obtain ⟨call, isCall, -⟩ := filledUp.isOpen
  cases isCall
  change (parseProcessNextPushNotification before call).1.used = 1023
  have noRoom : toSizeT .bits32 (1024 - (before.used +
      (parseProcessNextPushNotification before call).2.received.length)) ≤ 1 := filledUp.noRoom
  have incomplete : completeMessage (before.unread ++
      (parseProcessNextPushNotification before call).2.received) = none := filledUp.incomplete
  obtain ⟨served, -⟩ := process_served bounded call
  have after := served.bounded bounded
  cases served with
  | kept unread used upper =>
      rw [← used, toSizeT_of_nonneg .bits32 (by omega) (by have := after.1; omega)] at noRoom
      omega
  | served m heard nonneg complete =>
      rw [complete] at incomplete
      cases incomplete

/-- **A buffer filled up without a message is never emptied again.** Nothing is dropped, and in
every later run the fill count is the same and no message is handed on. -/
theorem full_buffer_wedges (data : Block Byte 1024) (commands : List Command) (t : Transition)
    (member : t ∈ run pushStep (unfilled data) commands) (filledUp : FilledUp t)
    (later : List Command) :
    t.after.used = 1023 ∧
      ∀ t' ∈ run pushStep t.after later, t'.after.used = 1023 ∧ t'.output.delivered = [] := by
  have full : t.after.used = 1023 :=
    run_forall pushStep Bounded (fun t => FilledUp t → t.after.used = 1023) pushStep_bounded
      (fun _ _ bounded => full_of_filledUp bounded) commands (unfilled_bounded data) t member
      filledUp
  refine ⟨full, ?_⟩
  exact run_forall pushStep (fun s => s.used = 1023)
    (fun t' => t'.after.used = 1023 ∧ t'.output.delivered = [])
    (fun _ command inv => (full_step inv command).1) (fun _ command inv => full_step inv command)
    later full

/-- A call that receives 1023 bytes without a message. -/
def fillingCall : Call where
  client := openClient
  reads := [[⟨1, 0, .bytes (List.replicate 1023 Byte.space)⟩]]
  isPingTime := false
  send := 0

/-- The call as the first one of a run. -/
def fillingStep : Transition := fire pushStep (unfilled (Block.fill 1024 0)) (.process fillingCall)

theorem fillingStep_mem :
    fillingStep ∈ run pushStep (unfilled (Block.fill 1024 0)) [.process fillingCall] :=
  List.mem_cons_self ..

theorem fillingStep_filledUp : FilledUp fillingStep := by
  have received : fillingStep.output.received = List.replicate 1023 Byte.space := by
    decide +kernel
  refine ⟨⟨fillingCall, rfl, by decide⟩, ?_, ?_⟩
  · rw [received]
    decide +kernel
  · rw [received]
    decide +kernel

theorem full_buffer_wedges_blanks : fillingStep.after.used = 1023 :=
  (full_buffer_wedges (Block.fill 1024 0) [.process fillingCall] fillingStep fillingStep_mem
    fillingStep_filledUp []).1

/-- 1023 blanks arrive: the call keeps them all. -/
theorem full_buffer_wedges_counterexample :
    ¬ ∀ (data : Block Byte 1024) (commands : List Command),
      ∀ t ∈ run pushStep (unfilled data) commands, FilledUp t → t.after.used = 0 := by
  intro drops
  have dropped := drops (Block.fill 1024 0) [.process fillingCall] fillingStep fillingStep_mem
    fillingStep_filledUp
  have kept : fillingStep.after.used = 1023 := by decide +kernel
  exact absurd (kept.symm.trans dropped) (by decide)

end ParseEmbedded.Rtos
