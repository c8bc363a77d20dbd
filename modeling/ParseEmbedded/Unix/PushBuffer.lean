import ParseEmbedded.Unix.PushStep

/-!
# The fill count and the writes

The fill count goes down by one more than the length of a message, and the zero behind a message
is one byte further than the message. Both are safe exactly when the message is not all there is
to read and does not end with the buffer (`push_buffer_safe_iff`). Without the first the fill
count becomes minus one, and as a `size_t` this keeps the receive loop from ever running again.

Bytes that a call leaves in the buffer are looked through only once more bytes arrive. A call
announces them all the same, so its return value keeps its promise exactly when it leaves
nothing (`pending_served_iff`).
-/

set_option autoImplicit false

namespace ParseEmbedded.Unix

open SimpleJson Push Runs

/-! ## The invariant of the buffer -/

/-- After the call the fill count fits the buffer, and the call has written inside it. -/
structure BufferSafe (t : Transition) : Prop where
  nonneg : 0 ≤ t.after.used
  fits : t.after.used ≤ 2048
  writes : ∀ extent ∈ t.output.writes, extent.Inside 2048

/-- A message that the call completes is not all there is to read, and does not end where the
buffer ends. -/
def LeavesRoom (t : Transition) : Prop :=
  ∀ m, completion t = some m → m.length < (buffered t).length ∧ m.start + m.length < 2048

theorem bufferSafe_iff {t : Transition} (served : Served t) (nonneg : 0 ≤ t.before.used)
    (upper : t.before.used < 2048) : BufferSafe t ↔ LeavesRoom t := by
  have length := length_buffered nonneg upper
  cases served with
  | kept incomplete unread used upper stuck handed result writes =>
      refine ⟨fun _ m complete => ?_, fun _ => ⟨by omega, by omega, writes⟩⟩
      rw [incomplete] at complete
      cases complete
  | dropped incomplete _ _ full used handed result writes =>
      refine ⟨fun _ m complete => ?_, fun _ => ⟨by omega, by omega, writes⟩⟩
      rw [incomplete] at complete
      cases complete
  | served m complete _ unread used upper text handed result writes =>
      constructor
      · intro safe m' complete'
        rw [complete] at complete'
        cases complete'
        have := safe.nonneg
        exact ⟨by omega, writes.mp safe.writes⟩
      · intro room
        obtain ⟨short, inside⟩ := room m complete
        exact ⟨by omega, by omega, writes.mpr inside⟩

/-- **When the receive buffer is safe.** -/
theorem push_buffer_safe_iff (word : WordSize) (data : Block Byte 2048) (calls : List Call) :
    (∀ t ∈ run (pushStep word) (unfilled data) calls, BufferSafe t) ↔
      ∀ t ∈ run (pushStep word) (unfilled data) calls, LeavesRoom t := by
  refine (run_forall_iff (pushStep word) (fun s => 0 ≤ s.used ∧ s.used < 2048) LeavesRoom
    BufferSafe ?_ ?_ calls (by rw [unfilled_used]; decide)).symm
  · intro s call inv
    have bounded : Bounded s := ⟨by omega, inv.2⟩
    exact (bufferSafe_iff (process_served word bounded call) inv.1 inv.2).symm
  · intro s call inv room
    have bounded : Bounded s := ⟨by omega, inv.2⟩
    have served := process_served word bounded call
    have safe := (bufferSafe_iff served inv.1 inv.2).mpr room
    exact ⟨safe.nonneg, (served.bounded bounded).2⟩

/-- A message arrives without its line feed: the fill count becomes minus one. -/
theorem push_buffer_safe_counterexample :
    ¬ ∀ (word : WordSize) (data : Block Byte 2048) (calls : List Call),
      ∀ t ∈ run (pushStep word) (unfilled data) calls, BufferSafe t := by
  intro safe
  have first := safe .bits64 (Block.fill 2048 0)
    [⟨openClient, [.ok (ascii "\x7b\"a\":1\x7d")], 0⟩] _ (List.mem_cons_self ..)
  have negative : (pushStep .bits64 (unfilled (Block.fill 2048 0))
      ⟨openClient, [.ok (ascii "\x7b\"a\":1\x7d")], 0⟩).1.used = -1 := by
    decide +kernel
  have nonneg := first.nonneg
  simp only [fire, negative] at nonneg
  omega

/-! ## What the return value promises -/

/-- The next call, if its connection has no bytes. -/
def nextCall (word : WordSize) (t : Transition) (seconds : Nat) : Processed :=
  (pushStep word t.after ⟨t.output.client, [.again], seconds⟩).2

/-- A positive result promises a message for the next call, and zero after `CURLE_AGAIN` that
there is none in the buffer. -/
structure ServesPending (word : WordSize) (t : Transition) : Prop where
  pending : t.output.result > 0 → ∀ seconds, (nextCall word t seconds).handed ≠ []
  nothing : t.output.result = 0 → t.output.exit = some .again →
    completeMessage t.after.unread = none

/-- The call leaves no bytes behind a message. -/
def LeavesNothing (t : Transition) : Prop :=
  ∀ m, completion t = some m → (buffered t).length ≤ m.length + 1

/-- A fill count, and no message in the buffer: what every call leaves that leaves nothing behind
a message. -/
structure Clear (s : ReceiveBuffer) : Prop where
  bounded : Bounded s
  incomplete : completeMessage s.unread = none

theorem completeMessage_nil : completeMessage [] = none := rfl

/-- Without bytes from its connection a call hands nothing on. -/
theorem nextCall_handed (word : WordSize) {t : Transition} (bounded : Bounded t.after)
    (seconds : Nat) : (nextCall word t seconds).handed = [] := by
  have served := process_served word bounded ⟨t.output.client, [.again], seconds⟩
  cases served with
  | kept incomplete unread used upper stuck handed => exact handed
  | dropped incomplete _ _ full used handed => exact handed
  | served m complete =>
      have deaf : Call.hears ⟨t.output.client, [.again], seconds⟩ = false := by
        simp [Call.hears]
      rw [completion, if_neg (by simp [fire, deaf])] at complete
      cases complete

theorem unread_of_hearsNothing (word : WordSize) {before : ReceiveBuffer}
    (bounded : Bounded before) {call : Call} (nothing : call.hearsNothing = true) :
    (pushStep word before call).1.unread = before.unread := by
  obtain ⟨exit, same, -⟩ := process_hearsNothing word bounded nothing
  rw [same]
  rfl

/-- **One call.** It keeps its promises, from a buffer without a message, exactly if it leaves
nothing behind a message. -/
theorem servesPending_iff (word : WordSize) {before : ReceiveBuffer} (clear : Clear before)
    (call : Call) :
    ServesPending word (fire (pushStep word) before call) ↔
      LeavesNothing (fire (pushStep word) before call) := by
  have bounded := clear.bounded
  have served := process_served word bounded call
  have after := served.bounded bounded
  constructor
  · intro promise m complete
    cases served with
    | kept incomplete =>
        rw [incomplete] at complete
        cases complete
    | dropped incomplete =>
        rw [incomplete] at complete
        cases complete
    | served m' complete' nonneg unread used upper text handed result =>
        rw [complete'] at complete
        cases complete
        have length := length_buffered (t := fire (pushStep word) before call) nonneg bounded.2
        by_contra more
        have positive : (fire (pushStep word) before call).after.used > 0 := by omega
        have pending := promise.pending (by rw [result, if_pos positive]; decide) 0
        exact pending (nextCall_handed word after 0)
  · intro leaves
    refine ⟨fun positive => ?_, fun _ again => ?_⟩
    · cases served with
      | kept incomplete unread used upper stuck handed result => omega
      | dropped incomplete _ _ full used handed result => omega
      | served m complete nonneg unread used upper text handed result =>
          have short := leaves m complete
          have length := length_buffered (t := fire (pushStep word) before call) nonneg bounded.2
          rw [if_neg (by omega)] at result
          omega
    · cases served with
      | kept incomplete unread used upper stuck handed result writes why =>
          rcases why again with nothing | none
          · have kept := unread_of_hearsNothing word bounded nothing
            exact (congrArg completeMessage kept).trans clear.incomplete
          · exact none
      | dropped incomplete _ _ full used handed result writes exit =>
          rw [exit] at again
          cases again
      | served m complete nonneg unread used upper text handed result writes exit =>
          rw [exit] at again
          cases again

/-- A call that leaves nothing behind a message leaves no message. -/
theorem Clear.step (word : WordSize) {before : ReceiveBuffer} (clear : Clear before) {call : Call}
    (leaves : LeavesNothing (fire (pushStep word) before call)) :
    Clear (pushStep word before call).1 := by
  have bounded := clear.bounded
  have served := process_served word bounded call
  have after := served.bounded bounded
  refine ⟨after, ?_⟩
  change completeMessage (fire (pushStep word) before call).after.unread = none
  cases served with
  | kept incomplete unread =>
      rw [unread]
      by_cases hears : call.hears = true
      · exact (if_pos hears).symm.trans incomplete
      · have received := received_of_deaf word before (Bool.not_eq_true _ ▸ hears)
        have same : buffered (fire (pushStep word) before call) = before.unread :=
          (congrArg (before.unread ++ ·) received).trans (List.append_nil _)
        rw [same]
        exact clear.incomplete
  | dropped _ _ _ _ used =>
      rw [PushBuffer.unread_of_nonpos (by omega), completeMessage_nil]
  | served m complete nonneg unread used =>
      have short := leaves m complete
      have length := length_buffered (t := fire (pushStep word) before call) nonneg bounded.2
      rw [PushBuffer.unread_of_nonpos (by omega), completeMessage_nil]

/-- **When the return value can be relied on.** -/
theorem pending_served_iff (word : WordSize) (data : Block Byte 2048) (calls : List Call) :
    (∀ t ∈ run (pushStep word) (unfilled data) calls, ServesPending word t) ↔
      ∀ t ∈ run (pushStep word) (unfilled data) calls, LeavesNothing t := by
  refine run_forall_iff (pushStep word) Clear (ServesPending word) LeavesNothing ?_ ?_ calls
    ⟨unfilled_bounded data, rfl⟩
  · intro s call clear
    exact servesPending_iff word clear call
  · intro s call clear promise
    exact clear.step word ((servesPending_iff word clear call).mp promise)

/-- Two messages arrive together: the first call announces the second one, and the next call
does not look for it. -/
theorem pending_served_counterexample :
    ¬ ∀ (word : WordSize) (data : Block Byte 2048) (calls : List Call),
      ∀ t ∈ run (pushStep word) (unfilled data) calls, ServesPending word t := by
  intro serves
  have first := serves .bits64 (Block.fill 2048 0)
    [⟨openClient, [.ok (ascii "\x7b\"a\":1\x7d\n\x7b\"b\":2\x7d\n")], 0⟩] _
    (List.mem_cons_self ..)
  refine first.pending ?_ 0 ?_
  · decide +kernel
  · decide +kernel

end ParseEmbedded.Unix
