import ParseEmbedded.Push.Contents
import ParseEmbedded.Unix.PushStep

/-!
# What the callback is told

A call of `parseProcessNextPushNotification` makes at most one call of the callback: with the
message it has found, unless that is a heartbeat, or with no message where the connection has
failed (`process_told`).
-/

set_option autoImplicit false

namespace ParseEmbedded.Unix

open SimpleJson Push Runs

/-- What an event passes to the callback: a message, or none. -/
def Event.told : Event → Option (Option CString)
  | .callback _ message => some message
  | _ => none

/-- What a call passes to the callback. -/
def Processed.told (out : Processed) : List (Option CString) := out.events.filterMap Event.told

/-- How the callback is told: not at all, of a failure, or of a message that is no heartbeat. What
it hears are the messages handed on, without the heartbeats. -/
structure Tells (events : List Event) : Prop where
  atMostOnce : (events.filterMap Event.told).length ≤ 1
  messages : (events.filterMap Event.told).filterMap (Option.map CString.bytes) =
    (events.filterMap Event.handed).filter fun text => !isBeat text
  success : ∀ error message, Event.callback error (some message) ∈ events → error = 0

/-- Events that are no calls of the callback, and hand nothing on, tell nothing. -/
theorem Tells.silent {events : List Event}
    (silent : ∀ event ∈ events, event.told = none ∧ event.handed = none) : Tells events := by
  have told : events.filterMap Event.told = [] :=
    List.filterMap_eq_nil_iff.mpr fun event member => (silent event member).1
  have handed : events.filterMap Event.handed = [] :=
    List.filterMap_eq_nil_iff.mpr fun event member => (silent event member).2
  refine ⟨by rw [told]; exact Nat.zero_le 1, by rw [told, handed]; rfl, ?_⟩
  intro error message member
  exact absurd (silent _ member).1 (Option.some_ne_none _)

/-- Silent events in front make no difference. -/
theorem Tells.append {front events : List Event}
    (silent : ∀ event ∈ front, event.told = none ∧ event.handed = none) (tells : Tells events) :
    Tells (front ++ events) := by
  have told : front.filterMap Event.told = [] :=
    List.filterMap_eq_nil_iff.mpr fun event member => (silent event member).1
  have handed : front.filterMap Event.handed = [] :=
    List.filterMap_eq_nil_iff.mpr fun event member => (silent event member).2
  refine ⟨?_, ?_, ?_⟩
  · rw [List.filterMap_append, told]
    exact tells.atMostOnce
  · simp only [List.filterMap_append, told, handed, List.nil_append]
    exact tells.messages
  · intro error message member
    rcases List.mem_append.mp member with member | member
    · exact absurd (silent _ member).1 (Option.some_ne_none _)
    · exact tells.success error message member

theorem rememberTime_silent (client : ParseClientInternal) (message : CString) :
    ∀ event ∈ (rememberTime client message).2, event.told = none ∧ event.handed = none := by
  intro event member
  rw [rememberTime] at member
  split at member
  · split at member
    · rw [List.mem_singleton.mp member]
      exact ⟨rfl, rfl⟩
    · cases member
  · cases member

theorem sendHeartbeat_silent (client : ParseClientInternal) (seconds : Nat) :
    ∀ event ∈ (sendHeartbeat client seconds).2, event.told = none ∧ event.handed = none := by
  intro event member
  rw [sendHeartbeat] at member
  split at member
  · rw [List.mem_singleton.mp member]
    exact ⟨rfl, rfl⟩
  · cases member

/-- A heartbeat is kept from the callback, any other message is not. -/
theorem handOn_tells (client : ParseClientInternal) (message : CString) :
    Tells (handOn client message) := by
  have same := isHeartbeat_eq message
  rw [handOn]
  by_cases beat : isHeartbeat message = true
  · rw [if_pos beat]
    rw [beat] at same
    refine ⟨Nat.zero_le 1, ?_, fun error text member => ?_⟩
    · simp [Event.told, Event.handed, ← same]
    · cases List.mem_singleton.mp member
  · rw [if_neg beat]
    rw [Bool.not_eq_true] at beat
    rw [beat] at same
    split
    · refine ⟨Nat.le_refl 1, ?_, fun error text member => ?_⟩
      · simp [Event.told, Event.handed, ← same]
      · cases List.mem_singleton.mp member
        rfl
    · exact .silent fun _ member => absurd member List.not_mem_nil

theorem processNothing_tells (call : Call) (loop : Loop) (exit : LoopExit) :
    Tells (processNothing call loop exit).2.events :=
  .silent (sendHeartbeat_silent call.client call.seconds)

theorem processMessage_tells (client : ParseClientInternal) (loop : Loop) (exit : LoopExit)
    (index : Nat) : Tells (processMessage client loop exit index).2.events := by
  rw [processMessage_events]
  exact .append (rememberTime_silent client _) (handOn_tells _ _)

theorem processReceived_tells (word : WordSize) (call : Call) (loop : Loop) (exit : LoopExit) :
    Tells (processReceived word call loop exit).2.events := by
  have nothing := processNothing_tells call loop exit
  cases exit with
  | failed code =>
      change Tells (if call.client.pushCallback then [.callback ECONNRESET none] else [])
      split
      · refine ⟨Nat.le_refl 1, rfl, fun error text member => ?_⟩
        cases List.mem_singleton.mp member
      · exact .silent fun _ member => absurd member List.not_mem_nil
  | left | again =>
      rw [processReceived_holds word call fun _ => LoopExit.noConfusion]
      split
      · exact .silent fun _ member => absurd member List.not_mem_nil
      · split
        · split
          · exact processMessage_tells call.client loop _ _
          · exact nothing
        · exact nothing

/-- **What one call tells the callback.** -/
theorem process_told (word : WordSize) (buffer : ReceiveBuffer) (call : Call) :
    Tells (parseProcessNextPushNotification word buffer call).2.events := by
  rw [parseProcessNextPushNotification]
  split
  · exact .silent fun _ member => absurd member List.not_mem_nil
  · exact processReceived_tells word call _ _

/-- The callback is called for the first event that calls it. -/
theorem Tells.told_eq {events : List Event} (tells : Tells events) :
    events.filterMap Event.told = (events.findSome? Event.told).toList := by
  rw [← List.head?_filterMap]
  have short := tells.atMostOnce
  match events.filterMap Event.told, short with
  | [], _ => rfl
  | [_], _ => rfl

/-! ## The callback stays set -/

theorem parseStartPushService_callback (client : ParseClientInternal) (around : Surroundings) :
    (parseStartPushService client around).client.pushCallback = client.pushCallback := by
  have created : (parseCreateInstallationIdIfNeeded client around).1.pushCallback =
      client.pushCallback := by
    rw [parseCreateInstallationIdIfNeeded]
    split <;> rfl
  rw [parseStartPushService]
  split
  · rfl
  · dsimp only
    repeat' split
    all_goals exact created

theorem parseStopPushService_callback (client : ParseClientInternal) :
    (parseStopPushService client).1.pushCallback = client.pushCallback := by
  rw [parseStopPushService]
  split <;> rfl

theorem processReceived_callback (word : WordSize) (call : Call) (loop : Loop)
    (exit : LoopExit) :
    (processReceived word call loop exit).2.client.pushCallback = call.client.pushCallback := by
  have nothing : (processNothing call loop exit).2.client.pushCallback =
      call.client.pushCallback := by
    change (sendHeartbeat call.client call.seconds).1.pushCallback = _
    rw [sendHeartbeat]
    split <;> rfl
  cases exit with
  | failed code => rfl
  | left | again =>
      rw [processReceived_holds word call fun _ => LoopExit.noConfusion]
      split
      · rfl
      · split
        · split
          · exact (rememberTime_client call.client _).1
          · exact nothing
        · exact nothing

theorem parseProcessNextPushNotification_callback (word : WordSize) (buffer : ReceiveBuffer)
    (call : Call) :
    (parseProcessNextPushNotification word buffer call).2.client.pushCallback =
      call.client.pushCallback := by
  rw [parseProcessNextPushNotification]
  split
  · rfl
  · exact processReceived_callback word call _ _

/-! ## The result of a start -/

/-- A start of a service that is not started succeeds exactly where it gets a connection. -/
theorem parseStartPushService_result {client : ParseClientInternal}
    (idle : client.pushCurlHandle = none) (around : Surroundings) :
    (parseStartPushService client around).result = 0 ↔
      (parseStartPushService client around).client.pushCurlHandle ≠ none := by
  rw [parseStartPushService_handle idle around, parseStartPushService, if_neg (not_not.mpr idle)]
  dsimp only
  cases around.curl with
  | none => simp [CURLE_FAILED_INIT]
  | some curl =>
      dsimp only
      by_cases connectOnly : around.connectOnly = CURLE_OK
      · by_cases useSsl : around.useSsl = CURLE_OK
        · by_cases url : around.url = CURLE_OK
          · by_cases perform : around.perform = CURLE_OK
            · simp [connectOnly, useSsl, url, perform]
            · simp [connectOnly, useSsl, url, perform]
          · simp [connectOnly, useSsl, url]
        · simp [connectOnly, useSsl]
      · simp [connectOnly]

end ParseEmbedded.Unix
