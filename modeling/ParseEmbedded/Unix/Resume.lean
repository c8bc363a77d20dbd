import Mathlib.Data.List.Basic
import ParseEmbedded.Unix.Handshake
import ParseEmbedded.Unix.PushCallbacks
import ParseEmbedded.Unix.PushDelivery

/-!
# Where the push service goes on

Every message handed on that holds a time leaves it in the client, and the next handshake asks the
server to go on from there. `resume_point` says which time that is, for a stream of lines of which
a part has been handed on.
-/

set_option autoImplicit false

namespace ParseEmbedded.Unix

open Json SimpleJson Push Runs

/-! ## The time of a message -/

/-- What the client remembers of a message: the string in `char time[32]`. -/
def timeOf (message : CString) : Option CString :=
  match simpleJsonProcessor message TIME (some (List.replicate 32 0)) 32 with
  | .ok ⟨result, some time⟩ => if result ≠ 0 then some (CString.ofMemory time) else none
  | _ => none

theorem rememberTime_lastPushTime (client : ParseClientInternal) (message : CString) :
    (rememberTime client message).1.lastPushTime = (timeOf message).or client.lastPushTime := by
  rw [rememberTime, timeOf, TIME]
  cases simpleJsonProcessor message (CString.literal "time") (some (List.replicate 32 0)) 32 with
  | error overread => rfl
  | ok lookup =>
      obtain ⟨result, value⟩ := lookup
      cases value with
      | none => rfl
      | some time =>
          dsimp only
          split <;> rfl

/-- **The time that is remembered of an object.** -/
theorem timeOf_object (line : Line) :
    (timeOf line.object.string).map CString.bytes = lineTime 31 line := by
  rw [timeOf, lookup_time, lineTime]
  cases stores : storedTime line with
  | none => rfl
  | some stored => exact congrArg some (ofMemory_storeInto _ 32 (storedTime_noNul stores))

/-! ## One call -/

/-- A call keeps all of the client but its times, and remembers that of what it hands on. -/
structure KeepsTime (client after : ParseClientInternal) (events : List Event) : Prop where
  applicationId : after.applicationId = client.applicationId
  installationId : after.installationId = client.installationId
  time : after.lastPushTime =
    (((events.filterMap Event.handed).filterMap fun text =>
      timeOf (CString.ofMemory text)).getLast?).or client.lastPushTime

theorem ofMemory_bytes_self (message : CString) : CString.ofMemory message.bytes = message :=
  CString.ext_bytes (CString.ofMemory_bytes message.noNul)

theorem processMessage_keepsTime {client : ParseClientInternal}
    (callback : client.pushCallback = true) (loop : Loop) (exit : LoopExit) (index : Nat) :
    KeepsTime client (processMessage client loop exit index).2.client
      (processMessage client loop exit index).2.events := by
  generalize isMessage : (loop.buffer.terminate (index + loop.length.toNat)).string index = message
  have same : (processMessage client loop exit index).2.client =
      (rememberTime client message).1 := by
    rw [← isMessage]
    rfl
  have set : (rememberTime client message).1.pushCallback = true :=
    (rememberTime_client client message).1.trans callback
  have handed : (processMessage client loop exit index).2.events.filterMap Event.handed =
      [message.bytes] := by
    rw [processMessage_events, isMessage, List.filterMap_append, rememberTime_handed,
      List.nil_append, handOn_handed, if_pos (.inr set)]
  have others : (rememberTime client message).1.applicationId = client.applicationId ∧
      (rememberTime client message).1.installationId = client.installationId := by
    rw [rememberTime]
    split
    · split <;> exact ⟨rfl, rfl⟩
    · exact ⟨rfl, rfl⟩
  refine ⟨same ▸ others.1, same ▸ others.2, ?_⟩
  rw [handed, same, rememberTime_lastPushTime, List.filterMap_cons, ofMemory_bytes_self]
  cases timeOf message with
  | none => rfl
  | some time => rfl

theorem processReceived_keepsTime (word : WordSize) {call : Call}
    (callback : call.client.pushCallback = true) (loop : Loop) (exit : LoopExit) :
    KeepsTime call.client (processReceived word call loop exit).2.client
      (processReceived word call loop exit).2.events := by
  have nothing : KeepsTime call.client (processNothing call loop exit).2.client
      (processNothing call loop exit).2.events := by
    change KeepsTime call.client (sendHeartbeat call.client call.seconds).1
      (sendHeartbeat call.client call.seconds).2
    rw [sendHeartbeat]
    split <;> exact ⟨rfl, rfl, rfl⟩
  cases exit with
  | failed code =>
      change KeepsTime call.client call.client
        (if call.client.pushCallback then [.callback ECONNRESET none] else [])
      split <;> exact ⟨rfl, rfl, rfl⟩
  | left | again =>
      rw [processReceived_holds word call fun _ => LoopExit.noConfusion]
      split
      · exact ⟨rfl, rfl, rfl⟩
      · split
        · split
          · exact processMessage_keepsTime callback loop _ _
          · exact nothing
        · exact nothing

theorem process_keepsTime (word : WordSize) (buffer : ReceiveBuffer) (call : Call)
    (callback : call.client.pushCallback = true) :
    KeepsTime call.client (parseProcessNextPushNotification word buffer call).2.client
      (parseProcessNextPushNotification word buffer call).2.events := by
  rw [parseProcessNextPushNotification]
  split
  · exact ⟨rfl, rfl, rfl⟩
  · exact processReceived_keepsTime word callback _ _

/-! ## Runs -/

/-- The calls with the clients that they get. -/
def callsFrom (word : WordSize) : LoopState → ProcessInputs → List Call
  | _, [] => []
  | s, input :: inputs =>
      ⟨s.client, input.1, input.2⟩ ::
        callsFrom word (serviceStep word s (.process input.1 input.2)).1 inputs

/-- The state behind these calls. -/
def behindCalls (word : WordSize) (s : LoopState) (inputs : ProcessInputs) : LoopState :=
  final (serviceStep word) s (processCalls inputs)

theorem callsFrom_callback (word : WordSize) (inputs : ProcessInputs) : ∀ {s : LoopState},
    s.client.pushCallback = true →
      ∀ call ∈ callsFrom word s inputs, call.client.pushCallback = true := by
  induction inputs with
  | nil =>
      intro s _ call member
      exact absurd member List.not_mem_nil
  | cons input inputs ih =>
      intro s callback
      refine List.forall_mem_cons.mpr ⟨callback, ih ?_⟩
      exact (parseProcessNextPushNotification_callback word s.buffer _).trans callback

/-- A run of these calls leaves the buffer behind that the service leaves. -/
theorem callsFrom_final (word : WordSize) (inputs : ProcessInputs) : ∀ s : LoopState,
    final (pushStep word) s.buffer (callsFrom word s inputs) =
      (behindCalls word s inputs).buffer := by
  induction inputs with
  | nil =>
      intro s
      rfl
  | cons input inputs ih =>
      intro s
      exact ih (serviceStep word s (.process input.1 input.2)).1

/-- **Along a run** the client remembers the last time among the messages handed on. -/
theorem run_keepsTime (word : WordSize) (inputs : ProcessInputs) : ∀ {s : LoopState},
    s.client.pushCallback = true →
      (behindCalls word s inputs).client.applicationId = s.client.applicationId ∧
      (behindCalls word s inputs).client.installationId = s.client.installationId ∧
      (behindCalls word s inputs).client.lastPushTime =
        (((handedMessages (run (pushStep word) s.buffer (callsFrom word s inputs))).filterMap
          fun text => timeOf (CString.ofMemory text)).getLast?).or s.client.lastPushTime := by
  induction inputs with
  | nil =>
      intro s _
      exact ⟨rfl, rfl, rfl⟩
  | cons input inputs ih =>
      intro s callback
      obtain ⟨application, installation, time⟩ := process_keepsTime word s.buffer
        ⟨s.client, input.1, input.2⟩ callback
      obtain ⟨applications, installations, times⟩ :=
        ih (s := (serviceStep word s (.process input.1 input.2)).1)
          ((parseProcessNextPushNotification_callback word s.buffer _).trans callback)
      refine ⟨applications.trans application, installations.trans installation, ?_⟩
      have handed : handedMessages
          (run (pushStep word) s.buffer (callsFrom word s (input :: inputs))) =
            (parseProcessNextPushNotification word s.buffer
              ⟨s.client, input.1, input.2⟩).2.handed ++
            handedMessages (run (pushStep word)
              (serviceStep word s (.process input.1 input.2)).1.buffer
              (callsFrom word (serviceStep word s (.process input.1 input.2)).1 inputs)) := rfl
      refine times.trans ?_
      rw [handed, List.filterMap_append, List.getLast?_append, Option.or_assoc]
      exact congrArg _ time

/-- What is sent when the service is stopped and started again. -/
theorem restart_sends {client : ParseClientInternal} {id : CString}
    (identified : client.installationId = some id) {around : Surroundings}
    (connects : around.Connects) :
    (parseStartPushService (parseStopPushService client).1 around).events =
      [.send (handshake client), .send ping] := by
  have stopped : ¬ (parseStopPushService client).1.Started ∧
      (parseStopPushService client).1.installationId = some id ∧
      handshake (parseStopPushService client).1 = handshake client := by
    rw [parseStopPushService]
    split
    · rename_i none
      exact ⟨not_not.mpr none, identified, rfl⟩
    · exact ⟨fun started => started rfl, identified, rfl⟩
  have created : parseCreateInstallationIdIfNeeded (parseStopPushService client).1 around =
      ((parseStopPushService client).1, []) := by
    rw [parseCreateInstallationIdIfNeeded, stopped.2.1]
  rw [start_sends stopped.1 connects, created, List.nil_append, stopped.2.2]

/-- **On a stream of lines** some are handed on, the others are still to come, and the client
remembers the last time among those handed on. -/
theorem behindCalls_takes (word : WordSize) (data : Block Byte 2048) (client : ParseClientInternal)
    (inputs : ProcessInputs) {lines : List Line} {todo : List Byte}
    (callback : client.pushCallback = true)
    (stream : receivedBytes (run (pushStep word) (unfilled data)
      (callsFrom word ⟨client, unfilled data⟩ inputs)) ++ todo = streamText lines)
    (lineFeeds : LineFeeds lines) (fits : ∀ line ∈ lines, line.object.text.length ≤ 2048) :
    ∃ done left, lines = done ++ left ∧
      handedMessages (run (pushStep word) (unfilled data)
        (callsFrom word ⟨client, unfilled data⟩ inputs)) =
          done.map (fun line => line.object.text) ∧
      messages ((behindCalls word ⟨client, unfilled data⟩ inputs).buffer.unread ++ todo) =
        left.map (fun line => line.object.text) ∧
      (behindCalls word ⟨client, unfilled data⟩ inputs).client.lastPushTime.map CString.bytes =
        ((done.filterMap (lineTime 31)).getLast?).or (client.lastPushTime.map CString.bytes) := by
  have calls := callsFrom_callback word inputs (s := ⟨client, unfilled data⟩) callback
  have onLine := run_onLine word (callsFrom word ⟨client, unfilled data⟩ inputs)
    (unfilled_bounded data) lineFeeds (.inr ⟨Int.le_refl 0, stream⟩) fits
  obtain ⟨lead, done, left, rfl, handed, behind⟩ :=
    run_delivers word _ Separator.none (unfilled_bounded data) calls
      onLine stream
  rw [callsFrom_final word inputs ⟨client, unfilled data⟩] at behind
  obtain ⟨-, -, time⟩ := run_keepsTime word inputs (s := ⟨client, unfilled data⟩) callback
  refine ⟨done, left, rfl, handed, by rw [behind, messages_stream], ?_⟩
  rw [time, handed, Option.map_or, ← List.getLast?_map, List.filterMap_map, List.map_filterMap]
  refine congrArg (fun times : List (List Byte) => times.getLast?.or _) ?_
  refine List.filterMap_congr fun line _ => ?_
  have isObject : CString.ofMemory line.object.text = line.object.string :=
    ofMemory_bytes_self line.object.string
  change (timeOf (CString.ofMemory line.object.text)).map CString.bytes = lineTime 31 line
  rw [isObject, timeOf_object]

/-- **Where the push service goes on.** In every run of `parseProcessNextPushNotification` on a
connection on which the server sends objects that fit the buffer on lines of their own: some of
the lines have been handed on, and the others are those still to come; and when the service is then
stopped and started again, its handshake has the time of the last line handed on that has one, cut
off behind 31 bytes, or where none has one the time that it had at first. -/
theorem resume_point (word : WordSize) (data : Block Byte 2048) (client : ParseClientInternal)
    (inputs : ProcessInputs) (lines : List Line) (todo : List Byte) (id : CString)
    (around : Surroundings) (identified : client.installationId = some id)
    (callback : client.pushCallback = true) (connects : around.Connects)
    (stream : receivedBytes (run (pushStep word) (unfilled data)
      (callsFrom word ⟨client, unfilled data⟩ inputs)) ++ todo = streamText lines)
    (lineFeeds : LineFeeds lines) (fits : ∀ line ∈ lines, line.object.text.length ≤ 2048) :
    ∃ done left, lines = done ++ left ∧
      handedMessages (run (pushStep word) (unfilled data)
        (callsFrom word ⟨client, unfilled data⟩ inputs)) =
          done.map (fun line => line.object.text) ∧
      messages ((behindCalls word ⟨client, unfilled data⟩ inputs).buffer.unread ++ todo) =
        left.map (fun line => line.object.text) ∧
      (parseStartPushService (parseStopPushService
          (behindCalls word ⟨client, unfilled data⟩ inputs).client).1 around).events =
        [.send (handshakeText id.bytes client.applicationId.bytes
          (((done.filterMap (lineTime 31)).getLast?).or (client.lastPushTime.map CString.bytes))),
          .send ping] := by
  obtain ⟨done, left, rfl, handed, behind, last⟩ :=
    behindCalls_takes word data client inputs callback stream lineFeeds fits
  obtain ⟨application, installation, -⟩ :=
    run_keepsTime word inputs (s := ⟨client, unfilled data⟩) callback
  refine ⟨done, left, rfl, handed, behind, ?_⟩
  rw [restart_sends (installation.trans identified) connects, handshake_eq, application,
    installation, identified, last]
  rfl

/-- A client with an installation and a connection. -/
def identifiedClient : ParseClientInternal := { idleClient with pushCurlHandle := some 0 }

/-- A message with a time, and one without. -/
def timedLines : List Line :=
  [⟨.of (.last [] (.plain "time") [] [] (.string (.plain "noon")) []), .lineFeed⟩,
    ⟨nullMember "a", .lineFeed⟩]

/-- The first line arrives in two pieces, and of the second line the end is still to come. -/
def timedInputs : ProcessInputs :=
  [([.ok ((streamText timedLines).take 9), .again], 0),
    ([.ok (((streamText timedLines).drop 9).take 12)], 0), ([.again], 0)]

/-- The first line has been handed on, and the handshake has its time. -/
theorem resume_point_noon :
    handedMessages (run (pushStep .bits64) (unfilled (Block.fill 2048 0))
        (callsFrom .bits64 ⟨identifiedClient, unfilled (Block.fill 2048 0)⟩ timedInputs)) =
      [ascii "\x7b\"time\":\"noon\"\x7d"] ∧
    ∃ done left, timedLines = done ++ left ∧
      handedMessages (run (pushStep .bits64) (unfilled (Block.fill 2048 0))
        (callsFrom .bits64 ⟨identifiedClient, unfilled (Block.fill 2048 0)⟩ timedInputs)) =
          done.map (fun line => line.object.text) ∧
      messages ((behindCalls .bits64 ⟨identifiedClient, unfilled (Block.fill 2048 0)⟩
        timedInputs).buffer.unread ++ (streamText timedLines).drop 21) =
          left.map (fun line => line.object.text) ∧
      (parseStartPushService (parseStopPushService (behindCalls .bits64
          ⟨identifiedClient, unfilled (Block.fill 2048 0)⟩ timedInputs).client).1
            starting).events =
        [.send (handshakeText (CString.literal "id").bytes (CString.literal "app").bytes
          (((done.filterMap (lineTime 31)).getLast?).or none)), .send ping] :=
  ⟨by decide +kernel, resume_point .bits64 (Block.fill 2048 0) identifiedClient timedInputs
    timedLines ((streamText timedLines).drop 21) (CString.literal "id") starting rfl rfl
    starting_connects (by decide +kernel)
    (show ∀ line ∈ timedLines, line.ending = .lineFeed by decide) (by decide)⟩

end ParseEmbedded.Unix
