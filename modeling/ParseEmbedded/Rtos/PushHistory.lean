import ParseEmbedded.Push.Log
import ParseEmbedded.Rtos.Durability
import ParseEmbedded.Rtos.PushDelivery

/-!
# Notifications through restarts on an RTOS

A device is started, initializes its client, sets its installation and session up, starts the push
service and runs its loop, until its power goes off. Of all of this only the files of the flash
stay. Each message with a time that the loop takes leaves its time there in front of the callback,
and the handshake of the next start asks the server to go on behind it.

`push_log_continues` says what comes of it if the server does: all starts together, the callback has
heard the messages of the log of the server one after the other, none is left out and none comes
twice; and a start that takes all that is sent to it has heard the last.
-/

set_option autoImplicit false

namespace ParseEmbedded.Rtos

open Json SimpleJson Push Runs Resuming

/-! ## A start of the device -/

/-- What a start of the device meets: the key and the version that its client gets, the calls of
the application in front of the push service, and what the service meets until the power goes. -/
structure Start where
  clientKey : CString
  osVersion : Option (List Byte)
  calls : List ApiCall
  outside : Outside
  socketHandle : Int
  send : Int
  stray : Stray
  rounds : List LoopRound

/-- `parseRunPushLoop` on the device, whose saves end well. -/
def Device.runPushLoop (stray : Stray) : Device → List LoopRound → Device × List Outcome
  | device, [] => (device, [])
  | device, meets :: rounds =>
      if device.client.socketHandle ≠ -1 then
        let out := (parseProcessNextPushNotification device.buffer
          ⟨device.client.internal, meets.reads, meets.isPingTime, meets.send⟩).2
        let rest := Device.runPushLoop stray (device.processNextPushNotification stray meets.reads
          meets.isPingTime meets.send .success) rounds
        (rest.1, out :: rest.2)
      else (device, [])

/-- What a start of the device shows: the client with which the push service is started, what that
does, what the loop does, and the buffer that it leaves. -/
structure Report where
  client : ParseClientInternal
  opening : List Event
  outs : List Outcome
  buffer : PushDataBuffer

/-- The device in front of the push service. -/
def Start.device (applicationId : CString) (flash : Flash) (start : Start) : Device :=
  (final apiStep (parseInitialize flash applicationId start.clientKey start.osVersion)
    start.calls).setPushCallback true

/-- A start of the device, from the files that it finds to those that it leaves. -/
def startStep (applicationId : CString) (flash : Flash) (start : Start) : Flash × Report :=
  let device := start.device applicationId flash
  let client := (getInstallation start.outside device.client).1.internal
  let opening := (parseStartPushService device.buffer client
    ⟨client.installationId, start.socketHandle, start.send⟩).2.events
  let device := (device.startPushService start.outside start.socketHandle start.send).1
  let (device, outs) := device.runPushLoop start.stray start.rounds
  (device.flash, ⟨client, opening, outs, device.buffer⟩)

/-- A call that sets the installation or the session, or sends a request. What it saves is saved
well. -/
def ApiCall.IsSetup : ApiCall → Prop
  | .setInstallationId outside _ => outside.save = .success
  | .setSessionToken outside _ => outside.save = .success
  | .sendRequest _ _ _ _ => True
  | _ => False

/-! ## The time that is saved -/

/-- The time of the last push in the file of the application. -/
def savedTime (applicationId : CString) (flash : Flash) : List Byte :=
  stringOf (parseInitialize flash applicationId (CString.literal "") none).client.lastPushTime

/-- The device runs a client of the application, and the time of the client is saved. -/
structure Keeps (applicationId : CString) (device : Device) : Prop where
  wellFormed : device.WellFormed
  application : SameApplication device.client (newClient applicationId (CString.literal "") none)
  saved : savedTime applicationId device.flash = stringOf device.client.lastPushTime

section Keeps

variable {applicationId : CString} {device : Device}

/-- The client is saved. -/
theorem Keeps.save (keeps : Keeps applicationId device) {after : Device}
    (wellFormed : after.WellFormed)
    (flash : after.flash = saveClientState .success device.flash after.client)
    (same : after.client.applicationId = device.client.applicationId) :
    Keeps applicationId after := by
  have application : SameApplication after.client
      (newClient applicationId (CString.literal "") none) :=
    (congrArg CString.ofMemory same).trans keeps.application
  have loaded : SameState (loadClientState (saveClientState .success device.flash after.client)
      (newClient applicationId (CString.literal "") none)) after.client :=
    load_save application wellFormed.client.saveable.sized
      (newClient_wellFormed applicationId (CString.literal "") none).saveable.sized
  refine ⟨wellFormed, application, ?_⟩
  rw [savedTime, parseInitialize, flash]
  exact congrArg stringOf loaded.lastPushTime

/-- The files stay, and so does the time. -/
theorem Keeps.stay (keeps : Keeps applicationId device) {after : Device}
    (wellFormed : after.WellFormed) (flash : after.flash = device.flash)
    (same : after.client.applicationId = device.client.applicationId)
    (time : stringOf after.client.lastPushTime = stringOf device.client.lastPushTime) :
    Keeps applicationId after where
  wellFormed := wellFormed
  application := (congrArg CString.ofMemory same).trans keeps.application
  saved := by rw [flash, time, keeps.saved]

end Keeps

/-! ## The calls in front of the push service -/

theorem getInstallation_callback (outside : Outside) (client : Client) :
    (getInstallation outside client).1.callback = client.callback := by
  have create : ∀ client : Client,
      (createInstallation outside client).1.callback = client.callback := by
    intro client
    rw [createInstallation]
    split
    · dsimp only
      rw [createInstallationCallback]
      split <;> (split <;> rfl)
    · rfl
  rw [getInstallation_client]
  split
  · rfl
  · rw [create, askedClient]
    split
    · rw [getInstallationCallback]
      split <;> rfl
    · split
      · rw [getInstallationByIdCallback]
        split
        · split <;> rfl
        · rfl
      · rfl

/-- The buffer and the time are as before. -/
structure SameService (device after : Device) : Prop where
  buffer : after.buffer = device.buffer
  time : after.client.lastPushTime = device.client.lastPushTime

theorem SameService.refl (device : Device) : SameService device device := ⟨rfl, rfl⟩

theorem SameService.trans {device next after : Device} (first : SameService device next)
    (second : SameService next after) : SameService device after where
  buffer := second.buffer.trans first.buffer
  time := second.time.trans first.time

section Setup

variable {applicationId : CString} {device : Device} (keeps : Keeps applicationId device)

include keeps

theorem Keeps.setInstallationId {outside : Outside} (succeeds : outside.save = .success)
    (installationId : Option CString) :
    Keeps applicationId (device.setInstallationId outside installationId).1 ∧
      SameService device (device.setInstallationId outside installationId).1 := by
  have after := keeps.wellFormed.setInstallationId outside installationId
  rcases setInstallationId_saves outside device installationId with same | ⟨client, ids, saved⟩
  · rw [same]
    exact ⟨keeps, .refl device⟩
  · rw [saved, succeeds] at after ⊢
    exact ⟨keeps.save after rfl ids.applicationId, rfl, ids.lastPushTime⟩

theorem Keeps.setSessionToken {outside : Outside} (succeeds : outside.save = .success)
    (sessionToken : Option CString) :
    Keeps applicationId (device.setSessionToken outside sessionToken).1 ∧
      SameService device (device.setSessionToken outside sessionToken).1 := by
  have after := keeps.wellFormed.setSessionToken outside sessionToken
  rw [Device.setSessionToken] at after ⊢
  dsimp only at after ⊢
  split at after
  · split at after
    · rename_i same
      rw [if_pos same]
      exact ⟨keeps, .refl device⟩
    · rename_i token _ other
      rw [succeeds] at after
      rw [if_neg other, succeeds]
      have ids := getInstallation_onlyIds outside { device.client with
        sessionToken := strncpy device.client.sessionToken token SESSION_TOKEN_MAX_LEN }
      exact ⟨keeps.save after rfl ids.applicationId, rfl, ids.lastPushTime⟩
  · split at after
    · rename_i empty
      rw [if_pos empty]
      exact ⟨keeps, .refl device⟩
    · rename_i some
      rw [succeeds] at after
      rw [if_neg some, succeeds]
      exact ⟨keeps.save after rfl rfl, rfl, rfl⟩

/-- The request for the installation changes the ids only. -/
theorem Keeps.getInstallation (outside : Outside) :
    Keeps applicationId { device with client := (getInstallation outside device.client).1 } ∧
      SameService device
        { device with client := (Rtos.getInstallation outside device.client).1 } := by
  have ids := getInstallation_onlyIds outside device.client
  exact ⟨keeps.stay ⟨keeps.wellFormed.client.getInstallation outside, keeps.wellFormed.files⟩ rfl
      ids.applicationId (congrArg stringOf ids.lastPushTime),
    rfl, ids.lastPushTime⟩

/-- **A call that sets something up** keeps the time and leaves the push service alone. -/
theorem Keeps.setup {call : ApiCall} (isSetup : call.IsSetup) :
    Keeps applicationId (apiStep device call).1 ∧ SameService device (apiStep device call).1 := by
  cases call with
  | setInstallationId outside installationId =>
      exact keeps.setInstallationId isSetup installationId
  | setSessionToken outside sessionToken => exact keeps.setSessionToken isSetup sessionToken
  | sendRequest outside httpVerb httpPath httpRequestBody => exact keeps.getInstallation outside
  | parseInitialize _ _ _ | startPushService _ _ _ | stopPushService | setPushCallback _
  | processNextPushNotification _ _ _ _ _ => exact isSetup.elim

end Setup

theorem Keeps.setups {applicationId : CString} (calls : List ApiCall) : ∀ {device : Device},
    Keeps applicationId device → (∀ call ∈ calls, call.IsSetup) →
      Keeps applicationId (final apiStep device calls) ∧
        SameService device (final apiStep device calls) := by
  induction calls with
  | nil => exact fun {device} keeps _ => ⟨keeps, .refl device⟩
  | cons call calls ih =>
      intro device keeps areSetup
      obtain ⟨isSetup, areSetup⟩ := List.forall_mem_cons.mp areSetup
      obtain ⟨next, same⟩ := keeps.setup isSetup
      obtain ⟨last, others⟩ := ih next areSetup
      exact ⟨last, same.trans others⟩

theorem parseInitialize_keeps {flash : Flash} (written : FilesWritten flash)
    (applicationId clientKey : CString) (osVersion : Option (List Byte)) :
    Keeps applicationId (parseInitialize flash applicationId clientKey osVersion) where
  wellFormed := parseInitialize_wellFormed written applicationId clientKey osVersion
  application := congrArg CString.ofMemory (loadClientState_applicationId flash _)
  saved := congrArg stringOf (loadClientState_fresh flash (newClient_fresh applicationId _ none)
    (newClient_fresh applicationId clientKey osVersion) rfl).lastPushTime

/-- A device with a callback, an empty buffer, and this time. -/
structure Waits (applicationId : CString) (time : List Byte) (device : Device) : Prop where
  keeps : Keeps applicationId device
  used : device.buffer.used = 0
  callback : device.client.callback = true
  time : stringOf device.client.lastPushTime = time

theorem Start.device_waits (applicationId : CString) {flash : Flash}
    (written : FilesWritten flash) {start : Start} (areSetup : ∀ call ∈ start.calls, call.IsSetup) :
    Waits applicationId (savedTime applicationId flash) (start.device applicationId flash) := by
  have initial := parseInitialize_keeps written applicationId start.clientKey start.osVersion
  obtain ⟨keeps, buffer, time⟩ := Keeps.setups start.calls initial areSetup
  refine ⟨keeps.stay (apiStep_wellFormed keeps.wellFormed (.setPushCallback true)) rfl rfl rfl,
    congrArg PushBuffer.used buffer, rfl, ?_⟩
  exact (congrArg stringOf time).trans initial.saved.symm

/-- Starting the push service leaves all of it. -/
theorem Waits.start {applicationId : CString} {time : List Byte} {device : Device}
    (waits : Waits applicationId time device) (outside : Outside) (socketHandle send : Int) :
    Waits applicationId time (device.startPushService outside socketHandle send).1 := by
  obtain ⟨keeps, used, callback, isTime⟩ := waits
  have after := keeps.wellFormed.startPushService outside socketHandle send
  have ids := getInstallation_onlyIds outside device.client
  have called := getInstallation_callback outside device.client
  have isStarted : (device.startPushService outside socketHandle send).1 =
      let client := (getInstallation outside device.client).1
      let processed := parseStartPushService device.buffer client.internal
        ⟨client.internal.installationId, socketHandle, send⟩
      ⟨client.withInternal processed.2.client, device.flash, processed.1⟩ := rfl
  rw [isStarted] at after ⊢
  generalize (getInstallation outside device.client).1 = client at after ids called ⊢
  have kept := parseStartPushService_time device.buffer client.internal
    ⟨client.internal.installationId, socketHandle, send⟩
  have started : (parseStartPushService device.buffer client.internal
      ⟨client.internal.installationId, socketHandle, send⟩).1.used = device.buffer.used ∧
      (parseStartPushService device.buffer client.internal
        ⟨client.internal.installationId, socketHandle, send⟩).2.client.callback =
          client.callback := by
    rw [parseStartPushService]
    dsimp only
    split
    · split <;> exact ⟨rfl, rfl⟩
    · exact ⟨rfl, rfl⟩
  have same : stringOf (parseStartPushService device.buffer client.internal
      ⟨client.internal.installationId, socketHandle, send⟩).2.client.lastPushTime =
        stringOf device.client.lastPushTime := by
    rw [kept, ← ids.lastPushTime]
    rfl
  exact ⟨keeps.stay after rfl ids.applicationId same, started.1.trans used,
    started.2.trans (called.trans callback), same.trans isTime⟩

/-! ## The loop -/

section Round

variable {lines : List Push.Line} {todo : List Byte}
  (lineFeeds : ∀ line ∈ lines, line.ending = .lineFeed)

include lineFeeds

/-- The message that a call looks into is one of the lines. -/
theorem pushMessage_line {buffer : PushDataBuffer} {call : Call}
    (onStream : OnStream buffer
      ((parseProcessNextPushNotification buffer call).2.received ++ todo) lines)
    {message : CString} (found : pushMessage buffer call = some message) :
    ∃ line : Push.Line, message = line.object.string := by
  rw [pushMessage] at found
  split at found
  swap
  · cases found
  rename_i isOpen
  obtain ⟨loop, isLoop, collected, deaf, length | ⟨m, complete, length, index⟩⟩ :=
    receiveLoop_cases onStream.bounded isOpen
  · rw [isLoop] at found
    dsimp only at found
    have short : ¬ loop.length > 0 := by omega
    rw [if_neg collected.not_full] at found
    split at found
    · rw [if_neg short] at found
      cases found
    · cases found
  · have two := (isIn_of_completeMessage complete).two_le
    have long : loop.length > 0 := by omega
    rw [parseProcessNextPushNotification, if_pos isOpen, isLoop,
      processReceived_message collected long index] at onStream
    rw [isLoop] at found
    dsimp only at found
    rw [if_neg collected.not_full, index] at found
    dsimp only at found
    rw [if_pos long] at found
    obtain ⟨line, rest, -, -, text, -⟩ :=
      (onStream.collected collected deaf).message call.client lineFeeds complete length
    exact ⟨line, (Option.some.inj found).symm.trans text⟩

end Round

theorem processNext_buffer (device : Device) (stray : Stray) (reads : List (List SocketRound))
    (isPingTime : Bool) (send : Int) (save : Course) :
    (device.processNextPushNotification stray reads isPingTime send save).buffer =
      (parseProcessNextPushNotification device.buffer
        ⟨device.client.internal, reads, isPingTime, send⟩).1 := by
  rw [Device.processNextPushNotification]
  dsimp only
  split
  · split <;> rfl
  · rfl

/-- A call that sees the state saved has taken a line with a time. -/
theorem mem_notices_save {outs : List Outcome} {client : ParseClientInternal}
    {done : List Push.Line}
    (seen : notices outs = done.flatMap noticesOf ++ lastNotice client) :
    Event.saveClientState ∈ notices outs ↔ ∃ line ∈ done, (storedTime line).isSome := by
  have notLast : Event.saveClientState ∉ lastNotice client := by
    rw [lastNotice]
    split <;> simp
  rw [seen, List.mem_append, or_iff_left notLast, List.mem_flatMap]
  refine exists_congr fun line => and_congr_right fun _ => ?_
  rw [noticesOf, List.mem_append]
  constructor
  · rintro (member | member)
    · split at member
      · assumption
      · cases member
    · split at member <;> simp at member
  · intro some
    rw [if_pos some]
    exact .inl (List.mem_singleton_self _)

/-- **One round of the loop on the device** takes nothing, or the first line, and a time that it
takes is saved. -/
theorem Keeps.round {applicationId : CString} {device : Device} (keeps : Keeps applicationId device)
    {lines : List Push.Line} {todo : List Byte} (callback : device.client.callback = true)
    (running : device.client.socketHandle ≠ -1)
    (lineFeeds : ∀ line ∈ lines, line.ending = .lineFeed) (stray : Stray) (round : LoopRound)
    (onStream : OnStream device.buffer ((parseProcessNextPushNotification device.buffer
      ⟨device.client.internal, round.reads, round.isPingTime, round.send⟩).2.received ++ todo)
        lines) :
    Keeps applicationId (device.processNextPushNotification stray round.reads round.isPingTime
        round.send .success) ∧
      ∃ done left, lines = done ++ left ∧ Takes ⟨device.client.internal, device.buffer⟩
        [(parseProcessNextPushNotification device.buffer
          ⟨device.client.internal, round.reads, round.isPingTime, round.send⟩).2]
        ⟨(device.processNextPushNotification stray round.reads round.isPingTime round.send
            .success).client.internal,
          (device.processNextPushNotification stray round.reads round.isPingTime round.send
            .success).buffer⟩ todo done left := by
  have after := keeps.wellFormed.processNextPushNotification stray round.reads round.isPingTime
    round.send .success
  have looked : ∀ message, pushMessage device.buffer
      ⟨device.client.internal, round.reads, round.isPingTime, round.send⟩ = some message →
      ∃ lookup, simpleJsonProcessor message (CString.literal "time")
        (some device.client.lastPushTime) PUSH_TIME_MAX_LEN = .ok lookup := by
    intro message found
    obtain ⟨line, rfl⟩ := pushMessage_line lineFeeds onStream found
    exact ⟨_, lookup_time line device.client.lastPushTime PUSH_TIME_MAX_LEN⟩
  obtain ⟨client, flash⟩ := processNext_internal device stray round.reads round.isPingTime
    round.send .success looked
  have buffer := processNext_buffer device stray round.reads round.isPingTime round.send .success
  generalize device.processNextPushNotification stray round.reads round.isPingTime round.send
    .success = next at after client flash buffer ⊢
  obtain ⟨done, left, isSplit, takes⟩ : ∃ done left, lines = done ++ left ∧
      Takes ⟨device.client.internal, device.buffer⟩
        [(parseProcessNextPushNotification device.buffer
          ⟨device.client.internal, round.reads, round.isPingTime, round.send⟩).2]
        ⟨(parseProcessNextPushNotification device.buffer
            ⟨device.client.internal, round.reads, round.isPingTime, round.send⟩).2.client,
          (parseProcessNextPushNotification device.buffer
            ⟨device.client.internal, round.reads, round.isPingTime, round.send⟩).1⟩
        todo done left := by
    by_cases isOpen : device.client.socketHandle > 0
    · exact round_takes ⟨device.client.internal, round.reads, round.isPingTime, round.send⟩
        callback isOpen lineFeeds onStream
    · have closed : ¬ device.client.internal.socketHandle > 0 := isOpen
      rw [parseProcessNextPushNotification, if_neg closed] at onStream ⊢
      exact ⟨[], lines, rfl, onStream, (if_neg running).symm, rfl, rfl, .inr rfl⟩
  generalize parseProcessNextPushNotification device.buffer
    ⟨device.client.internal, round.reads, round.isPingTime, round.send⟩ = processed at *
  refine ⟨?_, done, left, isSplit, ?_⟩
  · have same : next.client.applicationId = device.client.applicationId := by
      rw [client]
      rfl
    split at flash
    · exact keeps.save after flash same
    · rename_i unsaved
      refine keeps.stay after flash same ?_
      -- without a save no line with a time has been taken
      have noTime : done.filterMap (lineTime 39) = [] := by
        refine List.filterMap_eq_nil_iff.mpr fun line member => ?_
        have notSome : ¬ (storedTime line).isSome := by
          intro some
          have saves := (mem_notices_save takes.seen).mpr ⟨line, member, some⟩
          rw [notices, List.flatMap_singleton] at saves
          exact unsaved (List.mem_filter.mp saves).1
        rw [lineTime, Option.not_isSome_iff_eq_none.mp notSome]
        rfl
      have time := takes.time
      rw [noTime] at time
      rw [client]
      exact time
  · rw [client, buffer]
    exact ⟨takes.onStream, takes.seen, takes.time, takes.callback, takes.socket⟩

theorem Device.runPushLoop_ended (stray : Stray) {device : Device}
    (ended : device.client.socketHandle = -1) (rounds : List LoopRound) :
    device.runPushLoop stray rounds = (device, []) := by
  cases rounds with
  | nil => rfl
  | cons round rounds => rw [runPushLoop, if_neg (not_not.mpr ended)]

theorem Keeps.takes {applicationId : CString} (stray : Stray) (rounds : List LoopRound) :
    ∀ {device : Device} {lines : List Push.Line} {todo : List Byte}, Keeps applicationId device →
      device.client.callback = true → device.client.socketHandle ≠ -1 →
      (∀ line ∈ lines, line.ending = .lineFeed) →
      OnStream device.buffer (receivedIn (device.runPushLoop stray rounds).2 ++ todo) lines →
        Keeps applicationId (device.runPushLoop stray rounds).1 ∧
          ∃ done left, lines = done ++ left ∧ Takes ⟨device.client.internal, device.buffer⟩
            (device.runPushLoop stray rounds).2
            ⟨(device.runPushLoop stray rounds).1.client.internal,
              (device.runPushLoop stray rounds).1.buffer⟩ todo done left := by
  induction rounds with
  | nil =>
      intro device lines todo keeps _ running _ onStream
      exact ⟨keeps, [], lines, rfl, .nothing running onStream⟩
  | cons round rounds ih =>
      intro device lines todo keeps callback running lineFeeds onStream
      rw [Device.runPushLoop, if_pos running] at onStream ⊢
      dsimp only [receivedIn] at onStream ⊢
      rw [List.flatMap_cons, List.append_assoc, ← receivedIn] at onStream
      obtain ⟨keeps, done, left, rfl, first⟩ :=
        keeps.round callback running lineFeeds stray round onStream
      generalize device.processNextPushNotification stray round.reads round.isPingTime round.send
        .success = next at *
      by_cases ended : next.client.socketHandle = -1
      · -- the round has given the service up
        rw [Device.runPushLoop_ended stray ended] at first ⊢
        exact ⟨keeps, done, left, rfl, first⟩
      · obtain ⟨keeps, done', left', rfl, second⟩ := ih keeps (first.callback.trans callback) ended
          (fun line member => lineFeeds line (List.mem_append_right _ member)) first.onStream
        exact ⟨keeps, done ++ done', left', (List.append_assoc ..).symm, first.append ended second⟩

/-- What the callback has been told without an error. -/
def deliveredIn (outs : List Outcome) : List (List Byte) := outs.flatMap Outcome.delivered

theorem deliveredIn_eq (outs : List Outcome) :
    deliveredIn outs = (notices outs).filterMap Event.delivered := by
  rw [deliveredIn, notices, List.filterMap_flatMap]
  refine List.flatMap_congr fun out _ => ?_
  rw [Outcome.delivered, List.filterMap_filter]
  refine List.filterMap_congr fun event _ => ?_
  cases event <;> rfl

theorem delivered_lines (done : List Push.Line) :
    (done.flatMap noticesOf).filterMap Event.delivered =
      withoutBeats (done.map fun line => line.object.text) := by
  have one : ∀ line, (noticesOf line).filterMap Event.delivered =
      withoutBeats [line.object.text] := by
    intro line
    have saves : (if (storedTime line).isSome then [Event.saveClientState] else []).filterMap
        Event.delivered = [] := by
      split <;> rfl
    rw [noticesOf, List.filterMap_append, saves, withoutBeats, List.filter_singleton]
    cases isBeat line.object.text <;> rfl
  induction done with
  | nil => rfl
  | cons line done ih =>
      rw [List.flatMap_cons, List.filterMap_append, one, ih, ← withoutBeats_append]
      rfl

/-- The loop of a start: what is still to come behind the lines that are taken, what the callback
hears of these, and the time that is left. -/
theorem Waits.loop {applicationId : CString} {time : List Byte} {device : Device}
    (waits : Waits applicationId time device) (stray : Stray) (rounds : List LoopRound)
    {lines : List Push.Line} {todo : List Byte}
    (lineFeeds : ∀ line ∈ lines, line.ending = .lineFeed)
    (stream : receivedIn (device.runPushLoop stray rounds).2 ++ todo = streamText lines) :
    Keeps applicationId (device.runPushLoop stray rounds).1 ∧
      ∃ done left, lines = done ++ left ∧
        messages ((device.runPushLoop stray rounds).1.buffer.unread ++ todo) =
          left.map (fun line => line.object.text) ∧
        deliveredIn (device.runPushLoop stray rounds).2 =
          withoutBeats (done.map fun line => line.object.text) ∧
        stringOf (device.runPushLoop stray rounds).1.client.lastPushTime =
          ((done.filterMap (lineTime 39)).getLast?).getD time := by
  obtain ⟨keeps, used, callback, isTime⟩ := waits
  have empty : device.buffer.unread = [] := by
    rw [PushBuffer.unread, used]
    exact List.take_zero
  by_cases ended : device.client.socketHandle = -1
  · rw [Device.runPushLoop_ended stray ended] at stream ⊢
    refine ⟨keeps, [], lines, rfl, ?_, rfl, isTime⟩
    rw [empty]
    exact (congrArg messages stream).trans (messages_stream Separator.none lines)
  · have onStream : OnStream device.buffer
        (receivedIn (device.runPushLoop stray rounds).2 ++ todo) lines := by
      refine ⟨⟨by omega, by omega⟩, Separator.none, ?_, fun _ => rfl⟩
      rw [empty]
      exact stream
    obtain ⟨keeps, done, left, isSplit, takes⟩ :=
      Keeps.takes stray rounds keeps callback ended lineFeeds onStream
    refine ⟨keeps, done, left, isSplit, ?_, ?_, ?_⟩
    · obtain ⟨lead, text, -⟩ := takes.onStream.stream
      exact (congrArg messages text).trans (messages_stream lead left)
    · have none : (lastNotice (device.runPushLoop stray rounds).1.client.internal).filterMap
          Event.delivered = [] := by
        rw [lastNotice]
        split <;> rfl
      rw [deliveredIn_eq, takes.seen, List.filterMap_append, none, List.append_nil,
        delivered_lines]
    · rw [← isTime]
      exact takes.time

/-! ## The handshake -/

/-- The handshake with these strings. -/
def handshakeText (id applicationId : List Byte) (last : Option (List Byte)) : List Byte :=
  ascii "\x7b\"installation_id\":\"" ++ id ++ ascii "\", \"oauth_key\":\"" ++ applicationId ++
    ascii "\", \"v\": \"e1.0.0\", \"last\": " ++
    last.elim (ascii "null") (fun time => ascii "\"" ++ time ++ ascii "\"") ++ ascii "\x7d\r\n"

/-- The end of a handshake, between its last colon and its brace. -/
def lastText (time : List Byte) : List Byte :=
  (namedTime time).elim (ascii "null") fun time => ascii "\"" ++ time ++ ascii "\""

theorem lastText_eq (time : List Byte) :
    (if time.length > 0 then ascii "\"" else []) ++
      (if time.length > 0 then time else ascii "null") ++
        (if time.length > 0 then ascii "\"" else []) = lastText time := by
  cases time with
  | nil => rfl
  | cons c time =>
      have some : (c :: time).length > 0 := Nat.succ_pos _
      rw [if_pos some, if_pos some, lastText, namedTime, if_neg (List.cons_ne_nil _ _)]
      rfl

/-- **The handshake of a client has room for all of its strings.** -/
theorem handshake_eq {client : Client} (wellFormed : client.WellFormed) :
    handshake client.internal = handshakeText (stringOf client.installationId)
      (stringOf client.applicationId) (namedTime (stringOf client.lastPushTime)) := by
  have id : (stringOf client.installationId).length ≤ 36 :=
    wellFormed.installationId.holdsString.string_length
  have application : (stringOf client.applicationId).length ≤ 40 :=
    wellFormed.applicationId.holdsString.string_length
  have time : (stringOf client.lastPushTime).length ≤ 40 :=
    wellFormed.lastPushTime.holdsString.string_length
  have texts : (ascii "\x7b\"installation_id\":\"").length ≤ 30 ∧
      (ascii "\", \"oauth_key\":\"").length ≤ 30 ∧
      (ascii "\", \"v\": \"e1.0.0\", \"last\": ").length ≤ 30 ∧
      (ascii "\x7d\r\n").length ≤ 30 ∧ (ascii "null").length ≤ 30 ∧
      (ascii "\"").length ≤ 30 := by
    decide
  have last : (lastText (stringOf client.lastPushTime)).length ≤ 100 := by
    rw [lastText, namedTime]
    split
    · exact Nat.le_trans texts.2.2.2.2.1 (by decide)
    · simp only [Option.elim, List.length_append]
      omega
  rw [handshake, lastText_eq, snprintf, List.take_of_length_le]
  · rfl
  · change (_ ++ stringOf client.installationId ++ _ ++ stringOf client.applicationId ++ _ ++
      lastText (stringOf client.lastPushTime) ++ _ : List Byte).length ≤ _
    simp only [List.length_append]
    omega

/-! ## The log of the server -/

/-- On the connection of a start the server sends what its log has behind the time in the
handshake. -/
def Answered (log : List Push.Line) (t : Runs.Transition Flash Start Report) : Prop :=
  ∃ lines todo, Serves log (namedTime (stringOf t.output.client.lastPushTime))
    (receivedIn t.output.outs) lines todo

/-- On the connection of a start all of that has arrived, and the loop leaves no message in the
buffer. -/
def AnsweredWhole (log : List Push.Line) (t : Runs.Transition Flash Start Report) : Prop :=
  ∃ lines, Serves log (namedTime (stringOf t.output.client.lastPushTime))
    (receivedIn t.output.outs) lines [] ∧ messages t.output.buffer.unread = []

/-- The messages with a time that the callback hears in a start. -/
def messagesHeard (t : Runs.Transition Flash Start Report) : List (List Byte) :=
  timedTexts (deliveredIn t.output.outs)

/-- The time that the next start names. -/
def nextTime (applicationId : CString) (flash : Flash) : Option (List Byte) :=
  namedTime (savedTime applicationId flash)

/-- The push service is started with the saved time. -/
theorem startStep_time (applicationId : CString) {flash : Flash} (written : FilesWritten flash)
    {start : Start} (areSetup : ∀ call ∈ start.calls, call.IsSetup) :
    stringOf (startStep applicationId flash start).2.client.lastPushTime =
      savedTime applicationId flash := by
  rw [← (Start.device_waits applicationId written areSetup).time,
    ← (getInstallation_onlyIds start.outside _).lastPushTime]
  rfl

section StartStep

variable {applicationId : CString} {log : List Push.Line} {flash : Flash}
  (written : FilesWritten flash) {start : Start} (areSetup : ∀ call ∈ start.calls, call.IsSetup)

include written areSetup

/-- **One start of the device** hears the first lines with a time of its connection. Those behind
them are still to come, or in the buffer. -/
theorem startStep_takes {lines : List Push.Line} {todo : List Byte}
    (serves : Serves log
      (namedTime (stringOf (startStep applicationId flash start).2.client.lastPushTime))
      (receivedIn (startStep applicationId flash start).2.outs) lines todo) :
    FilesWritten (startStep applicationId flash start).1 ∧
      ∃ done left, Serves log (nextTime applicationId flash)
          (receivedIn (startStep applicationId flash start).2.outs) (done ++ left) todo ∧
        messages ((startStep applicationId flash start).2.buffer.unread ++ todo) =
          left.map (fun line => line.object.text) ∧
        messagesHeard (fire (startStep applicationId) flash start) =
          (done.filter hasTime).map (fun line => line.object.text) ∧
        savedTime applicationId (startStep applicationId flash start).1 =
          ((done.filterMap (lineTime 39)).getLast?).getD (savedTime applicationId flash) := by
  have started := (Start.device_waits applicationId written areSetup).start start.outside
    start.socketHandle start.send
  obtain ⟨keeps, done, left, rfl, toCome, told, time⟩ :=
    started.loop start.stray start.rounds serves.lineFeeds serves.stream
  rw [startStep_time applicationId written areSetup] at serves
  refine ⟨keeps.wellFormed.files, done, left, serves, toCome, ?_, keeps.saved.trans time⟩
  rw [← timedTexts_lines, ← told]
  rfl

/-- It continues the log. -/
theorem startStep_continues (isLog : IsLog 39 log)
    (answered : Answered log (fire (startStep applicationId) flash start)) :
    FilesWritten (startStep applicationId flash start).1 ∧
      Continues logTime (nextTime applicationId) messagesHeard (fun line => line.object.text) log
        (fire (startStep applicationId) flash start) := by
  obtain ⟨lines, todo, serves⟩ := answered
  obtain ⟨files, done, left, serves, -, heard, saved⟩ := startStep_takes written areSetup serves
  refine ⟨files, done.filter hasTime, serves.isPart, heard, ?_⟩
  refine (congrArg namedTime saved).trans ?_
  rw [namedTime_getD fun time member => serves.times_ne_nil isLog member, serves.times isLog]
  rfl

/-- When nothing is left of the connection, it hears all that the log has behind the time. -/
theorem startStep_hearsAll
    (answered : AnsweredWhole log (fire (startStep applicationId) flash start)) :
    messagesHeard (fire (startStep applicationId) flash start) =
      (behind logTime log (nextTime applicationId flash)).map fun line => line.object.text := by
  obtain ⟨lines, serves, nothing⟩ := answered
  obtain ⟨-, done, left, serves, toCome, heard, -⟩ := startStep_takes written areSetup serves
  have taken : left = [] := by
    rw [List.append_nil] at toCome
    exact List.map_eq_nil_iff.mp (toCome.symm.trans nothing)
  rw [heard, serves.isAll taken]

/-- On a connection the handshake comes first. -/
theorem startStep_opening (isOpen : 0 ≤ start.socketHandle) :
    ∃ id, (startStep applicationId flash start).2.opening.head? =
      some (.socketWrite start.socketHandle (handshakeText id
        (stringOf (strncpy (zeros APPLICATION_ID_MAX_LEN) applicationId APPLICATION_ID_MAX_LEN))
        (namedTime (savedTime applicationId flash)))) := by
  have waits := Start.device_waits applicationId written areSetup
  have time := startStep_time applicationId written areSetup
  have ids := getInstallation_onlyIds start.outside (start.device applicationId flash).client
  have application : stringOf (getInstallation start.outside
      (start.device applicationId flash).client).1.applicationId =
        stringOf (strncpy (zeros APPLICATION_ID_MAX_LEN) applicationId APPLICATION_ID_MAX_LEN) := by
    rw [ids.applicationId]
    exact congrArg CString.bytes waits.keeps.application
  have text := handshake_eq (waits.keeps.wellFormed.client.getInstallation start.outside)
  refine ⟨stringOf (getInstallation start.outside
    (start.device applicationId flash).client).1.installationId, ?_⟩
  rw [← time, ← application]
  refine Eq.trans ?_ (congrArg (fun text => some (Event.socketWrite start.socketHandle text)) text)
  rw [startStep, parseStartPushService, if_pos isOpen]
  dsimp only
  split <;> rfl

end StartStep

/-- **Notifications through restarts.** A device without a saved time is started again and again,
and its power goes at any time between two rounds of the loop; what it saves is saved well. On every
connection, whatever the connection does, the server sends what its log has behind the time in the
handshake, and anything without a time between. Then the callback hears, all starts together, the
messages of the log from its first one on, each once and in their order. The handshake of the next
start names the time of the last one that has been heard; and when all that the server then sends
arrives and none of it stays in the buffer, the whole log has been heard. -/
theorem push_log_continues (applicationId : CString) (log : List Push.Line) (flash : Flash)
    (starts : List Start) (isLog : IsLog 39 log) (written : FilesWritten flash)
    (new : savedTime applicationId flash = [])
    (areSetup : ∀ start ∈ starts, ∀ call ∈ start.calls, call.IsSetup)
    (answered : ∀ t ∈ run (startStep applicationId) flash starts, Answered log t) :
    ∃ heard, heard <+: log ∧
      (run (startStep applicationId) flash starts).flatMap messagesHeard =
        heard.map (fun line => line.object.text) ∧
      (∀ next : Start, (∀ call ∈ next.calls, call.IsSetup) → 0 ≤ next.socketHandle →
        ∃ id, (startStep applicationId (final (startStep applicationId) flash starts)
            next).2.opening.head? =
          some (.socketWrite next.socketHandle (handshakeText id
            (stringOf (strncpy (zeros APPLICATION_ID_MAX_LEN) applicationId APPLICATION_ID_MAX_LEN))
            ((heard.map logTime).getLast?)))) ∧
      ∀ next : Start, (∀ call ∈ next.calls, call.IsSetup) →
        AnsweredWhole log (fire (startStep applicationId)
          (final (startStep applicationId) flash starts) next) →
        heard.map (fun line => line.object.text) ++
          messagesHeard (fire (startStep applicationId)
            (final (startStep applicationId) flash starts) next) =
              log.map (fun line => line.object.text) := by
  obtain ⟨files, heard, isPrefix, shown, last⟩ := run_continues logTime (nextTime applicationId)
    messagesHeard (fun line => line.object.text) log isLog.distinct FilesWritten
    (fun t => (∀ call ∈ t.input.calls, call.IsSetup) ∧ Answered log t)
    (fun _ _ written met => startStep_continues written met.1 isLog met.2) starts written
    List.nil_prefix (if_pos new)
    fun t member => ⟨areSetup _ (input_mem_of_mem _ member), answered t member⟩
  rw [List.nil_append] at isPrefix last
  refine ⟨heard, isPrefix, shown, fun next areSetup isOpen => ?_, fun next areSetup whole => ?_⟩
  · obtain ⟨id, opening⟩ := startStep_opening files areSetup isOpen
    rw [← nextTime, last, lastTaken, Option.or_none] at opening
    exact ⟨id, opening⟩
  · rw [startStep_hearsAll files areSetup whole, last, ← List.map_append,
      append_behind logTime isLog.distinct isPrefix]

section Example

/-- A message with this time. -/
def timedLine (time : StringBody) : Push.Line :=
  ⟨.of (.last [] (.plain "time") [] [] (.string time) []), .lineFeed⟩

def twoMessages : List Push.Line := [timedLine (.plain "1"), timedLine (.plain "2")]

/-- A start on whose connection these bytes arrive before the power goes. -/
def hearing (bytes : List Byte) : Start where
  clientKey := CString.literal "k"
  osVersion := none
  calls := []
  outside := meeting unanswered unanswered
  socketHandle := 1
  send := 1
  stray := noStray
  rounds := [⟨[[⟨1, 0, .bytes bytes⟩]], false, 1⟩]

/-- The power goes between the two messages. -/
def twoStarts : List Start :=
  [hearing (streamText [timedLine (.plain "1")]), hearing (streamText [timedLine (.plain "2")])]

theorem twoMessages_isLog : IsLog 39 twoMessages := ⟨by decide +kernel, by decide +kernel⟩

theorem twoStarts_answered :
    ∀ t ∈ run (startStep (CString.literal "a")) (fun _ => none) twoStarts,
      Answered twoMessages t := by
  have timed : ∀ line ∈ twoMessages, hasTime line = true := by decide +kernel
  rw [twoStarts, run_cons, run_cons, run_nil, List.forall_mem_cons, List.forall_mem_singleton]
  constructor
  · refine ⟨twoMessages, streamText [timedLine (.plain "2")], by decide +kernel, by decide, ?_⟩
    have first : namedTime (stringOf (fire (startStep (CString.literal "a")) (fun _ => none)
        (hearing (streamText [timedLine (.plain "1")]))).output.client.lastPushTime) = none := by
      decide +kernel
    rw [first, List.filter_eq_self.mpr timed]
    rfl
  · refine ⟨[timedLine (.plain "2")], [], by decide +kernel, by decide, ?_⟩
    have second : namedTime (stringOf (fire (startStep (CString.literal "a"))
        (startStep (CString.literal "a") (fun _ => none)
          (hearing (streamText [timedLine (.plain "1")]))).1
        (hearing (streamText [timedLine (.plain "2")]))).output.client.lastPushTime) =
          lastTaken logTime none [timedLine (.plain "1")] := by
      decide +kernel
    rw [second,
      List.filter_eq_self.mpr fun line member => timed line (List.mem_cons_of_mem _ member)]
    have rest : behind logTime ([timedLine (.plain "1")] ++ [timedLine (.plain "2")])
        (lastTaken logTime none [timedLine (.plain "1")]) = [timedLine (.plain "2")] :=
      behind_append logTime twoMessages_isLog.distinct
    exact rest.symm

theorem push_log_continues_twice :
    ∃ heard, heard <+: twoMessages ∧
      (run (startStep (CString.literal "a")) (fun _ => none) twoStarts).flatMap messagesHeard =
        heard.map (fun line => line.object.text) ∧
      (∀ next : Start, (∀ call ∈ next.calls, call.IsSetup) → 0 ≤ next.socketHandle →
        ∃ id, (startStep (CString.literal "a")
            (final (startStep (CString.literal "a")) (fun _ => none) twoStarts)
            next).2.opening.head? =
          some (.socketWrite next.socketHandle (handshakeText id
            (stringOf (strncpy (zeros APPLICATION_ID_MAX_LEN) (CString.literal "a")
              APPLICATION_ID_MAX_LEN))
            ((heard.map logTime).getLast?)))) ∧
      ∀ next : Start, (∀ call ∈ next.calls, call.IsSetup) →
        AnsweredWhole twoMessages (fire (startStep (CString.literal "a"))
          (final (startStep (CString.literal "a")) (fun _ => none) twoStarts) next) →
        heard.map (fun line => line.object.text) ++
          messagesHeard (fire (startStep (CString.literal "a"))
            (final (startStep (CString.literal "a")) (fun _ => none) twoStarts) next) =
              twoMessages.map (fun line => line.object.text) :=
  push_log_continues (CString.literal "a") twoMessages (fun _ => none) twoStarts twoMessages_isLog
    noFiles_written (by decide +kernel)
    (List.forall_mem_cons.mpr ⟨fun _ member => absurd member List.not_mem_nil,
      List.forall_mem_singleton.mpr fun _ member => absurd member List.not_mem_nil⟩)
    twoStarts_answered

end Example

end ParseEmbedded.Rtos
