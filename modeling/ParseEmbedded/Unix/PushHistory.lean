import ParseEmbedded.Push.Log
import ParseEmbedded.Unix.Durability
import ParseEmbedded.Unix.Listening
import ParseEmbedded.Unix.Resume

/-!
# Notifications through restarts on Unix

A program initializes its client, sets its installation and session up, starts the push service and
processes its messages, until it ends. Of all of this only the files of the key store stay. Each
message with a time leaves its time there, and the handshake of the next process asks the server to
go on behind it.

`push_log_survives` says what comes of it if the server does: all processes together, the callback
has heard the messages of the log of the server one after the other, none is left out and none comes
twice; and a process that takes all that is sent to it has heard the last.
-/

set_option autoImplicit false

namespace ParseEmbedded.Unix

open Json SimpleJson Push Runs Resuming

/-! ## A process -/

/-- What a process meets: what `parseInitialize` does, the calls in front of the push service, what
its start meets, and what the connection answers until the process ends. -/
structure Life where
  start : Start
  calls : List ApiCall
  outside : Outside
  inputs : ProcessInputs

/-- What a process shows: the client with which the push service is started, what that does, what
the calls of `parseProcessNextPushNotification` do, and the receive buffer that they leave. -/
structure Report where
  client : ParseClientInternal
  opening : List Event
  outs : List Processed
  buffer : ReceiveBuffer

namespace Process

variable (word : WordSize) (homedir : List Byte)

/-- `parseSetPushCallback` -/
def setPushCallback (p : Process) (callback : Bool) : Process :=
  { p with client :=
      { p.client with
        toParseClientInternal := parseSetPushCallback p.client.toParseClientInternal callback } }

/-- What `parseStartPushService` returns and does. -/
def starting (p : Process) (outside : Outside) : Started :=
  match p.client.pushCurlHandle, p.client.installationId with
  | none, none =>
      let (_, storedId) := loadInstallationId homedir p.store p.client.applicationId
      parseStartPushService p.client.toParseClientInternal { outside.around with storedId }
  | _, _ => parseStartPushService p.client.toParseClientInternal outside.around

/-- Calls of `parseProcessNextPushNotification`. -/
def processAll : Process → ReceiveBuffer → ProcessInputs → Device × List Processed
  | p, buffer, [] => (⟨p, buffer⟩, [])
  | p, buffer, input :: inputs =>
      let out := (parseProcessNextPushNotification word buffer
        ⟨p.client.toParseClientInternal, input.1, input.2⟩).2
      let (p, buffer) := p.processNextPushNotification word homedir buffer input.1 input.2
      let rest := processAll p buffer inputs
      (rest.1, out :: rest.2)

end Process

section Life

variable (word : WordSize) (homedir : List Byte) (applicationId : CString)

/-- The process in front of the push service, with its receive buffer. -/
def Life.device (files : Files) (life : Life) : Device :=
  let device := final (apiStep word homedir applicationId)
    (.started word homedir applicationId files life.start) life.calls
  { device with process := device.process.setPushCallback true }

/-- The push service of a process. -/
def runService (device : Device) (outside : Outside) (inputs : ProcessInputs) : Process × Report :=
  let started := device.process.starting homedir outside
  let p := device.process.startPushService word homedir outside
  let (device, outs) := p.processAll word homedir device.buffer inputs
  (device.process, ⟨started.client, started.events, outs, device.buffer⟩)

/-- A process, from the files that it finds to those that it leaves. -/
def lifeStep (files : Files) (life : Life) : Files × Report :=
  let (p, report) := runService word homedir (life.device word homedir applicationId files)
    life.outside life.inputs
  (p.store.files, report)

end Life

/-- A call that sets the installation or the session, or sends a request. -/
def ApiCall.IsSetup : ApiCall → Prop
  | .setInstallationId _ _ => True
  | .setSessionToken _ _ => True
  | .sendRequest _ _ _ _ => True
  | _ => False

/-! ## What the calls leave alone -/

/-- The client behind has another identifier at most. -/
def OnlyId (before after : ParseClientInternal) : Prop :=
  ∃ id, after = { before with installationId := id }

theorem OnlyId.refl (client : ParseClientInternal) : OnlyId client client :=
  ⟨client.installationId, rfl⟩

theorem OnlyId.trans {client next after : ParseClientInternal} (first : OnlyId client next)
    (second : OnlyId next after) : OnlyId client after := by
  obtain ⟨id, rfl⟩ := first
  obtain ⟨id', rfl⟩ := second
  exact ⟨id', rfl⟩

section OnlyId

variable (word : WordSize) (homedir : List Byte) (p : Process)

theorem setInstallationId_onlyId (id : Option CString) (curl : Libcurl) :
    OnlyId p.client.toParseClientInternal
      (p.setInstallationId word homedir id curl).client.toParseClientInternal := by
  cases id with
  | none => exact ⟨none, rfl⟩
  | some id =>
      exact ⟨some id, (p.register_eq word homedir _ _ curl).1⟩

theorem parseCreateInstallationIdIfNeeded_onlyId (client : ParseClientInternal)
    (around : Surroundings) :
    OnlyId client (parseCreateInstallationIdIfNeeded client around).1 := by
  rw [parseCreateInstallationIdIfNeeded]
  split
  · exact .refl client
  · exact ⟨_, rfl⟩

theorem createInstallationIdIfNeeded_onlyId (outside : Outside) :
    OnlyId p.client.toParseClientInternal
      (p.createInstallationIdIfNeeded word homedir outside).client.toParseClientInternal := by
  rw [Process.createInstallationIdIfNeeded]
  split
  · exact .refl _
  · dsimp only
    rw [(Process.register_eq ..).1]
    exact parseCreateInstallationIdIfNeeded_onlyId ..

theorem getSessionObjectCallback_onlyId (outside : Outside) (call : RequestCall) :
    OnlyId p.client.toParseClientInternal
      (p.getSessionObjectCallback word homedir outside call).client.toParseClientInternal := by
  rw [Process.getSessionObjectCallback]
  split
  · split
    · split
      · exact createInstallationIdIfNeeded_onlyId word homedir p outside
      · exact .refl _
    · exact .refl _
  · exact .refl _

theorem getSessionObjectCallbacks_onlyId (outside : Outside) (calls : List RequestCall) :
    ∀ p : Process, OnlyId p.client.toParseClientInternal
      (calls.foldl (fun p call => p.getSessionObjectCallback word homedir outside call)
        p).client.toParseClientInternal := by
  induction calls with
  | nil => exact fun p => .refl _
  | cons call calls ih =>
      exact fun p => (getSessionObjectCallback_onlyId word homedir p outside call).trans (ih _)

theorem setSessionToken_onlyId (token : Option CString) (outside : Outside) :
    OnlyId p.client.toParseClientInternal
      (p.setSessionToken word homedir token outside).client.toParseClientInternal := by
  cases token with
  | none => exact .refl _
  | some token =>
      refine (createInstallationIdIfNeeded_onlyId word homedir p outside).trans ?_
      refine OnlyId.trans ?_ (getSessionObjectCallbacks_onlyId word homedir outside _ _)
      exact createInstallationIdIfNeeded_onlyId word homedir ⟨_, _⟩ outside

end OnlyId

/-- **A call that sets something up** leaves the push service alone. -/
theorem setup_onlyId (word : WordSize) (homedir : List Byte) (applicationId : CString)
    (device : Device) {call : ApiCall} (isSetup : call.IsSetup) :
    OnlyId device.process.client.toParseClientInternal
        (apiStep word homedir applicationId device call).1.process.client.toParseClientInternal ∧
      (apiStep word homedir applicationId device call).1.buffer = device.buffer := by
  cases call with
  | setInstallationId id curl => exact ⟨setInstallationId_onlyId .., rfl⟩
  | setSessionToken token outside => exact ⟨setSessionToken_onlyId .., rfl⟩
  | sendRequest verb path body outside => exact ⟨createInstallationIdIfNeeded_onlyId .., rfl⟩
  | restart _ | startPushService _ | stopPushService | processNextPushNotification _ _ =>
      exact isSetup.elim

theorem setups_onlyId (word : WordSize) (homedir : List Byte) (applicationId : CString)
    (calls : List ApiCall) : ∀ device : Device, (∀ call ∈ calls, call.IsSetup) →
      OnlyId device.process.client.toParseClientInternal
          (final (apiStep word homedir applicationId) device
            calls).process.client.toParseClientInternal ∧
        (final (apiStep word homedir applicationId) device calls).buffer = device.buffer := by
  induction calls with
  | nil => exact fun device _ => ⟨.refl _, rfl⟩
  | cons call calls ih =>
      intro device areSetup
      obtain ⟨isSetup, areSetup⟩ := List.forall_mem_cons.mp areSetup
      obtain ⟨one, buffer⟩ := setup_onlyId word homedir applicationId device isSetup
      obtain ⟨others, buffer'⟩ := ih (apiStep word homedir applicationId device call).1 areSetup
      exact ⟨one.trans others, buffer'.trans buffer⟩

/-! ## The time that is stored -/

/-- The files hold the values of the application, and the time has been stored from a client. -/
def FilesKept (home : Home) (applicationId : CString) (files : Files) : Prop :=
  ∃ m, home.Keeps files m ∧
    Byte.nul ∉ m.load applicationId.bytes PARSE_INSTALLATION_ID.bytes ∧
    Byte.nul ∉ m.load applicationId.bytes PARSE_SESSION_TOKEN.bytes ∧
    Byte.nul ∉ m.load applicationId.bytes PARSE_LAST_PUSH_TIME.bytes ∧
    (m.load applicationId.bytes PARSE_LAST_PUSH_TIME.bytes).length < 40

/-- The time of the last push, as a new process loads it. -/
def savedTime (home : Home) (applicationId : CString) (files : Files) : List Byte :=
  (CString.ofMemory (parseOsLoadKey home.text ⟨files, []⟩ applicationId PARSE_LAST_PUSH_TIME
    (List.replicate 40 Byte.nul)).2).bytes

/-- The time that the next process names. -/
def nextTime (home : Home) (applicationId : CString) (files : Files) : Option (List Byte) :=
  namedTime (savedTime home applicationId files)

section FilesKept

variable (word : WordSize) {home : Home} {applicationId : CString}
  (holds : home.Holds applicationId)

theorem fresh_serving {files : Files} {m : KeyMap} (keeps : home.Keeps files m) :
    KeyStore.Serving home ⟨files, []⟩ applicationId m :=
  ⟨keeps, Or.inl rfl, fun used => absurd rfl used⟩

include holds

theorem savedTime_eq {files : Files} {m : KeyMap} (keeps : home.Keeps files m)
    (noNul : Byte.nul ∉ m.load applicationId.bytes PARSE_LAST_PUSH_TIME.bytes)
    (short : (m.load applicationId.bytes PARSE_LAST_PUSH_TIME.bytes).length < 40) :
    savedTime home applicationId files =
      m.load applicationId.bytes PARSE_LAST_PUSH_TIME.bytes := by
  have size : (List.replicate 40 Byte.nul).length = 40 := List.length_replicate
  have loaded := ((fresh_serving keeps).loadKey holds.lastPushTime
    (show 0 < (List.replicate 40 Byte.nul).length by decide)).2
  have text := ofMemory_loaded (m.load applicationId.bytes PARSE_LAST_PUSH_TIME.bytes) size noNul []
  rw [List.append_nil, restored, if_pos short] at text
  rw [savedTime, loaded, text]

/-- **A new process has the time that is stored.** -/
theorem FilesKept.started {files : Files} (kept : FilesKept home applicationId files)
    (start : Start) :
    Persists home applicationId
        (parseInitializeWithServerURL word home.text ⟨files, []⟩ applicationId start) ∧
      (parseInitializeWithServerURL word home.text ⟨files, []⟩ applicationId
        start).client.lastPushTime.map CString.bytes = nextTime home applicationId files := by
  obtain ⟨m, keeps, id, token, time, short⟩ := kept
  have stores : Stores home applicationId ⟨newClient applicationId start, ⟨files, []⟩⟩ _ _ _ :=
    ⟨rfl, m, fresh_serving keeps, rfl, rfl, rfl⟩
  obtain ⟨persists, restores⟩ := initialize_restores word holds start stores id token time short
  refine ⟨persists, restores.lastPushTime.trans ?_⟩
  have saved : savedTime home applicationId files = _ :=
    savedTime_eq holds keeps time short
  rw [nextTime, saved, namedTime]
  exact ite_not _ _ _

/-- What a client has in memory is kept. -/
theorem Persists.kept {p : Process} (persists : Persists home applicationId p) :
    FilesKept home applicationId p.store.files ∧
      savedTime home applicationId p.store.files = valueBytes p.client.lastPushTime := by
  obtain ⟨⟨-, m, serving, id, token, time⟩, short⟩ := persists
  rw [← time] at short
  have noNul : Byte.nul ∉ m.load applicationId.bytes PARSE_LAST_PUSH_TIME.bytes := by
    rw [time]
    exact valueBytes_noNul _
  refine ⟨⟨m, serving.keeps, ?_, ?_, noNul, short⟩, ?_⟩
  · rw [id]
    exact valueBytes_noNul _
  · rw [token]
    exact valueBytes_noNul _
  · rw [savedTime_eq holds serving.keeps noNul short, time]

end FilesKept

/-! ## The push service of a process -/

section Start

variable (word : WordSize) (homedir : List Byte) (p : Process) (outside : Outside)

/-- What starting the push service makes of the client. -/
theorem startPushService_client :
    (p.startPushService word homedir outside).client.toParseClientInternal =
      (p.starting homedir outside).client := by
  rw [Process.startPushService, Process.starting]
  cases p.client.pushCurlHandle with
  | some curl => exact (Process.register_eq ..).1
  | none =>
      cases p.client.installationId with
      | some id => exact (Process.register_eq ..).1
      | none => exact (Process.register_eq ..).1

theorem parseStartPushService_lastPushTime (client : ParseClientInternal)
    (around : Surroundings) :
    (parseStartPushService client around).client.lastPushTime = client.lastPushTime := by
  obtain ⟨id, created⟩ := parseCreateInstallationIdIfNeeded_onlyId client around
  by_cases closed : client.pushCurlHandle = none
  · rw [(start_created closed around).2.2.1, created]
  · rw [parseStartPushService, if_pos closed]

theorem starting_client :
    (p.starting homedir outside).client.lastPushTime = p.client.lastPushTime ∧
      (p.starting homedir outside).client.pushCallback = p.client.pushCallback := by
  rw [Process.starting]
  split
  · exact ⟨parseStartPushService_lastPushTime .., parseStartPushService_callback ..⟩
  · exact ⟨parseStartPushService_lastPushTime .., parseStartPushService_callback ..⟩

/-- **On a connection the handshake is sent**, with the identifier that the client has then. -/
theorem starting_sends (closed : p.client.pushCurlHandle = none)
    (connects : outside.around.Connects) :
    ∃ id front, (p.starting homedir outside).events =
      front ++ [.send (handshakeText id p.client.applicationId.bytes
        (p.client.lastPushTime.map CString.bytes)), .send ping] := by
  have sends : ∀ around : Surroundings, around.Connects → ∃ id front,
      (parseStartPushService p.client.toParseClientInternal around).events =
        front ++ [.send (handshakeText id p.client.applicationId.bytes
          (p.client.lastPushTime.map CString.bytes)), .send ping] := by
    rintro around ⟨curl, connectOnly, useSsl, url, perform⟩
    obtain ⟨curl, handle⟩ := Option.ne_none_iff_exists'.mp curl
    obtain ⟨id, created⟩ :=
      parseCreateInstallationIdIfNeeded_onlyId p.client.toParseClientInternal around
    refine ⟨(id.map CString.bytes).getD [],
      (parseCreateInstallationIdIfNeeded p.client.toParseClientInternal around).2, ?_⟩
    rw [parseStartPushService, if_neg (not_not.mpr closed)]
    dsimp only
    rw [handle]
    dsimp only
    rw [if_neg (not_not.mpr connectOnly), if_neg (not_not.mpr useSsl), if_neg (not_not.mpr url),
      if_neg (not_not.mpr perform), created, handshake_eq]
  rw [Process.starting]
  split
  · exact sends _ connects
  · exact sends _ connects

end Start

/-- The calls of a process are those of its push service. -/
theorem processAll_eq (word : WordSize) (homedir : List Byte) (inputs : ProcessInputs) :
    ∀ (p : Process) (buffer : ReceiveBuffer),
      (p.processAll word homedir buffer inputs).1.process.client.toParseClientInternal =
          (behindCalls word ⟨p.client.toParseClientInternal, buffer⟩ inputs).client ∧
        (p.processAll word homedir buffer inputs).1.buffer =
          (behindCalls word ⟨p.client.toParseClientInternal, buffer⟩ inputs).buffer ∧
        (p.processAll word homedir buffer inputs).2 =
          (run (pushStep word) buffer
            (callsFrom word ⟨p.client.toParseClientInternal, buffer⟩ inputs)).map
              Runs.Transition.output := by
  induction inputs with
  | nil => exact fun p buffer => ⟨rfl, rfl, rfl⟩
  | cons input inputs ih =>
      intro p buffer
      obtain ⟨client, left, outs⟩ := ih
        (p.processNextPushNotification word homedir buffer input.1 input.2).1
        (p.processNextPushNotification word homedir buffer input.1 input.2).2
      exact ⟨client, left, congrArg _ outs⟩

theorem processAll_persists (word : WordSize) {home : Home} {applicationId : CString}
    (holds : home.Holds applicationId) (inputs : ProcessInputs) :
    ∀ {p : Process} (buffer : ReceiveBuffer), Persists home applicationId p →
      Persists home applicationId (p.processAll word home.text buffer inputs).1.process := by
  induction inputs with
  | nil => exact fun {p} buffer persists => persists
  | cons input inputs ih =>
      intro p buffer persists
      exact ih _ (persists.processNextPushNotification word holds buffer input.1 input.2)

/-- What the callback is told in these calls are the messages handed on, without the heartbeats. -/
theorem told_of_run (word : WordSize) (calls : List Call) : ∀ buffer : ReceiveBuffer,
    textsOf ((run (pushStep word) buffer calls).flatMap fun t => t.output.told) =
      withoutBeats (handedMessages (run (pushStep word) buffer calls)) := by
  induction calls with
  | nil => exact fun buffer => rfl
  | cons call calls ih =>
      intro buffer
      rw [run_cons, List.flatMap_cons, textsOf_append, ih, handedMessages, handedMessages,
        List.flatMap_cons, withoutBeats_append]
      exact congrArg (· ++ _) (process_told word buffer call).messages

/-! ## One process -/

section Ready

variable (word : WordSize) {home : Home} {applicationId : CString}
  (holds : home.Holds applicationId)

theorem parseInitialize_closed (homedir : List Byte) (store : KeyStore) (applicationId : CString)
    (start : Start) :
    (parseInitializeWithServerURL word homedir store applicationId
      start).client.pushCurlHandle = none := by
  have same : ∀ {before after : ParseClientInternal}, OnlyId before after →
      after.pushCurlHandle = before.pushCurlHandle := by
    rintro before after ⟨id, rfl⟩
    rfl
  rw [parseInitializeWithServerURL]
  dsimp only
  split_ifs
  · exact (same (setSessionToken_onlyId ..)).trans (same (setInstallationId_onlyId ..))
  · exact (same (setSessionToken_onlyId ..)).trans (same (setInstallationId_onlyId ..))
  · exact same (setInstallationId_onlyId ..)
  · exact same (setInstallationId_onlyId ..)
  · exact same (setSessionToken_onlyId ..)
  · exact same (setSessionToken_onlyId ..)
  · rfl
  · rfl

/-- A process in front of the push service, which names this time. -/
structure Ready (home : Home) (applicationId : CString) (time : Option (List Byte))
    (device : Device) : Prop where
  persists : Persists home applicationId device.process
  closed : device.process.client.pushCurlHandle = none
  callback : device.process.client.pushCallback = true
  time : device.process.client.lastPushTime.map CString.bytes = time
  buffer : device.buffer = unfilled (Block.fill 2048 Byte.nul)

include holds

theorem Life.device_ready {files : Files} (kept : FilesKept home applicationId files) {life : Life}
    (areSetup : ∀ call ∈ life.calls, call.IsSetup) :
    Ready home applicationId (nextTime home applicationId files)
      (life.device word home.text applicationId files) := by
  obtain ⟨persists, time⟩ := kept.started word holds life.start
  obtain ⟨⟨id, only⟩, buffer⟩ := setups_onlyId word home.text applicationId life.calls
    (.started word home.text applicationId files life.start) areSetup
  have closed := parseInitialize_closed word home.text ⟨files, []⟩ applicationId life.start
  have set : ∀ (calls : List ApiCall) (device : Device),
      Persists home applicationId device.process →
      Persists home applicationId
        (final (apiStep word home.text applicationId) device calls).process := by
    intro calls
    induction calls with
    | nil => exact fun device persists => persists
    | cons call calls ih =>
        exact fun device persists => ih _ (apiStep_persists word holds persists call)
  have behind := set life.calls (.started word home.text applicationId files life.start) persists
  refine ⟨behind.same rfl rfl ⟨rfl, rfl⟩ rfl, ?_, rfl, ?_, buffer⟩
  · exact (congrArg ParseClientInternal.pushCurlHandle only).trans closed
  · have same := congrArg ParseClientInternal.lastPushTime only
    exact (congrArg (Option.map CString.bytes) same).trans time

end Ready

/-- What the push service of a process makes of a stream of lines. -/
theorem Ready.service (word : WordSize) {home : Home} {applicationId : CString}
    (holds : home.Holds applicationId) {time : Option (List Byte)} {device : Device}
    (ready : Ready home applicationId time device) (outside : Outside) (inputs : ProcessInputs) :
    Persists home applicationId (runService word home.text device outside inputs).1 ∧
      (runService word home.text device outside inputs).2.client.lastPushTime.map CString.bytes =
        time ∧
      ∀ {lines : List Line} {todo : List Byte},
        (runService word home.text device outside inputs).2.outs.flatMap Processed.received ++
          todo = streamText lines →
        LineFeeds lines → (∀ line ∈ lines, line.object.text.length ≤ 2048) →
          ∃ done left, lines = done ++ left ∧
            messages ((runService word home.text device outside inputs).2.buffer.unread ++ todo) =
              left.map (fun line => line.object.text) ∧
            textsOf ((runService word home.text device outside inputs).2.outs.flatMap
              Processed.told) = withoutBeats (done.map fun line => line.object.text) ∧
            (runService word home.text device outside
                inputs).1.client.lastPushTime.map CString.bytes =
              ((done.filterMap (lineTime 31)).getLast?).or time := by
  obtain ⟨persists, -, callback, isTime, buffer⟩ := ready
  obtain ⟨lastPushTime, pushCallback⟩ := starting_client home.text device.process outside
  have client := startPushService_client word home.text device.process outside
  obtain ⟨behind, unread, outs⟩ := processAll_eq word home.text inputs
    (device.process.startPushService word home.text outside) device.buffer
  rw [client, buffer] at behind unread outs
  have named := (congrArg (Option.map CString.bytes) lastPushTime).trans isTime
  refine ⟨processAll_persists word holds inputs device.buffer
    (persists.startPushService word holds outside), named, ?_⟩
  intro lines todo stream lineFeeds fits
  rw [runService] at stream ⊢
  dsimp only at stream ⊢
  rw [buffer, outs, List.flatMap_map] at stream
  obtain ⟨done, left, isSplit, handed, toCome, last⟩ := behindCalls_takes word _ _ inputs
    (pushCallback.trans callback) stream lineFeeds fits
  refine ⟨done, left, isSplit, ?_, ?_, ?_⟩
  · rw [buffer, unread]
    exact toCome
  · rw [buffer, outs, List.flatMap_map, ← handed]
    exact told_of_run word _ _
  · rw [buffer, behind, last, named]

/-! ## The log of the server -/

/-- On the connection of a process the server sends what its log has behind the time in the
handshake, in lines whose objects fit the buffer. -/
def Answered (log : List Line) (t : Runs.Transition Files Life Report) : Prop :=
  ∃ lines todo, Push.Serves log (t.output.client.lastPushTime.map CString.bytes)
    (t.output.outs.flatMap Processed.received) lines todo ∧
      ∀ line ∈ lines, line.object.text.length ≤ 2048

/-- On the connection of a process all of that has arrived, and the process leaves no message in the
receive buffer. -/
def AnsweredWhole (log : List Line) (t : Runs.Transition Files Life Report) : Prop :=
  ∃ lines, Push.Serves log (t.output.client.lastPushTime.map CString.bytes)
    (t.output.outs.flatMap Processed.received) lines [] ∧
      (∀ line ∈ lines, line.object.text.length ≤ 2048) ∧ messages t.output.buffer.unread = []

/-- The messages with a time that the callback hears in a process. -/
def messagesHeard (t : Runs.Transition Files Life Report) : List (List Byte) :=
  timedTexts (textsOf (t.output.outs.flatMap Processed.told))

theorem namedTime_valueBytes {value : Option CString}
    (nonempty : ∀ text, value.map CString.bytes = some text → text ≠ []) :
    namedTime (valueBytes value) = value.map CString.bytes := by
  cases value with
  | none => rfl
  | some text => exact if_neg (nonempty text.bytes rfl)

section LifeStep

variable (word : WordSize) {home : Home} {applicationId : CString}
  (holds : home.Holds applicationId) {log : List Line} {files : Files}
  (kept : FilesKept home applicationId files) {life : Life}
  (areSetup : ∀ call ∈ life.calls, call.IsSetup)

include holds kept areSetup

/-- **One process** hears the first lines with a time of its connection. Those behind them are still
to come, or in the receive buffer. -/
theorem lifeStep_takes {lines : List Line} {todo : List Byte}
    (serves : Push.Serves log
      ((lifeStep word home.text applicationId files life).2.client.lastPushTime.map CString.bytes)
      ((lifeStep word home.text applicationId files life).2.outs.flatMap Processed.received)
      lines todo)
    (fits : ∀ line ∈ lines, line.object.text.length ≤ 2048) :
    FilesKept home applicationId (lifeStep word home.text applicationId files life).1 ∧
      ∃ done left, Push.Serves log (nextTime home applicationId files)
          ((lifeStep word home.text applicationId files life).2.outs.flatMap Processed.received)
          (done ++ left) todo ∧
        messages ((lifeStep word home.text applicationId files life).2.buffer.unread ++ todo) =
          left.map (fun line => line.object.text) ∧
        messagesHeard (fire (lifeStep word home.text applicationId) files life) =
          (done.filter hasTime).map (fun line => line.object.text) ∧
        ∃ time : Option CString,
          savedTime home applicationId (lifeStep word home.text applicationId files life).1 =
            valueBytes time ∧
          time.map CString.bytes =
            ((done.filterMap (lineTime 31)).getLast?).or (nextTime home applicationId files) := by
  obtain ⟨persists, named, takes⟩ := (life.device_ready word holds kept areSetup).service word holds
    life.outside life.inputs
  obtain ⟨done, left, rfl, toCome, told, last⟩ := takes serves.stream serves.lineFeeds fits
  obtain ⟨kept, saved⟩ := persists.kept holds
  refine ⟨kept, done, left, ?_, toCome, ?_, _, saved, last⟩
  · rw [← named]
    exact serves
  · rw [← timedTexts_lines, ← told]
    rfl

/-- It continues the log. -/
theorem lifeStep_continues (isLog : IsLog 31 log)
    (answered : Answered log (fire (lifeStep word home.text applicationId) files life)) :
    FilesKept home applicationId (lifeStep word home.text applicationId files life).1 ∧
      Continues logTime (nextTime home applicationId) messagesHeard
        (fun line => line.object.text) log
        (fire (lifeStep word home.text applicationId) files life) := by
  obtain ⟨lines, todo, serves, fits⟩ := answered
  obtain ⟨kept, done, left, serves, -, heard, time, saved, last⟩ :=
    lifeStep_takes word holds kept areSetup serves fits
  refine ⟨kept, done.filter hasTime, serves.isPart, heard, ?_⟩
  rw [serves.times isLog] at last
  have nonempty : ∀ text, time.map CString.bytes = some text → text ≠ [] := by
    intro text isText
    rw [last, Option.or_eq_some_iff] at isText
    rcases isText with isLast | ⟨-, isNamed⟩
    · refine serves.times_ne_nil isLog ?_
      rw [serves.times isLog]
      exact List.mem_of_getLast? isLast
    · exact namedTime_ne_nil isNamed
  exact (congrArg namedTime saved).trans ((namedTime_valueBytes nonempty).trans last)

/-- When nothing is left of the connection, it hears all that the log has behind the time. -/
theorem lifeStep_hearsAll
    (answered : AnsweredWhole log (fire (lifeStep word home.text applicationId) files life)) :
    messagesHeard (fire (lifeStep word home.text applicationId) files life) =
      (behind logTime log (nextTime home applicationId files)).map
        (fun line => line.object.text) := by
  obtain ⟨lines, serves, fits, nothing⟩ := answered
  obtain ⟨-, done, left, serves, toCome, heard, -⟩ :=
    lifeStep_takes word holds kept areSetup serves fits
  have taken : left = [] := by
    rw [List.append_nil] at toCome
    exact List.map_eq_nil_iff.mp (toCome.symm.trans nothing)
  rw [heard, serves.isAll taken]

/-- On a connection a process sends its handshake. -/
theorem lifeStep_opening (connects : life.outside.around.Connects) :
    ∃ id front, (lifeStep word home.text applicationId files life).2.opening =
      front ++ [.send (handshakeText id applicationId.bytes (nextTime home applicationId files)),
        .send ping] := by
  have ready := life.device_ready word holds kept areSetup
  obtain ⟨id, front, sends⟩ := starting_sends home.text _ life.outside ready.closed connects
  rw [ready.time, ready.persists.stores.application] at sends
  exact ⟨id, front, sends⟩

end LifeStep

/-- **Notifications through restarts.** From files that hold nothing, processes run one after the
other, and each ends at any time between two calls of `parseProcessNextPushNotification`. On every
connection, whatever the connection does, the server sends what its log has behind the time in the
handshake, and anything without a time between. Then the callback hears, all processes together, the
messages of the log from its first one on, each once and in their order. The handshake of the next
process names the time of the last one that has been heard; and when all that the server then sends
arrives and none of it stays in the receive buffer, the whole log has been heard. -/
theorem push_log_survives (word : WordSize) {home : Home} {applicationId : CString}
    (holds : home.Holds applicationId) {files : Files} (fresh : home.Keeps files .empty)
    {log : List Line} (isLog : IsLog 31 log) (lives : List Life)
    (areSetup : ∀ life ∈ lives, ∀ call ∈ life.calls, call.IsSetup)
    (answered : ∀ t ∈ run (lifeStep word home.text applicationId) files lives, Answered log t) :
    ∃ heard, heard <+: log ∧
      (run (lifeStep word home.text applicationId) files lives).flatMap messagesHeard =
        heard.map (fun line => line.object.text) ∧
      (∀ next : Life, (∀ call ∈ next.calls, call.IsSetup) → next.outside.around.Connects →
        ∃ id front, (lifeStep word home.text applicationId
            (final (lifeStep word home.text applicationId) files lives) next).2.opening =
          front ++ [.send (handshakeText id applicationId.bytes ((heard.map logTime).getLast?)),
            .send ping]) ∧
      ∀ next : Life, (∀ call ∈ next.calls, call.IsSetup) →
        AnsweredWhole log (fire (lifeStep word home.text applicationId)
          (final (lifeStep word home.text applicationId) files lives) next) →
        heard.map (fun line => line.object.text) ++
          messagesHeard (fire (lifeStep word home.text applicationId)
            (final (lifeStep word home.text applicationId) files lives) next) =
              log.map (fun line => line.object.text) := by
  have none : Byte.nul ∉ ([] : List Byte) := List.not_mem_nil
  have kept : FilesKept home applicationId files :=
    ⟨.empty, fresh, none, none, none, Nat.succ_pos _⟩
  have new : nextTime home applicationId files = .none := by
    rw [nextTime, savedTime_eq holds fresh none (Nat.succ_pos _)]
    rfl
  obtain ⟨kept, heard, isPrefix, shown, last⟩ := run_continues logTime
    (nextTime home applicationId) messagesHeard (fun line => line.object.text) log isLog.distinct
    (FilesKept home applicationId)
    (fun t => (∀ call ∈ t.input.calls, call.IsSetup) ∧ Answered log t)
    (fun _ _ kept met => lifeStep_continues word holds kept met.1 isLog met.2) lives kept
    List.nil_prefix new fun t member => ⟨areSetup _ (input_mem_of_mem _ member), answered t member⟩
  rw [List.nil_append] at isPrefix last
  refine ⟨heard, isPrefix, shown, fun next areSetup connects => ?_, fun next areSetup whole => ?_⟩
  · obtain ⟨id, front, opening⟩ := lifeStep_opening word holds kept areSetup connects
    rw [last, lastTaken, Option.or_none] at opening
    exact ⟨id, front, opening⟩
  · rw [lifeStep_hearsAll word holds kept areSetup whole, last, ← List.map_append,
      append_behind logTime isLog.distinct isPrefix]

section Example

/-- A process on whose connection these bytes arrive before it ends. -/
def hearing (bytes : List Byte) : Life where
  start := exampleStart
  calls := []
  outside := ⟨starting, offline, offline⟩
  inputs := [([.ok bytes], 0)]

def firstLine : Line :=
  ⟨.of (.last [] (.plain "time") [] [] (.string (.plain "1")) []), .lineFeed⟩

def secondLine : Line :=
  ⟨.of (.last [] (.plain "time") [] [] (.string (.plain "2")) []), .lineFeed⟩

/-- The first process ends between the two messages. -/
def twoLives : List Life := [hearing (streamText [firstLine]), hearing (streamText [secondLine])]

theorem twoLines_isLog : IsLog 31 [firstLine, secondLine] :=
  ⟨by decide +kernel, by decide +kernel⟩

/-- The steps of such processes. -/
def exampleLife : Files → Life → Files × Report :=
  lifeStep .bits64 exampleHome.text exampleApplication

theorem twoLives_answered :
    ∀ t ∈ run exampleLife exampleFiles twoLives, Answered [firstLine, secondLine] t := by
  have timed : ∀ line ∈ [firstLine, secondLine], hasTime line = true := by decide +kernel
  rw [twoLives, run_cons, run_cons, run_nil, List.forall_mem_cons, List.forall_mem_singleton]
  constructor
  · refine ⟨[firstLine, secondLine], streamText [secondLine],
      ⟨by decide +kernel, by decide, ?_⟩, by decide +kernel⟩
    have first : (fire exampleLife exampleFiles
        (hearing (streamText [firstLine]))).output.client.lastPushTime.map CString.bytes =
          none := by
      decide +kernel
    rw [first, List.filter_eq_self.mpr timed]
    rfl
  · refine ⟨[secondLine], [], ⟨by decide +kernel, by decide, ?_⟩, by decide +kernel⟩
    have second : (fire exampleLife
        (exampleLife exampleFiles (hearing (streamText [firstLine]))).1
        (hearing (streamText [secondLine]))).output.client.lastPushTime.map CString.bytes =
          lastTaken logTime none [firstLine] := by
      decide +kernel
    rw [second,
      List.filter_eq_self.mpr fun line member => timed line (List.mem_cons_of_mem _ member)]
    have rest : behind logTime ([firstLine] ++ [secondLine]) (lastTaken logTime none [firstLine]) =
        [secondLine] := behind_append logTime twoLines_isLog.distinct
    exact rest.symm

theorem push_log_survives_twice :
    ∃ heard, heard <+: [firstLine, secondLine] ∧
      (run (lifeStep .bits64 exampleHome.text exampleApplication) exampleFiles twoLives).flatMap
        messagesHeard = heard.map (fun line => line.object.text) ∧
      (∀ next : Life, (∀ call ∈ next.calls, call.IsSetup) → next.outside.around.Connects →
        ∃ id front, (lifeStep .bits64 exampleHome.text exampleApplication
            (final (lifeStep .bits64 exampleHome.text exampleApplication) exampleFiles twoLives)
            next).2.opening =
          front ++ [.send (handshakeText id exampleApplication.bytes
            ((heard.map logTime).getLast?)), .send ping]) ∧
      ∀ next : Life, (∀ call ∈ next.calls, call.IsSetup) →
        AnsweredWhole [firstLine, secondLine]
          (fire (lifeStep .bits64 exampleHome.text exampleApplication)
            (final (lifeStep .bits64 exampleHome.text exampleApplication) exampleFiles twoLives)
            next) →
        heard.map (fun line => line.object.text) ++
          messagesHeard (fire (lifeStep .bits64 exampleHome.text exampleApplication)
            (final (lifeStep .bits64 exampleHome.text exampleApplication) exampleFiles twoLives)
            next) = [firstLine, secondLine].map (fun line => line.object.text) :=
  push_log_survives .bits64 exampleHome_holds exampleFiles_fresh twoLines_isLog twoLives
    (List.forall_mem_cons.mpr ⟨fun _ member => absurd member List.not_mem_nil,
      List.forall_mem_singleton.mpr fun _ member => absurd member List.not_mem_nil⟩)
    twoLives_answered

end Example

end ParseEmbedded.Unix
