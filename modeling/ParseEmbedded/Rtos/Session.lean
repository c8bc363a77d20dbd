import ParseEmbedded.Library.Runs
import ParseEmbedded.Rtos.Installation

/-!
# Calls of the API on an RTOS

`parseInitialize`, `parseSetInstallationId`, `parseSetSessionToken`, `parseSendRequest` and the
functions of the push service as operations on a `Device`: the client, the files and the buffer
of the push service. A call records the requests that it sends.

The functions of the push service are those of `push.c`, on the fields they work with; here they
change the client with its arrays, and what they save reaches the files. `pushMessage` is the
message that a call of `parseProcessNextPushNotification` looks into, and
`processNext_internal` says that the two agree.
-/

set_option autoImplicit false

namespace ParseEmbedded.Rtos

open SimpleJson Push

/-- The client, the files of the flash and the receive buffer of the push service. -/
structure Device where
  client : Client
  flash : Flash
  buffer : PushDataBuffer

/-- The device with another client, whose state is saved. -/
def Device.saved (device : Device) (course : Course) (client : Client) : Device :=
  { device with client, flash := saveClientState course device.flash client }

/-! ## Starting -/

/-- The client before its state is loaded. The version of the system is missing if the device does
not tell it. -/
def newClient (applicationId clientKey : CString) (osVersion : Option (List Byte)) : Client where
  applicationId := strncpy (zeros APPLICATION_ID_MAX_LEN) applicationId APPLICATION_ID_MAX_LEN
  clientKey := strncpy (zeros CLIENT_KEY_MAX_LEN) clientKey CLIENT_KEY_MAX_LEN
  installationObjectId := zeros OBJECT_ID_MAX_LEN
  installationId := zeros INSTALLATION_ID_MAX_LEN
  sessionToken := zeros SESSION_TOKEN_MAX_LEN
  callback := false
  socketHandle := -1
  nFailedPing := 0
  lastPushTime := zeros PUSH_TIME_MAX_LEN.toNat
  osVersion :=
    match osVersion with
    | some version => snprintfTo (zeros OS_VERSION_MAX_LEN) OS_VERSION_MAX_LEN version
    | none => zeros OS_VERSION_MAX_LEN
  deviceClientVersion :=
    strncpy (zeros CLIENT_VERSION_MAX_LEN) CLIENT_VERSION CLIENT_VERSION_MAX_LEN

/-- `parseInitialize` in a new process. -/
def parseInitialize (flash : Flash) (applicationId clientKey : CString)
    (osVersion : Option (List Byte)) : Device where
  client := loadClientState flash (newClient applicationId clientKey osVersion)
  flash
  buffer := ⟨Block.fill 1024 Byte.nul, 0⟩

/-! ## Installations and sessions -/

section Calls

variable (outside : Outside) (device : Device)

/-- `parseSetInstallationId` -/
def Device.setInstallationId (installationId : Option CString) : Device × List Exchange :=
  let client := device.client
  match installationId.filter (·.bytes ≠ []) with
  | some id =>
      if sameIgnoringCase (CString.ofMemory client.installationId) id INSTALLATION_ID_MAX_LEN then
        (device, [])
      else
        let copied := strncpy client.installationId id INSTALLATION_ID_MAX_LEN
        let (client, asked) :=
          getInstallation outside { client with installationId := copied.map tolower }
        (device.saved outside.save client, asked)
  | none =>
      if stringOf client.installationId = [] then (device, [])
      else
        (device.saved outside.save
          { client with
            installationId := memset client.installationId INSTALLATION_ID_MAX_LEN }, [])

/-- `associateSessionWithInstallation` -/
def associateSessionWithInstallation (client : Client) : List Exchange :=
  if stringOf client.installationObjectId ≠ [] then
    [outside.send client (CString.literal "PUT") (CString.literal "/1/sessions/me")
      (some (CString.literal "\x7b\x7d\r\n")) true outside.associate]
  else []

/-- `getSessionCallback`: a session without an installation is associated with this one. -/
def getSessionCallback (client : Client) (answer : Answer) (reply : Reply) : List Exchange :=
  if reply.Succeeds then
    if (lookUpBody answer.installationId reply.httpResponseBody "installationId"
        (zeros INSTALLATION_ID_MAX_LEN) (INSTALLATION_ID_MAX_LEN + 1)).1 = 0 then
      associateSessionWithInstallation outside client
    else []
  else []

def getSession (client : Client) : Client × List Exchange :=
  let (client, asked) := getInstallation outside client
  let exchange := outside.send client (CString.literal "GET") (CString.literal "/1/sessions/me")
    none true outside.session
  (client,
    asked ++ exchange :: getSessionCallback outside client outside.session exchange.reply)

/-- `parseSetSessionToken` -/
def Device.setSessionToken (sessionToken : Option CString) : Device × List Exchange :=
  let client := device.client
  match sessionToken.filter (·.bytes ≠ []) with
  | some token =>
      if sameIgnoringCase (CString.ofMemory client.sessionToken) token SESSION_TOKEN_MAX_LEN then
        (device, [])
      else
        let copied := strncpy client.sessionToken token SESSION_TOKEN_MAX_LEN
        let (client, asked) := getSession outside { client with sessionToken := copied }
        (device.saved outside.save client, asked)
  | none =>
      if stringOf client.sessionToken = [] then (device, [])
      else
        (device.saved outside.save
          { client with sessionToken := memset client.sessionToken SESSION_TOKEN_MAX_LEN }, [])

/-- `parseSendRequest` -/
def Device.sendRequest (httpVerb httpPath : CString) (httpRequestBody : Option CString) :
    Device × List Exchange :=
  let (client, asked) := getInstallation outside device.client
  ({ device with client },
    asked ++ [outside.send client httpVerb httpPath httpRequestBody true outside.request])

/-! ## The push service -/

/-- `parseStartPushService`, for this answer of `socketSslConnect` and of `send`. -/
def Device.startPushService (socketHandle send : Int) : Device × List Exchange :=
  let (client, asked) := getInstallation outside device.client
  let (buffer, out) := parseStartPushService device.buffer client.internal
    ⟨client.internal.installationId, socketHandle, send⟩
  ({ device with client := client.withInternal out.client, buffer }, asked)

end Calls

/-- `parseStopPushService` -/
def Device.stopPushService (device : Device) : Device :=
  { device with
    client := device.client.withInternal (parseStopPushService device.client.internal).1 }

/-- `parseSetPushCallback` -/
def Device.setPushCallback (device : Device) (callback : Bool) : Device :=
  { device with
    client := device.client.withInternal (parseSetPushCallback device.client.internal callback) }

/-- The message that a call of the push service looks into. -/
def pushMessage (buffer : PushDataBuffer) (call : Call) : Option CString :=
  if call.client.socketHandle > 0 then
    let loop := receiveLoop call.client.socketHandle call.reads (.begin buffer)
    if loop.length = -1 ∧ toSizeT .bits32 loop.buffer.used = 1024 then none
    else
      match loop.message with
      | some index =>
          if loop.length > 0 then
            some ((loop.buffer.terminate (index + loop.length.toNat)).string index)
          else none
      | none => none
  else none

/-- The time of a message, as the scanner finds it: whether it is there as a whole, and the array
behind the lookup. -/
def lookUpTime (stray : Stray) (message : CString) (lastPushTime : List Byte) :
    Nat × List Byte :=
  lookUp stray message (CString.literal "time") lastPushTime PUSH_TIME_MAX_LEN.toNat

/-- `parseProcessNextPushNotification`. A time that is there is saved. -/
def Device.processNextPushNotification (device : Device) (stray : Stray)
    (reads : List (List SocketRound)) (isPingTime : Bool) (send : Int) (save : Course) :
    Device :=
  let call : Call := ⟨device.client.internal, reads, isPingTime, send⟩
  let (buffer, out) := parseProcessNextPushNotification device.buffer call
  let next : Device := ⟨device.client.withInternal out.client, device.flash, buffer⟩
  match pushMessage device.buffer call with
  | some message =>
      let looked := lookUpTime stray message device.client.lastPushTime
      let client := next.client.withTime looked.2
      if looked.1 ≠ 0 then next.saved save client else { next with client }
  | none => next

/-! ## What the push service makes of the time -/

theorem parseStartPushService_time (buffer : PushDataBuffer) (client : ParseClientInternal)
    (around : Surroundings) :
    (parseStartPushService buffer client around).2.client.lastPushTime =
      client.lastPushTime := by
  rw [parseStartPushService]
  dsimp only
  split
  · split <;> rfl
  · rfl

theorem call_saves (client : ParseClientInternal) (error : Int) (message : Option CString) :
    Event.saveClientState ∉ client.call error message := by
  rw [ParseClientInternal.call]
  split
  · simp
  · exact List.not_mem_nil

theorem sendPing_saves (client : ParseClientInternal) (isPingTime : Bool) (send : Int) :
    (sendPing client isPingTime send).1.lastPushTime = client.lastPushTime ∧
      Event.saveClientState ∉ (sendPing client isPingTime send).2 := by
  have silent := call_saves client (-1) none
  rw [sendPing]
  split
  · dsimp only
    split
    · split
      · refine ⟨rfl, ?_⟩
        simp [silent]
      · exact ⟨rfl, by simp⟩
    · exact ⟨rfl, by simp⟩
  · exact ⟨rfl, List.not_mem_nil⟩

theorem processMessage_saves (client : ParseClientInternal) (loop : Loop) (index : Nat) :
    let message := (loop.buffer.terminate (index + loop.length.toNat)).string index
    (processMessage client loop index).2.client = (rememberTime client message).1 ∧
      (Event.saveClientState ∈ (processMessage client loop index).2.events ↔
        Event.saveClientState ∈ (rememberTime client message).2) := by
  rw [processMessage]
  dsimp only
  refine ⟨rfl, ?_⟩
  rw [List.mem_append, or_iff_left]
  split
  · exact List.not_mem_nil
  · exact call_saves _ _ _

/-- What a call of the push service makes of the time, and whether it saves. -/
theorem process_pushMessage (buffer : PushDataBuffer) (call : Call) :
    match pushMessage buffer call with
    | some message =>
        (parseProcessNextPushNotification buffer call).2.client =
            (rememberTime call.client message).1 ∧
          (Event.saveClientState ∈ (parseProcessNextPushNotification buffer call).2.events ↔
            Event.saveClientState ∈ (rememberTime call.client message).2)
    | none =>
        (parseProcessNextPushNotification buffer call).2.client.lastPushTime =
            call.client.lastPushTime ∧
          Event.saveClientState ∉ (parseProcessNextPushNotification buffer call).2.events := by
  have nothing : ∀ loop : Loop,
      (processNothing call loop).2.client.lastPushTime = call.client.lastPushTime ∧
        Event.saveClientState ∉ (processNothing call loop).2.events := fun loop =>
    sendPing_saves call.client call.isPingTime call.send
  rw [pushMessage, parseProcessNextPushNotification]
  by_cases started : call.client.socketHandle > 0
  · rw [if_pos started, if_pos started, processReceived]
    generalize receiveLoop call.client.socketHandle call.reads (.begin buffer) = loop
    dsimp only
    by_cases dropped : loop.length = -1 ∧ toSizeT .bits32 loop.buffer.used = 1024
    · rw [if_pos dropped, if_pos dropped]
      exact ⟨rfl, List.not_mem_nil⟩
    · rw [if_neg dropped, if_neg dropped]
      cases loop.message with
      | none => exact nothing loop
      | some index =>
          dsimp only
          by_cases found : loop.length > 0
          · rw [if_pos found, if_pos found]
            exact processMessage_saves call.client loop index
          · rw [if_neg found, if_neg found]
            exact nothing loop
  · rw [if_neg started, if_neg started]
    exact ⟨rfl, List.not_mem_nil⟩

/-- **The call agrees with the push service.** Unless the scanner leaves the message, the client
is what the push service makes of it, and it is saved exactly if the push service saves it. -/
theorem processNext_internal (device : Device) (stray : Stray)
    (reads : List (List SocketRound)) (isPingTime : Bool) (send : Int) (save : Course)
    (inside : ∀ message,
      pushMessage device.buffer ⟨device.client.internal, reads, isPingTime, send⟩ = some message →
      ∃ lookup, simpleJsonProcessor message (CString.literal "time")
        (some device.client.lastPushTime) PUSH_TIME_MAX_LEN = .ok lookup) :
    let out := (parseProcessNextPushNotification device.buffer
      ⟨device.client.internal, reads, isPingTime, send⟩).2
    let next := device.processNextPushNotification stray reads isPingTime send save
    next.client = device.client.withInternal out.client ∧
      next.flash = if Event.saveClientState ∈ out.events then
          saveClientState save device.flash next.client
        else device.flash := by
  have agrees := process_pushMessage device.buffer
    ⟨device.client.internal, reads, isPingTime, send⟩
  rw [Device.processNextPushNotification]
  dsimp only
  generalize parseProcessNextPushNotification device.buffer
    ⟨device.client.internal, reads, isPingTime, send⟩ = processed at *
  cases found : pushMessage device.buffer ⟨device.client.internal, reads, isPingTime, send⟩ with
  | none =>
      rw [found] at agrees
      refine ⟨rfl, ?_⟩
      rw [if_neg agrees.2]
  | some message =>
      rw [found] at agrees
      obtain ⟨client, saves⟩ := agrees
      obtain ⟨lookup, looked⟩ := inside message found
      obtain ⟨after, value, -⟩ := simpleJsonProcessor_leaves looked
      obtain ⟨result, value'⟩ := lookup
      dsimp only at value
      subst value
      have here : lookUpTime stray message device.client.lastPushTime = (result, after) :=
        lookUp_ok stray looked
      have remembered : rememberTime device.client.internal message =
          ({ device.client.internal with lastPushTime := after },
            if result ≠ 0 then [Event.saveClientState] else []) := by
        have looked' : simpleJsonProcessor message (CString.literal "time")
            (some device.client.internal.lastPushTime) PUSH_TIME_MAX_LEN =
            .ok ⟨result, some after⟩ := looked
        rw [rememberTime, looked']
      rw [remembered] at client saves
      have time : processed.2.client.lastPushTime = after := by
        rw [client]
      have same : (device.client.withInternal processed.2.client).withTime after =
          device.client.withInternal processed.2.client := by
        rw [← time]
        rfl
      dsimp only
      rw [here, same]
      by_cases stored : result ≠ 0
      · rw [if_pos stored] at saves ⊢
        rw [if_pos (saves.mpr (List.mem_singleton_self _))]
        exact ⟨rfl, rfl⟩
      · rw [if_neg stored] at saves ⊢
        rw [if_neg (fun member => List.not_mem_nil (saves.mp member))]
        exact ⟨rfl, rfl⟩

/-! ## Runs -/

/-- A call of the API, with what it meets. -/
inductive ApiCall where
  | parseInitialize (applicationId clientKey : CString) (osVersion : Option (List Byte))
  | setInstallationId (outside : Outside) (installationId : Option CString)
  | setSessionToken (outside : Outside) (sessionToken : Option CString)
  | sendRequest (outside : Outside) (httpVerb httpPath : CString)
      (httpRequestBody : Option CString)
  | startPushService (outside : Outside) (socketHandle send : Int)
  | stopPushService
  | setPushCallback (callback : Bool)
  | processNextPushNotification (stray : Stray) (reads : List (List SocketRound))
      (isPingTime : Bool) (send : Int) (save : Course)

/-- A call, with the requests for the installation and the session that it sends. -/
def apiStep (device : Device) : ApiCall → Device × List Exchange
  | .parseInitialize applicationId clientKey osVersion =>
      (parseInitialize device.flash applicationId clientKey osVersion, [])
  | .setInstallationId outside installationId => device.setInstallationId outside installationId
  | .setSessionToken outside sessionToken => device.setSessionToken outside sessionToken
  | .sendRequest outside httpVerb httpPath httpRequestBody =>
      device.sendRequest outside httpVerb httpPath httpRequestBody
  | .startPushService outside socketHandle send =>
      device.startPushService outside socketHandle send
  | .stopPushService => (device.stopPushService, [])
  | .setPushCallback callback => (device.setPushCallback callback, [])
  | .processNextPushNotification stray reads isPingTime send save =>
      (device.processNextPushNotification stray reads isPingTime send save, [])

abbrev ApiTransition := Runs.Transition Device ApiCall (List Exchange)

section Example

def noStray : Stray := ⟨CString.literal "", true, false⟩

/-- The answer with this body and status 200, which arrives at once. -/
def answering (body : String) : Answer :=
  ⟨arriving (ascii "HTTP/1.1 200 OK\r\n\r\n" ++ ascii body), noStray, noStray, noStray⟩

/-- There is no connection. -/
def unanswered : Answer := ⟨⟨-1, 0, []⟩, noStray, noStray, noStray⟩

def meeting (get create : Answer) : Outside where
  libc := ⟨true⟩
  rand := id
  get
  create
  session := unanswered
  associate := unanswered
  request := unanswered
  save := Course.success

def exampleStart : Device :=
  parseInitialize (fun _ => none) (CString.literal "a") (CString.literal "k") none

/-- The id is set. -/
def setting (id : CString) (get create : Answer) : ApiCall :=
  .setInstallationId (meeting get create) (some id)

/-- A request of the application, which may request the installation first. -/
def posting (get : Answer) : ApiCall :=
  .sendRequest (meeting get unanswered) (CString.literal "POST") (CString.literal "/1/classes/A")
    none

end Example

end ParseEmbedded.Rtos
