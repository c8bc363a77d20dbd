import ParseEmbedded.Push.Buffer
import ParseEmbedded.SimpleJson.Processor

/-!
# The push service on Unix

`parseStartPushService`, `parseStopPushService` and `parseProcessNextPushNotification` of
`parse.c`. The answers of the connection are an input: each `curl_easy_recv` takes the next one,
and when they are used up it answers `CURLE_AGAIN`. What a call does outside the buffer and the
client, callbacks first of all, is recorded as a list of events in their order, and the ranges
of the buffer that it writes as a list of extents.

The callback itself is not modelled: it does not call the push functions again.
-/

set_option autoImplicit false

namespace ParseEmbedded.Unix

open SimpleJson Push

/-! ## The client and its surroundings -/

abbrev PARSE_HEARTBIT_INTERVAL_SECONDS : Nat := 14 * 60

def PARSE_INSTALLATION_ID : CString := CString.literal "installationID"

def PARSE_LAST_PUSH_TIME : CString := CString.literal "lastPushTime"

/-- `errno` of a connection reset. -/
abbrev ECONNRESET : Int := 104

abbrev CURLE_OK : Int := 0

abbrev CURLE_FAILED_INIT : Int := 2

/-- A push connection. The handle of a connection is never used for another one. -/
abbrev Connection := Nat

/-- The fields of the client that the push service works with. A callback is set or not. -/
structure ParseClientInternal where
  applicationId : CString
  installationId : Option CString
  lastPushTime : Option CString
  pushCallback : Bool
  pushCurlHandle : Option Connection
  lastHearbeat : Nat
  deriving DecidableEq

/-- What a call does outside the buffer and the client. -/
inductive Event where
  | callback (error : Int) (message : Option CString)
  | heartbeat (message : CString)
  | storeKey (applicationId key value : CString)
  | sendRequest (httpVerb httpPath requestBody : CString)
  | send (bytes : List Byte)
  | cleanup (connection : Connection)
  deriving DecidableEq

/-- `{}` and a line feed. -/
def ping : List Byte := [Byte.openBrace, Byte.closeBrace, Byte.lineFeed]

/-! ## Starting and stopping -/

def parseSetPushCallback (client : ParseClientInternal) (callback : Bool) :
    ParseClientInternal :=
  { client with pushCallback := callback }

/-- What `parseStartPushService` meets: the stored identifier, empty if there is none, a fresh
one, the new handle unless `curl_easy_init` fails, the results of the three `curl_easy_setopt`
and of `curl_easy_perform`, and the time. -/
structure Surroundings where
  storedId : CString
  uuid : CString
  curl : Option Connection
  connectOnly : Int
  useSsl : Int
  url : Int
  perform : Int
  seconds : Nat

/-- `parseSetInstallationId` for an identifier. -/
def parseSetInstallationId (client : ParseClientInternal) (id : CString) :
    ParseClientInternal × List Event :=
  let payload := ascii "\x7b\"installationId\":\"" ++ id.bytes ++
    ascii "\",\"deviceType\":\"embedded\"\x7d"
  ({ client with installationId := some id },
    [.storeKey client.applicationId PARSE_INSTALLATION_ID id,
      .sendRequest (CString.literal "POST") (CString.literal "/installations/")
        (CString.ofMemory payload)])

def parseCreateInstallationIdIfNeeded (client : ParseClientInternal) (around : Surroundings) :
    ParseClientInternal × List Event :=
  match client.installationId with
  | some _ => (client, [])
  | none =>
      parseSetInstallationId client
        (if around.storedId.bytes = [] then around.uuid else around.storedId)

/-- The first line sent on a new connection. -/
def handshake (client : ParseClientInternal) : List Byte :=
  let installationId := (client.installationId.map CString.bytes).getD []
  let last :=
    match client.lastPushTime with
    | some time => ascii "\"" ++ time.bytes ++ ascii "\""
    | none => ascii "null"
  snprintf 256 (ascii "\x7b\"installation_id\":\"" ++ installationId ++
    ascii "\", \"oauth_key\":\"" ++ client.applicationId.bytes ++
    ascii "\", \"v\":\"e1.0.0\", \"last\":" ++ last ++ [Byte.closeBrace, Byte.lineFeed])

structure Started where
  result : Int
  client : ParseClientInternal
  events : List Event

def parseStartPushService (client : ParseClientInternal) (around : Surroundings) : Started :=
  if client.pushCurlHandle ≠ none then ⟨0, client, []⟩
  else
    let (client, events) := parseCreateInstallationIdIfNeeded client around
    match around.curl with
    | none => ⟨CURLE_FAILED_INIT, client, events⟩
    | some curl =>
        if around.connectOnly ≠ CURLE_OK then ⟨around.connectOnly, client, events⟩
        else if around.useSsl ≠ CURLE_OK then ⟨around.useSsl, client, events⟩
        else if around.url ≠ CURLE_OK then ⟨around.url, client, events⟩
        else if around.perform ≠ CURLE_OK then ⟨around.perform, client, events⟩
        else
          ⟨0, { client with pushCurlHandle := some curl, lastHearbeat := around.seconds },
            events ++ [.send (handshake client), .send ping]⟩

/-- A start that finds no handle keeps its own exactly if there is a connection. -/
theorem parseStartPushService_handle {client : ParseClientInternal}
    (idle : client.pushCurlHandle = none) (around : Surroundings) :
    (parseStartPushService client around).client.pushCurlHandle =
      if around.connectOnly = CURLE_OK ∧ around.useSsl = CURLE_OK ∧ around.url = CURLE_OK ∧
        around.perform = CURLE_OK then around.curl else none := by
  have created : (parseCreateInstallationIdIfNeeded client around).1.pushCurlHandle = none := by
    rw [parseCreateInstallationIdIfNeeded]
    split
    · exact idle
    · exact idle
  rw [parseStartPushService, if_neg (not_not.mpr idle)]
  dsimp only
  cases around.curl with
  | none =>
      rw [ite_self]
      exact created
  | some number =>
      dsimp only
      by_cases connectOnly : around.connectOnly = CURLE_OK
      · by_cases useSsl : around.useSsl = CURLE_OK
        · by_cases url : around.url = CURLE_OK
          · by_cases perform : around.perform = CURLE_OK
            · simp [connectOnly, useSsl, url, perform]
            · simp [connectOnly, useSsl, url, perform, created]
          · simp [connectOnly, useSsl, url, created]
        · simp [connectOnly, useSsl, created]
      · simp [connectOnly, created]

def parseStopPushService (client : ParseClientInternal) : ParseClientInternal × List Event :=
  match client.pushCurlHandle with
  | none => (client, [])
  | some connection => ({ client with pushCurlHandle := none }, [.cleanup connection])

/-! ## Receiving -/

/-- `parse_push_message_buffer` and `parse_push_message_size`. -/
abbrev ReceiveBuffer := PushBuffer 2048

/-- How `curl_easy_recv` answers. Of the bytes it has, it stores at most as many as asked for. -/
inductive RecvAnswer where
  | ok (bytes : List Byte)
  | again
  | error (code : Int)
  deriving DecidableEq

/-- The local variables of the receive loop, the bytes received in it and the ranges written. -/
structure Loop where
  buffer : ReceiveBuffer
  length : Int
  start : Int
  message : Option Nat
  received : List Byte
  writes : List Extent

/-- How the receive loop is left: at its condition, or at an answer that ends it. -/
inductive LoopExit where
  | left
  | again
  | failed (code : Int)
  deriving DecidableEq, Repr

def Loop.begin (buffer : ReceiveBuffer) : Loop := ⟨buffer, -1, 0, none, [], []⟩

/-- `CURLE_OK`: the bytes stored are looked through for a message. -/
def Loop.ok (loop : Loop) (bytes : List Byte) : Loop :=
  let room := (2048 - loop.buffer.used).toNat
  let stored := bytes.take room
  let buffer := loop.buffer.receive stored
  let found := buffer.pushJson
  { buffer
    length := found.length
    start := found.start
    message := found.json.map fun _ => found.start.toNat
    received := loop.received ++ stored
    writes := loop.writes ++ [⟨loop.buffer.used.toNat, room⟩] }

/-- `while (length == -1 && parse_push_message_size < sizeof(parse_push_message_buffer))` -/
def Loop.goesOn (word : WordSize) (loop : Loop) : Bool :=
  loop.length = -1 ∧ toSizeT word loop.buffer.used < 2048

def receiveLoop (word : WordSize) : List RecvAnswer → Loop → Loop × LoopExit
  | [], loop => (loop, if loop.goesOn word then .again else .left)
  | answer :: answers, loop =>
      if loop.goesOn word then
        match answer with
        | .ok bytes => receiveLoop word answers (loop.ok bytes)
        | .again => (loop, .again)
        | .error code => (loop, .failed code)
      else (loop, .left)

/-! ## Processing -/

/-- The inputs of a call: the client, the answers of its connection and the time. -/
structure Call where
  client : ParseClientInternal
  answers : List RecvAnswer
  seconds : Nat

/-- What a call returns and does. `exit` is how its receive loop was left, if it had one. -/
structure Processed where
  result : Int
  client : ParseClientInternal
  events : List Event
  received : List Byte
  writes : List Extent
  exit : Option LoopExit

/-- The message of an event that hands one on, or recognises it as a heartbeat. -/
def Event.handed : Event → Option (List Byte)
  | .callback error message => if error = 0 then message.map CString.bytes else none
  | .heartbeat message => some message.bytes
  | _ => none

/-- The string of an event that passes one to the callback with error zero. -/
def Event.delivered : Event → Option (List Byte)
  | .callback error message => if error = 0 then message.map CString.bytes else none
  | _ => none

def Processed.handed (out : Processed) : List (List Byte) := out.events.filterMap Event.handed

def Processed.delivered (out : Processed) : List (List Byte) :=
  out.events.filterMap Event.delivered

/-- `char time[32]`, and the assignment to `lastPushTime` if the message holds a time. -/
def rememberTime (client : ParseClientInternal) (message : CString) :
    ParseClientInternal × List Event :=
  match simpleJsonProcessor message (CString.literal "time") (some (List.replicate 32 0)) 32 with
  | .ok ⟨result, some time⟩ =>
      if result ≠ 0 then
        let time := CString.ofMemory time
        ({ client with lastPushTime := some time },
          [.storeKey client.applicationId PARSE_LAST_PUSH_TIME time])
      else (client, [])
  | _ => (client, [])

/-- A heartbeat is only logged, any other message goes to the callback. -/
def handOn (client : ParseClientInternal) (message : CString) : List Event :=
  if isHeartbeat message then [.heartbeat message]
  else if client.pushCallback then [.callback 0 (some message)]
  else []

/-- The branch for a message at this index. -/
def processMessage (client : ParseClientInternal) (loop : Loop) (exit : LoopExit) (index : Nat) :
    ReceiveBuffer × Processed :=
  let length := loop.length.toNat
  let buffer := loop.buffer.terminate (index + length)
  let message := buffer.string index
  let (client, stored) := rememberTime client message
  let rest := buffer.consume length
  (rest,
    { result := if rest.used > 0 then 1 else 0
      client
      events := stored ++ handOn client message
      received := loop.received
      writes := loop.writes ++ (⟨index + length, 1⟩ :: buffer.moved length)
      exit := some exit })

/-- A heartbeat is sent when the last one is too long ago. -/
def sendHeartbeat (client : ParseClientInternal) (seconds : Nat) :
    ParseClientInternal × List Event :=
  if seconds > client.lastHearbeat + PARSE_HEARTBIT_INTERVAL_SECONDS then
    ({ client with lastHearbeat := seconds }, [.send ping])
  else (client, [])

/-- Behind the branch for a message: nothing has been found. -/
def processNothing (call : Call) (loop : Loop) (exit : LoopExit) : ReceiveBuffer × Processed :=
  let (client, events) := sendHeartbeat call.client call.seconds
  (loop.buffer, ⟨0, client, events, loop.received, loop.writes, some exit⟩)

/-- The call once its receive loop has ended. -/
def processReceived (word : WordSize) (call : Call) (loop : Loop) (exit : LoopExit) :
    ReceiveBuffer × Processed :=
  match exit with
  | .failed _ =>
      (loop.buffer,
        ⟨0, call.client, if call.client.pushCallback then [.callback ECONNRESET none] else [],
          loop.received, loop.writes, some exit⟩)
  | _ =>
      if loop.length = -1 ∧ toSizeT word loop.buffer.used = 2048 then
        -- a message bigger than the buffer is dropped
        ({ loop.buffer with used := 0 },
          ⟨0, call.client, [], loop.received, loop.writes, some exit⟩)
      else
        match loop.message with
        | some index =>
            if loop.length > 0 then processMessage call.client loop exit index
            else processNothing call loop exit
        | none => processNothing call loop exit

def parseProcessNextPushNotification (word : WordSize) (buffer : ReceiveBuffer) (call : Call) :
    ReceiveBuffer × Processed :=
  if call.client.pushCurlHandle = none then (buffer, ⟨0, call.client, [], [], [], none⟩)
  else
    let (loop, exit) := receiveLoop word call.answers (.begin buffer)
    processReceived word call loop exit

end ParseEmbedded.Unix
