import ParseEmbedded.Push.Buffer
import ParseEmbedded.Rtos.Socket
import ParseEmbedded.SimpleJson.Processor

/-!
# The push service on an RTOS

`parseStartPushService`, `parseStopPushService`, `sendPing` and
`parseProcessNextPushNotification` of `push.c`, with the `socketRead` of the CC3200. The answers
of the driver are an input, one list of rounds for each `socketRead` of a call; a read without a
list times out. What a call does outside the buffer and the client is recorded as a list of
events in their order, the ranges of the buffer that it writes as a list of extents, and every
result of `getPushJson` as a `Look`.

The callback itself is not modelled: it does not call the push functions again. The requests
that `getInstallation` sends are not modelled either; what they are for, the identifier of the
client, is an input of `parseStartPushService`.
-/

set_option autoImplicit false

namespace ParseEmbedded.Rtos

open SimpleJson Push

/-! ## The client and its surroundings -/

abbrev PUSH_TIME_MAX_LEN : Int := 40

/-- The fields of the client that the push service works with. A callback is set or not, and
`lastPushTime` is the array as a whole. -/
structure ParseClientInternal where
  applicationId : CString
  installationId : CString
  callback : Bool
  socketHandle : Int
  nFailedPing : Int
  lastPushTime : List Byte
  deriving DecidableEq

/-- What a call does outside the buffer and the client. -/
inductive Event where
  | callback (error : Int) (message : Option CString)
  | saveClientState
  | socketWrite (socketHandle : Int) (sendBuffer : List Byte)
  | socketClose (socketHandle : Int)
  | updateLastPingTime
  deriving DecidableEq

/-- The string of an event that passes one to the callback with error zero. -/
def Event.delivered : Event → Option (List Byte)
  | .callback error message => if error = 0 then message.map CString.bytes else none
  | _ => none

/-- The callback is called if one is set. -/
def ParseClientInternal.call (client : ParseClientInternal) (error : Int)
    (message : Option CString) : List Event :=
  if client.callback then [.callback error message] else []

def parseSetPushCallback (client : ParseClientInternal) (callback : Bool) :
    ParseClientInternal :=
  { client with callback }

/-- `pushDataBuffer` and `pushDataBufferUsed`. -/
abbrev PushDataBuffer := PushBuffer 1024

/-- The results of a `getPushJson`, and the fill count at that moment. -/
structure Look where
  start : Int
  length : Int
  used : Int
  deriving DecidableEq, Repr

/-- What a call returns and does. -/
structure Outcome where
  result : Int
  client : ParseClientInternal
  events : List Event
  received : List Byte
  looks : List Look
  writes : List Extent

def Outcome.delivered (out : Outcome) : List (List Byte) := out.events.filterMap Event.delivered

/-! ## Starting and stopping -/

/-- What `parseStartPushService` meets: the identifier of the client once `getInstallation` has
asked for it, what `socketSslConnect` returns, and what `send` answers. -/
structure Surroundings where
  installationId : CString
  socketHandle : Int
  send : Int

/-- The first line sent on a new connection. -/
def handshake (client : ParseClientInternal) : List Byte :=
  let time := (CString.ofMemory client.lastPushTime).bytes
  let quote := if time.length > 0 then ascii "\"" else []
  snprintf (1024 - 1) (ascii "\x7b\"installation_id\":\"" ++ client.installationId.bytes ++
    ascii "\", \"oauth_key\":\"" ++ client.applicationId.bytes ++
    ascii "\", \"v\": \"e1.0.0\", \"last\": " ++
    (quote ++ (if time.length > 0 then time else ascii "null") ++ quote) ++ ascii "\x7d\r\n")

/-- The handshake is built in the receive buffer. -/
def buildHandshake (buffer : PushDataBuffer) (client : ParseClientInternal) : PushDataBuffer :=
  { buffer with data := buffer.data.store 0 (handshake client ++ [Byte.nul]) }

def parseStartPushService (buffer : PushDataBuffer) (client : ParseClientInternal)
    (around : Surroundings) : PushDataBuffer × Outcome :=
  let client := { client with installationId := around.installationId }
  let socketHandle := around.socketHandle
  if socketHandle ≥ 0 then
    let writes := [⟨0, (handshake client).length + 1⟩]
    let sent := Event.socketWrite socketHandle (handshake client)
    let status := socketWrite socketHandle (handshake client) around.send
    if status < 0 then
      (buildHandshake buffer client,
        ⟨status, client, sent :: .socketClose socketHandle :: client.call status none, [], [],
          writes⟩)
    else
      (buildHandshake buffer client,
        ⟨status, { client with socketHandle }, [sent], [], [], writes⟩)
  else (buffer, ⟨socketHandle, client, client.call socketHandle none, [], [], []⟩)

def parseStopPushService (client : ParseClientInternal) : ParseClientInternal × List Event :=
  ({ client with socketHandle := -1, nFailedPing := 0, callback := false },
    [.socketClose client.socketHandle])

/-! ## Receiving -/

/-- The local variables of the receive loop, the bytes received in it, the looks and the ranges
written. -/
structure Loop where
  buffer : PushDataBuffer
  length : Int
  start : Int
  message : Option Nat
  received : List Byte
  looks : List Look
  writes : List Extent

def Loop.begin (buffer : PushDataBuffer) : Loop := ⟨buffer, -1, 0, none, [], [], []⟩

/-- `while ((length == -1) && (pushDataBufferUsed < sizeof(pushDataBuffer)))`: a `size_t` has 32
bits. -/
def Loop.goesOn (loop : Loop) : Bool :=
  loop.length = -1 ∧ toSizeT .bits32 loop.buffer.used < 1024

/-- The `socketRead` of the loop. -/
def Loop.socketRead (socketHandle : Int) (rounds : List SocketRound) (loop : Loop) :
    Reading 1024 × Int :=
  Rtos.socketRead socketHandle loop.buffer.data loop.buffer.used.toNat
    (toSizeT .bits32 (1024 - loop.buffer.used)) rounds

/-- The memory that a read without bytes leaves. -/
def Loop.noBytes (reading : Reading 1024) (loop : Loop) : Loop :=
  { loop with
    buffer := { loop.buffer with data := reading.memory }
    writes := loop.writes ++ reading.writes }

/-- A read has `len` bytes: they are looked through for a message. -/
def Loop.look (reading : Reading 1024) (len : Int) (loop : Loop) : Loop :=
  let buffer : PushDataBuffer := ⟨reading.memory, loop.buffer.used + len⟩
  let found := buffer.pushJson
  { buffer
    length := found.length
    start := found.start
    message := found.json.map fun _ => found.start.toNat
    received := loop.received ++ reading.bytes
    looks := loop.looks ++ [⟨found.start, found.length, buffer.used⟩]
    writes := loop.writes ++ reading.writes }

/-- The receive loop. Without rounds a read still stores its zeros. -/
def receiveLoop (socketHandle : Int) : List (List SocketRound) → Loop → Loop
  | [], loop =>
      if loop.goesOn then loop.noBytes (loop.socketRead socketHandle []).1 else loop
  | rounds :: reads, loop =>
      if loop.goesOn then
        let (reading, len) := loop.socketRead socketHandle rounds
        if len > 0 then receiveLoop socketHandle reads (loop.look reading len)
        else loop.noBytes reading
      else loop

/-! ## Processing -/

/-- The inputs of a call: the client, the answers of its socket, whether it is time for a ping,
and what `send` answers to it. -/
structure Call where
  client : ParseClientInternal
  reads : List (List SocketRound)
  isPingTime : Bool
  send : Int

/-- `{}`, a carriage return and a line feed. -/
def ping : List Byte := ascii "\x7b\x7d\r\n"

def sendPing (client : ParseClientInternal) (isPingTime : Bool) (send : Int) :
    ParseClientInternal × List Event :=
  if isPingTime then
    let sent := Event.socketWrite client.socketHandle ping
    let status := socketWrite client.socketHandle ping send
    if status < 0 then
      if client.nFailedPing > 20 then
        ({ client with socketHandle := -1 },
          sent :: (client.call (-1) none ++ [.socketClose client.socketHandle]))
      else ({ client with nFailedPing := client.nFailedPing + 1 }, [sent])
    else ({ client with nFailedPing := 0 }, [sent, .updateLastPingTime])
  else (client, [])

/-- The time of the message is copied to the client, and saved if it is there as a whole. -/
def rememberTime (client : ParseClientInternal) (message : CString) :
    ParseClientInternal × List Event :=
  match simpleJsonProcessor message (CString.literal "time") (some client.lastPushTime)
    PUSH_TIME_MAX_LEN with
  | .ok ⟨result, some lastPushTime⟩ =>
      ({ client with lastPushTime }, if result ≠ 0 then [.saveClientState] else [])
  | _ => (client, [])

/-- The branch for a message at this index. -/
def processMessage (client : ParseClientInternal) (loop : Loop) (index : Nat) :
    PushDataBuffer × Outcome :=
  let length := loop.length.toNat
  let buffer := loop.buffer.terminate (index + length)
  let message := buffer.string index
  let (client, saved) := rememberTime client message
  let rest := buffer.consume length
  (rest,
    { result := if rest.used > 0 then 1 else 0
      client
      events := saved ++ if isHeartbeat message then [] else client.call 0 (some message)
      received := loop.received
      looks := loop.looks
      writes := loop.writes ++ (⟨index + length, 1⟩ :: buffer.moved length) })

/-- Behind the branch for a message: nothing has been found. -/
def processNothing (call : Call) (loop : Loop) : PushDataBuffer × Outcome :=
  let (client, events) := sendPing call.client call.isPingTime call.send
  (loop.buffer, ⟨0, client, events, loop.received, loop.looks, loop.writes⟩)

/-- The call once its receive loop has ended. -/
def processReceived (call : Call) (loop : Loop) : PushDataBuffer × Outcome :=
  if loop.length = -1 ∧ toSizeT .bits32 loop.buffer.used = 1024 then
    -- a message bigger than the buffer is dropped
    ({ loop.buffer with used := 0 },
      ⟨0, call.client, [], loop.received, loop.looks, loop.writes⟩)
  else
    match loop.message with
    | some index =>
        if loop.length > 0 then processMessage call.client loop index
        else processNothing call loop
    | none => processNothing call loop

def parseProcessNextPushNotification (buffer : PushDataBuffer) (call : Call) :
    PushDataBuffer × Outcome :=
  if call.client.socketHandle > 0 then
    processReceived call (receiveLoop call.client.socketHandle call.reads (.begin buffer))
  else (buffer, ⟨0, call.client, [], [], [], []⟩)

end ParseEmbedded.Rtos
