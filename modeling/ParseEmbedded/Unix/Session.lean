import ParseEmbedded.Unix.KeyStore
import ParseEmbedded.Unix.Request

/-!
# Installations and sessions on Unix

`parseInitialize`, `parseSetInstallationId`, `parseSetSessionToken` and `parseSendRequest` of
`parse.c` as operations on a `Process`, the client together with the key store. The functions of
the push service and of requests record what they store as events; here the events reach the
files, and what those functions take as an input, the stored identifier, is loaded from them.

`parseInitialize` loads its three values through one buffer of 40 bytes on the stack. A value of
40 bytes or more fills it, and the string then goes on with the bytes of the stack behind it.
-/

set_option autoImplicit false

namespace ParseEmbedded.Unix

open SimpleJson Push

def PARSE_SESSION_TOKEN : CString := CString.literal "sessionToken"

/-- A client, with the static directory of its process and the files. -/
structure Process where
  client : Client
  store : KeyStore

/-- What a call meets: the surroundings of the push service, and libcurl in the request for a new
installation and in the request of the call itself. -/
structure Outside where
  around : Surroundings
  creating : Libcurl
  curl : Libcurl

/-- Stores the values that the events of a call store. -/
def storeEvents (homedir : List Byte) (store : KeyStore) (events : List Event) : KeyStore :=
  events.foldl
    (fun store event =>
      match event with
      | .storeKey applicationId key value => parseOsStoreKey homedir store applicationId key value
      | _ => store) store

/-- The identifier that is loaded into `char id[37] = {0}`. -/
def loadInstallationId (homedir : List Byte) (store : KeyStore) (applicationId : CString) :
    KeyStore × CString :=
  let (store, id) := parseOsLoadKey homedir store applicationId PARSE_INSTALLATION_ID
    (List.replicate 37 Byte.nul)
  (store, CString.ofMemory id)

namespace Process

variable (word : WordSize) (homedir : List Byte) (p : Process)

/-- The client and the events of a call that may store an identifier and send a request for the
installation. -/
def register (internal : ParseClientInternal) (events : List Event) (curl : Libcurl) : Process :=
  let client := { p.client with toParseClientInternal := internal }
  let store := storeEvents homedir p.store events
  match events.findSome? Event.request with
  | some (httpVerb, httpPath, requestBody) =>
      let request := parseSendRequestInternal word client httpVerb httpPath (some requestBody)
        false curl
      ⟨request.calls.foldl setInstallationCallback client, store⟩
  | none => ⟨client, store⟩

/-- `parseCreateInstallationIdIfNeeded` -/
def createInstallationIdIfNeeded (outside : Outside) : Process :=
  match p.client.installationId with
  | some _ => p
  | none =>
      let (store, storedId) := loadInstallationId homedir p.store p.client.applicationId
      let (internal, events) := parseCreateInstallationIdIfNeeded p.client.toParseClientInternal
        { outside.around with storedId }
      register word homedir ⟨p.client, store⟩ internal events outside.creating

/-- `parseSetInstallationId` -/
def setInstallationId (installationId : Option CString) (curl : Libcurl) : Process :=
  match installationId with
  | some id =>
      let (internal, events) := parseSetInstallationId p.client.toParseClientInternal id
      p.register word homedir internal events curl
  | none =>
      ⟨{ p.client with installationId := none },
        parseOsClearKey homedir p.store p.client.applicationId PARSE_INSTALLATION_ID⟩

/-- `parseSendRequest` -/
def sendRequest (httpVerb httpPath : CString) (requestBody : Option CString) (outside : Outside) :
    Process × Request :=
  let p := p.createInstallationIdIfNeeded word homedir outside
  (p, parseSendRequestInternal word p.client httpVerb httpPath requestBody true outside.curl)

/-- `getSessionObjectCallback`: a session without an installation is associated with this one,
by a request without a callback. A session of another installation is only logged. -/
def getSessionObjectCallback (outside : Outside) (call : RequestCall) : Process :=
  match call.error, call.httpResponseBody with
  | 0, some body =>
      match simpleJsonProcessor body (CString.literal "objectId") (some (List.replicate 16 0)) 16,
        simpleJsonProcessor body (CString.literal "installationId") (some (List.replicate 40 0))
          40 with
      | .ok session, .ok installation =>
          if session.result ≠ 0 ∧ installation.result = 0 then
            (p.sendRequest word homedir (CString.literal "PUT") (CString.literal "/sessions/me")
              (some (CString.literal "\x7b\x7d")) outside).1
          else p
      | _, _ => p
  | _, _ => p

/-- `parseSetSessionToken` -/
def setSessionToken (sessionToken : Option CString) (outside : Outside) : Process :=
  match sessionToken with
  | some token =>
      let p := p.createInstallationIdIfNeeded word homedir outside
      let p : Process :=
        ⟨{ p.client with sessionToken := some token },
          parseOsStoreKey homedir p.store p.client.applicationId PARSE_SESSION_TOKEN token⟩
      let (p, request) := p.sendRequest word homedir (CString.literal "GET")
        (CString.literal "/sessions/me") none outside
      request.calls.foldl (fun p call => p.getSessionObjectCallback word homedir outside call) p
  | none =>
      ⟨{ p.client with sessionToken := none },
        parseOsClearKey homedir p.store p.client.applicationId PARSE_SESSION_TOKEN⟩

/-- `parseStartPushService` -/
def startPushService (outside : Outside) : Process :=
  match p.client.pushCurlHandle, p.client.installationId with
  | none, none =>
      let (store, storedId) := loadInstallationId homedir p.store p.client.applicationId
      let started := parseStartPushService p.client.toParseClientInternal
        { outside.around with storedId }
      register word homedir ⟨p.client, store⟩ started.client started.events outside.creating
  | _, _ =>
      let started := parseStartPushService p.client.toParseClientInternal outside.around
      p.register word homedir started.client started.events outside.creating

/-- `parseStopPushService` -/
def stopPushService : Process :=
  { p with client :=
      { p.client with
        toParseClientInternal := (parseStopPushService p.client.toParseClientInternal).1 } }

/-- `parseProcessNextPushNotification`, with the buffer of the process. -/
def processNextPushNotification (buffer : ReceiveBuffer) (answers : List RecvAnswer)
    (seconds : Nat) : Process × ReceiveBuffer :=
  let (buffer, out) := parseProcessNextPushNotification word buffer
    ⟨p.client.toParseClientInternal, answers, seconds⟩
  (⟨{ p.client with toParseClientInternal := out.client },
    storeEvents homedir p.store out.events⟩, buffer)

end Process

/-! ## Starting a client -/

/-- What `parseInitialize` meets: its other arguments, the version of the system, the bytes that
`char temp[40]` holds at first, those of the stack behind it when each of the three values has
been loaded, and what its two calls meet. A fresh identifier is not empty. -/
structure Start where
  clientKey : Option CString
  serverURL : Option CString
  osVersion : CString
  temp : Block Byte 40
  behindId : List Byte
  behindToken : List Byte
  behindTime : List Byte
  setting : Libcurl
  outside : Outside
  identifies : outside.around.uuid.bytes ≠ []

/-- The client before anything is loaded. -/
def newClient (applicationId : CString) (start : Start) : Client where
  applicationId
  installationId := none
  lastPushTime := none
  pushCallback := false
  pushCurlHandle := none
  lastHearbeat := 0
  clientKey := start.clientKey
  objectId := none
  sessionToken := none
  osVersion := start.osVersion
  serverURL := start.serverURL.getD PARSE_DEFAULT_SERVER_URL

/-- `parseInitializeWithServerURL` -/
def parseInitializeWithServerURL (word : WordSize) (homedir : List Byte) (store : KeyStore)
    (applicationId : CString) (start : Start) : Process :=
  let (store, temp) := parseOsLoadKey homedir store applicationId PARSE_INSTALLATION_ID
    start.temp.cells
  let p : Process := ⟨newClient applicationId start, store⟩
  let p := if temp.headD Byte.nul ≠ Byte.nul then
      p.setInstallationId word homedir (some (CString.ofMemory (temp ++ start.behindId)))
        start.setting
    else p
  let (store, temp) := parseOsLoadKey homedir p.store applicationId PARSE_SESSION_TOKEN temp
  let p : Process := { p with store }
  let p := if temp.headD Byte.nul ≠ Byte.nul then
      p.setSessionToken word homedir (some (CString.ofMemory (temp ++ start.behindToken)))
        start.outside
    else p
  let (store, temp) := parseOsLoadKey homedir p.store applicationId PARSE_LAST_PUSH_TIME temp
  let p : Process := { p with store }
  if temp.headD Byte.nul ≠ Byte.nul then
    { p with client :=
        { p.client with lastPushTime := some (CString.ofMemory (temp ++ start.behindTime)) } }
  else p

end ParseEmbedded.Unix
