import ParseEmbedded.Unix.Push

/-!
# Requests on Unix

`parseSendRequest`, `parseSendRequestInternal` and the write callback `curlDataCallback` of
`parse.c`. The answers of libcurl and of `calloc` are an input of a request, `Libcurl`. The part
of it that `curl_easy_perform` plays is a `Transfer`: libcurl hands the body over in pieces, by
one call of the write callback for each, and the pieces are what it says they are, so a transfer
that succeeds has handed over the body as a whole.

A request is the list of its calls of libcurl, in their order, and the list of its calls of the
request callback.
-/

set_option autoImplicit false

namespace ParseEmbedded.Unix

open SimpleJson Push

/-! ## The client -/

def PARSE_DEFAULT_SERVER_URL : CString := CString.literal "https://api.parse.com/1"

/-- `VERSION` of the package. -/
def VERSION : List Byte := ascii "1.0.5"

/-- `errno` when there is no memory. -/
abbrev ENOMEM : Int := 12

abbrev CURLE_OPERATION_TIMEDOUT : Int := 28

abbrev CURLE_ABORTED_BY_CALLBACK : Int := 42

/-- The client with the fields that requests work with. -/
structure Client extends ParseClientInternal where
  clientKey : Option CString
  objectId : Option CString
  sessionToken : Option CString
  osVersion : CString
  serverURL : CString
  deriving DecidableEq

/-! ## What libcurl does -/

/-- An option of a transfer with its value. -/
inductive Setting where
  | customRequest (httpVerb : CString)
  | postFields (requestBody : CString)
  | postFieldSize (size : Nat)
  | url (fullUrl : List Byte)
  | httpHeader (headers : List (List Byte))
  | writeFunction
  | writeData
  | noProgress
  | xferInfoData (secondsSinceBoot : Nat)
  | xferInfoFunction
  deriving DecidableEq

/-- A call of libcurl. -/
inductive CurlCall where
  | init
  | setopt (setting : Setting)
  | perform
  | cleanup
  | freeHeaders
  deriving DecidableEq

/-- A call of the write callback: the bytes, and whether there is memory for a copy of them. -/
structure Piece where
  bytes : List Byte
  memory : Bool
  deriving DecidableEq

/-- A call of the request callback. -/
structure RequestCall where
  error : Int
  httpStatus : Int
  httpResponseBody : Option CString
  deriving DecidableEq

/-- `curlDataCallback`, for a transfer with this response code: what it tells the request
callback, and the number of bytes it says it has taken. -/
def curlDataCallback (code : Int) (piece : Piece) : RequestCall × Nat :=
  if piece.memory then
    (⟨0, code, some (CString.ofMemory (piece.bytes ++ [Byte.nul]))⟩, piece.bytes.length)
  else (⟨ENOMEM, 0, none⟩, 0)

/-- The write callback takes the piece. -/
def Piece.Taken (piece : Piece) : Prop := (curlDataCallback 0 piece).2 = piece.bytes.length

/-- The course of a `curl_easy_perform`: the body that the server sends, the pieces of it that
are handed over, and the result. libcurl gives up at a piece that is not taken. -/
structure Transfer where
  body : List Byte
  code : Int
  pieces : List Piece
  result : Int
  arrived : (pieces.map Piece.bytes).flatten <+: body
  complete : result = CURLE_OK → (pieces.map Piece.bytes).flatten = body
  taken : result = CURLE_OK → ∀ piece ∈ pieces, piece.Taken

/-- What a request meets: whether `curl_easy_init` and the `calloc` of the address succeed, the
results of `curl_easy_setopt`, the time, and the course of the transfer. -/
structure Libcurl where
  init : Bool
  memory : Bool
  setopt : Setting → Int
  seconds : Nat
  transfer : Transfer

/-- The first result of `curl_easy_setopt` that is not `CURLE_OK`. -/
def Libcurl.failure (curl : Libcurl) : List Setting → Option Int
  | [] => none
  | setting :: settings =>
      if curl.setopt setting ≠ CURLE_OK then some (curl.setopt setting)
      else curl.failure settings

/-- The settings up to the first one that fails. -/
def Libcurl.tried (curl : Libcurl) : List Setting → List CurlCall
  | [] => []
  | setting :: settings =>
      .setopt setting ::
        if curl.setopt setting ≠ CURLE_OK then [] else curl.tried settings

/-! ## Sending a request -/

/-- `strncmp(httpVerb, "GET", sizeof("GET")) == 0` -/
def isGet (httpVerb : CString) : Bool := httpVerb = CString.literal "GET"

/-- `int` arithmetic wraps around. -/
def toInt (n : Nat) : Int := (n + 2147483648 : Int) % 4294967296 - 2147483648

/-- The address: `calloc` of `urlSize + 1` bytes, and bounded appends to it. -/
def buildUrl (word : WordSize) (client : Client) (httpPath : CString)
    (query : Option CString) : List Byte :=
  let urlSize := toInt (client.serverURL.length + (httpPath.length + 1) +
    (match query with
      | some requestBody => requestBody.length + 1
      | none => 0))
  let left (url : List Byte) : Nat := toSizeT word (urlSize - url.length)
  let fullUrl := strncat [] client.serverURL.bytes (left [])
  let fullUrl := strncat fullUrl httpPath.bytes (left fullUrl)
  match query with
  | some requestBody =>
      let fullUrl := strncat fullUrl (ascii "?") (left fullUrl)
      strncat fullUrl requestBody.bytes (left fullUrl)
  | none => fullUrl

/-- A header line, built in `char header[128]`. -/
def header (name : String) (value : List Byte) : List Byte :=
  snprintf 128 (ascii name ++ ascii ": " ++ value)

def buildHeaders (client : Client) (useInstallationIdHeader : Bool) : List (List Byte) :=
  [header "X-Parse-Application-Id" client.applicationId.bytes,
    header "X-Parse-Client-Version" (ascii "c-embedded-" ++ VERSION),
    header "X-Parse-OS-Version" client.osVersion.bytes] ++
  (match client.clientKey with
    | some clientKey => [header "X-Parse-Client-Key" clientKey.bytes]
    | none => []) ++
  (match client.installationId with
    | some installationId =>
        if useInstallationIdHeader then [header "X-Parse-Installation-Id" installationId.bytes]
        else []
    | none => []) ++
  (match client.sessionToken with
    | some sessionToken => [header "X-Parse-Session-Token" sessionToken.bytes]
    | none => []) ++
  [ascii "Content-Type: application/json; charset=utf-8", ascii "Connection: close",
    ascii "Accept:"]

/-- The settings in front of the `calloc` of the address. -/
def requestSettings (httpVerb : CString) (requestBody : Option CString) : List Setting :=
  .customRequest httpVerb ::
    match requestBody with
    | some requestBody =>
        if isGet httpVerb then [] else [.postFields requestBody, .postFieldSize requestBody.length]
    | none => []

/-- The settings behind it. -/
def transferSettings (word : WordSize) (client : Client) (httpVerb httpPath : CString)
    (requestBody : Option CString) (useInstallationIdHeader : Bool) (seconds : Nat) :
    List Setting :=
  [.url (buildUrl word client httpPath (if isGet httpVerb then requestBody else none)),
    .httpHeader (buildHeaders client useInstallationIdHeader),
    .writeFunction, .writeData, .noProgress, .xferInfoData seconds, .xferInfoFunction]

/-- What a request does: its calls of libcurl and of the request callback. -/
structure Request where
  curlCalls : List CurlCall
  calls : List RequestCall

/-- The request is given up before the transfer. -/
def Request.giveUp (curlCalls : List CurlCall) (error : Int) : Request :=
  ⟨curlCalls, [⟨error, 0, none⟩]⟩

/-- `curl_easy_perform`, and what follows it. -/
def Request.perform (curlCalls : List CurlCall) (transfer : Transfer) : Request :=
  let received := transfer.pieces.map fun piece => (curlDataCallback transfer.code piece).1
  if transfer.result ≠ CURLE_OK then
    -- the progress function aborts a transfer that takes too long
    let error := if transfer.result = CURLE_ABORTED_BY_CALLBACK then CURLE_OPERATION_TIMEDOUT
      else transfer.result
    ⟨curlCalls ++ [.perform], received ++ [⟨error, 0, none⟩]⟩
  else ⟨curlCalls ++ [.perform, .cleanup, .freeHeaders], received⟩

/-- `parseSendRequestInternal`, with a callback. -/
def parseSendRequestInternal (word : WordSize) (client : Client) (httpVerb httpPath : CString)
    (requestBody : Option CString) (useInstallationIdHeader : Bool) (curl : Libcurl) : Request :=
  let first := requestSettings httpVerb requestBody
  let second := transferSettings word client httpVerb httpPath requestBody
    useInstallationIdHeader curl.seconds
  if !curl.init then .giveUp [.init] CURLE_FAILED_INIT
  else
    match curl.failure first with
    | some error => .giveUp (.init :: curl.tried first) error
    | none =>
        if !curl.memory then .giveUp (.init :: curl.tried first) ENOMEM
        else
          match curl.failure second with
          | some error => .giveUp (.init :: (curl.tried first ++ curl.tried second)) error
          | none => .perform (.init :: (curl.tried first ++ curl.tried second)) curl.transfer

/-- `setInstallationCallback`: the object identifier in an answer is kept. -/
def setInstallationCallback (client : Client) (call : RequestCall) : Client :=
  match call.error, call.httpResponseBody with
  | 0, some body =>
      match simpleJsonProcessor body (CString.literal "objectId")
          (some (List.replicate 64 0)) 64 with
      | .ok ⟨result, some value⟩ =>
          if result ≠ 0 then { client with objectId := some (CString.ofMemory value) } else client
      | _ => client
  | _, _ => client

/-- What `parseSendRequest` meets: what `parseCreateInstallationIdIfNeeded` meets, and libcurl in
the request that this may send and in the request itself. -/
structure Sending where
  around : Surroundings
  creating : Libcurl
  curl : Libcurl

/-- What `parseSendRequest` does. The request for a new installation has a callback of its own. -/
structure Sent where
  client : Client
  events : List Event
  installation : Option Request
  request : Request

/-- The verb, the path and the body of a request among the events of a call. -/
def Event.request : Event → Option (CString × CString × CString)
  | .sendRequest httpVerb httpPath requestBody => some (httpVerb, httpPath, requestBody)
  | _ => none

/-- `parseCreateInstallationIdIfNeeded` with its request. -/
def createInstallation (word : WordSize) (client : Client) (around : Surroundings)
    (curl : Libcurl) : Client × List Event × Option Request :=
  let (internal, events) := parseCreateInstallationIdIfNeeded client.toParseClientInternal around
  let client := { client with toParseClientInternal := internal }
  match events.findSome? Event.request with
  | some (httpVerb, httpPath, requestBody) =>
      let request := parseSendRequestInternal word client httpVerb httpPath (some requestBody)
        false curl
      (request.calls.foldl setInstallationCallback client, events, some request)
  | none => (client, events, none)

/-- `parseSendRequest`, with a callback. -/
def parseSendRequest (word : WordSize) (client : Client) (httpVerb httpPath : CString)
    (requestBody : Option CString) (sending : Sending) : Sent :=
  let (client, events, installation) :=
    createInstallation word client sending.around sending.creating
  ⟨client, events, installation,
    parseSendRequestInternal word client httpVerb httpPath requestBody true sending.curl⟩

/-! ## What a request tells its callback -/

/-- One call, with an error, or with the body as a whole. -/
def CalledOnce (body : List Byte) (calls : List RequestCall) : Prop :=
  ∃ call, calls = [call] ∧
    (call.error ≠ 0 ∨ call.error = 0 ∧ call.httpResponseBody.map CString.bytes = some body)

/-- The request gets as far as `curl_easy_perform`. -/
structure Libcurl.Performs (curl : Libcurl) (first second : List Setting) : Prop where
  init : curl.init = true
  first : curl.failure first = none
  memory : curl.memory = true
  second : curl.failure second = none

/-- The transfer is in one piece: it fails before it hands anything over, or it hands over the
body by one call of the write callback, which copies it, and the body is a string. -/
def Transfer.InOnePiece (transfer : Transfer) : Prop :=
  if transfer.result = CURLE_OK then
    ∃ piece, transfer.pieces = [piece] ∧ (piece.memory = true → Byte.nul ∉ transfer.body)
  else transfer.pieces = []

/-- A setting that fails, fails with an error. -/
theorem Libcurl.failure_ne_zero (curl : Libcurl) {settings : List Setting} {error : Int}
    (fails : curl.failure settings = some error) : error ≠ 0 := by
  induction settings with
  | nil => exact absurd fails (Option.some_ne_none error).symm
  | cons setting settings ih =>
      rw [Libcurl.failure] at fails
      split at fails
      · rename_i notOk
        obtain rfl := Option.some.inj fails
        exact notOk
      · exact ih fails

theorem calledOnce_giveUp (body : List Byte) (curlCalls : List CurlCall) {error : Int}
    (nonzero : error ≠ 0) : CalledOnce body (Request.giveUp curlCalls error).calls :=
  ⟨_, rfl, Or.inl nonzero⟩

/-- What the write callback tells of the only piece of a body. -/
theorem calledOnce_piece_iff (code : Int) (piece : Piece) :
    CalledOnce piece.bytes [(curlDataCallback code piece).1] ↔
      (piece.memory = true → Byte.nul ∉ piece.bytes) := by
  cases memory : piece.memory with
  | false =>
      have told : (curlDataCallback code piece).1 = ⟨ENOMEM, 0, none⟩ := by
        simp [curlDataCallback, memory]
      rw [told]
      refine ⟨fun _ copied => absurd copied (by decide), fun _ => ⟨_, rfl, Or.inl ?_⟩⟩
      exact (by decide : ENOMEM ≠ 0)
  | true =>
      have told : (curlDataCallback code piece).1 =
          ⟨0, code, some (CString.ofMemory (piece.bytes ++ [Byte.nul]))⟩ := by
        simp [curlDataCallback, memory]
      rw [told]
      constructor
      · rintro ⟨call, single, error | ⟨-, whole⟩⟩ -
        · obtain rfl := List.singleton_inj.mp single
          exact absurd rfl error
        · obtain rfl := List.singleton_inj.mp single
          have same : (CString.ofMemory (piece.bytes ++ [Byte.nul])).bytes = piece.bytes :=
            Option.some.inj whole
          rw [← same]
          exact (CString.ofMemory _).noNul
      · intro noNul
        refine ⟨_, rfl, Or.inr ⟨rfl, ?_⟩⟩
        exact congrArg some (CString.ofMemory_append_nul (noNul rfl) [])

/-- **A transfer calls its callback once exactly when it is in one piece.** -/
theorem calledOnce_perform_iff (curlCalls : List CurlCall) (transfer : Transfer) :
    CalledOnce transfer.body (Request.perform curlCalls transfer).calls ↔
      transfer.InOnePiece := by
  by_cases ok : transfer.result = CURLE_OK
  · have calls : (Request.perform curlCalls transfer).calls =
        transfer.pieces.map fun piece => (curlDataCallback transfer.code piece).1 := by
      rw [Request.perform, if_neg (not_not.mpr ok)]
    rw [calls, Transfer.InOnePiece, if_pos ok]
    constructor
    · intro once
      have single : transfer.pieces.length = 1 := by
        obtain ⟨call, only, _⟩ := once
        simpa using congrArg List.length only
      obtain ⟨piece, only⟩ := List.length_eq_one_iff.mp single
      have whole : piece.bytes = transfer.body := by
        simpa [only] using transfer.complete ok
      rw [only, ← whole] at once
      refine ⟨piece, only, fun memory => ?_⟩
      rw [← whole]
      exact (calledOnce_piece_iff _ _).mp once memory
    · rintro ⟨piece, only, noNul⟩
      have whole : piece.bytes = transfer.body := by
        simpa [only] using transfer.complete ok
      rw [only, ← whole]
      rw [← whole] at noNul
      exact (calledOnce_piece_iff _ _).mpr noNul
  · have calls : ∃ error, error ≠ 0 ∧ (Request.perform curlCalls transfer).calls =
        (transfer.pieces.map fun piece => (curlDataCallback transfer.code piece).1) ++
          [⟨error, 0, none⟩] := by
      rw [Request.perform, if_pos ok]
      refine ⟨_, ?_, rfl⟩
      split
      · decide
      · exact ok
    obtain ⟨error, nonzero, calls⟩ := calls
    rw [calls, Transfer.InOnePiece, if_neg ok]
    constructor
    · rintro ⟨call, only, _⟩
      have length := congrArg List.length only
      simp only [List.length_append, List.length_map, List.length_singleton] at length
      exact List.length_eq_zero_iff.mp (by omega)
    · intro nothing
      rw [nothing]
      exact ⟨_, rfl, Or.inl nonzero⟩

/-- A request that does not get as far as the transfer has failed, and says so once. -/
theorem calledOnce_internal_iff (word : WordSize) (client : Client) (httpVerb httpPath : CString)
    (requestBody : Option CString) (useInstallationIdHeader : Bool) (curl : Libcurl) :
    CalledOnce curl.transfer.body
        (parseSendRequestInternal word client httpVerb httpPath requestBody
          useInstallationIdHeader curl).calls ↔
      (curl.Performs (requestSettings httpVerb requestBody)
          (transferSettings word client httpVerb httpPath requestBody useInstallationIdHeader
            curl.seconds) →
        curl.transfer.InOnePiece) := by
  simp only [parseSendRequestInternal]
  split
  · rename_i noHandle
    refine iff_of_true (calledOnce_giveUp _ _ (by decide)) fun performs => ?_
    exact absurd performs.init (by simpa using noHandle)
  · rename_i handle
    split
    · rename_i error fails
      refine iff_of_true (calledOnce_giveUp _ _ (curl.failure_ne_zero fails)) fun performs => ?_
      exact absurd (performs.first.symm.trans fails) (Option.some_ne_none error).symm
    · rename_i first
      split
      · rename_i noMemory
        refine iff_of_true (calledOnce_giveUp _ _ (by decide)) fun performs => ?_
        exact absurd performs.memory (by simpa using noMemory)
      · rename_i memory
        split
        · rename_i error fails
          refine iff_of_true (calledOnce_giveUp _ _ (curl.failure_ne_zero fails))
            fun performs => ?_
          exact absurd (performs.second.symm.trans fails) (Option.some_ne_none error).symm
        · rename_i second
          have performs : curl.Performs _ _ :=
            ⟨by simpa using handle, first, by simpa using memory, second⟩
          rw [calledOnce_perform_iff]
          exact ⟨fun inOne _ => inOne, fun inOne => inOne performs⟩

/-- **When the callback of a request is called exactly once.** With a non-zero error, or with
the complete body: exactly when the request does not get as far as its transfer, or the transfer
is in one piece. A body that libcurl hands over in two pieces calls it twice, an empty one that
libcurl does not hand over at all never does, and a transfer that breaks off behind a piece calls
it once more with the error. -/
theorem request_calls_back_once_iff (word : WordSize) (client : Client)
    (httpVerb httpPath : CString) (requestBody : Option CString) (sending : Sending) :
    CalledOnce sending.curl.transfer.body
        (parseSendRequest word client httpVerb httpPath requestBody sending).request.calls ↔
      (sending.curl.Performs (requestSettings httpVerb requestBody)
          (transferSettings word (createInstallation word client sending.around sending.creating).1
            httpVerb httpPath requestBody true sending.curl.seconds) →
        sending.curl.transfer.InOnePiece) :=
  calledOnce_internal_iff word _ httpVerb httpPath requestBody true sending.curl

section Example

/-- A body of three bytes that arrives as two bytes and one byte. -/
def splitTransfer : Transfer where
  body := ascii "abc"
  code := 200
  pieces := [⟨ascii "ab", true⟩, ⟨ascii "c", true⟩]
  result := CURLE_OK
  arrived := by decide
  complete := fun _ => by decide
  taken := fun _ piece member => by
    simp only [List.mem_cons, List.not_mem_nil, or_false] at member
    rcases member with rfl | rfl <;> rfl

def splitCurl : Libcurl := ⟨true, true, fun _ => CURLE_OK, 0, splitTransfer⟩

def splitClient : Client where
  applicationId := CString.literal "a"
  installationId := some (CString.literal "i")
  lastPushTime := none
  pushCallback := false
  pushCurlHandle := none
  lastHearbeat := 0
  clientKey := none
  objectId := none
  sessionToken := none
  osVersion := CString.literal "o"
  serverURL := PARSE_DEFAULT_SERVER_URL

def splitSending : Sending :=
  ⟨⟨CString.literal "", CString.literal "", none, 0, 0, 0, 0, 0⟩, splitCurl, splitCurl⟩

/-- Two pieces are two calls with error zero, neither with the body. -/
theorem request_calls_back_once_counterexample :
    (parseSendRequest .bits64 splitClient (CString.literal "GET") (CString.literal "/x") none
        splitSending).request.calls =
      [⟨0, 200, some (CString.literal "ab")⟩, ⟨0, 200, some (CString.literal "c")⟩] ∧
    ¬ CalledOnce splitSending.curl.transfer.body
      (parseSendRequest .bits64 splitClient (CString.literal "GET") (CString.literal "/x") none
        splitSending).request.calls := by
  have calls : (parseSendRequest .bits64 splitClient (CString.literal "GET")
      (CString.literal "/x") none splitSending).request.calls =
        [⟨0, 200, some (CString.literal "ab")⟩, ⟨0, 200, some (CString.literal "c")⟩] := by
    decide +kernel
  refine ⟨calls, ?_⟩
  rw [calls]
  rintro ⟨call, single, _⟩
  exact absurd (congrArg List.length single) (by simp)

end Example

end ParseEmbedded.Unix
