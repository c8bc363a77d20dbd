import ParseEmbedded.Rtos.Http

/-!
# Requests on an RTOS

`buildRequestHeaders`, `sendRequest` and `parseSendRequestInternal` of `request.c`. A request is
built in `dataBuffer`, which then takes the response; the answers of the network are an input.

`build_request_iff` says for which requests the buffer holds what `requestText` says a request is,
or an error is returned, and `response_complete_iff` when a response is passed on as a whole.
-/

set_option autoImplicit false

namespace ParseEmbedded.Rtos

open Push

def parseServer : CString := CString.literal "api.parse.com"

/-! ## Building a request -/

/-- `strncasecmp(httpVerb, "GET", 3) == 0` -/
def isGetRequest (httpVerb : CString) : Bool := sameIgnoringCase httpVerb (CString.literal "GET") 3

/-- The bytes of a string that may be missing. -/
def bytesOf (string : Option CString) : List Byte := (string.map CString.bytes).getD []

def Building.begin : Building where
  dataBuffer := Block.fill 1024 Byte.nul
  currentPosition := 0
  currentSize := 1023
  status := 0
  writes := [⟨0, 1024⟩]

/-- The request line and the headers. -/
def buildHead (libc : Libc) (client : Client) (host httpVerb : CString)
    (httpRequestBody : Option CString) (addInstallationHeader : Bool) : Building :=
  let header (name : String) (value : List Byte) :=
    Building.next (addHttpRequestHeader libc name value)
  let b := Building.begin.next
    (if isGetRequest httpVerb then beginHttpGetRequest libc host httpVerb (bytesOf httpRequestBody)
      else beginHttpRequest libc host httpVerb)
  let b := header "Host" parseServer.bytes b
  let b := header "User-Agent" (stringOf client.deviceClientVersion) b
  let b := header "X-Parse-OS-Version" (stringOf client.osVersion) b
  let b := header "X-Parse-Client-Version" (stringOf client.deviceClientVersion) b
  let b := header "X-Parse-Application-Id" (stringOf client.applicationId) b
  let b := header "X-Parse-Client-Key" (stringOf client.clientKey) b
  let b := if addInstallationHeader then
      header "X-Parse-Session-Token" (stringOf client.sessionToken)
        (header "X-Parse-Installation-Id" (stringOf client.installationId) b)
    else b
  if isGetRequest httpVerb ∨ bytesOf httpRequestBody = [] then b
  else
    Building.next
      (addHttpRequestHeaderInt libc "Content-Length" (toInt (bytesOf httpRequestBody).length))
      (header "Content-Type" (ascii "application/json; charset=utf-8") b)

/-- The zero behind the request. -/
def Building.finish (b : Building) : Building × Int :=
  if 0 ≤ b.status then
    let b := b.advance
    let place := toSizeT .bits32 b.currentPosition
    ({ b with
        dataBuffer := b.dataBuffer.store place [Byte.nul]
        writes := b.writes ++ [⟨place, 1⟩] }, b.currentPosition)
  else (b, b.status)

/-- The blank line and the body are appended by `snprintf` itself. -/
def buildRest (libc : Libc) (httpVerb : CString) (httpRequestBody : Option CString)
    (b : Building) : Building :=
  let b := b.next (Building.print libc (ascii "\r\n"))
  if isGetRequest httpVerb ∨ bytesOf httpRequestBody = [] then b
  else b.next (Building.print libc (bytesOf httpRequestBody))

def buildRequestHeaders (libc : Libc) (client : Client) (host httpVerb : CString)
    (httpRequestBody : Option CString) (addInstallationHeader : Bool) : Building × Int :=
  (buildRest libc httpVerb httpRequestBody
    (buildHead libc client host httpVerb httpRequestBody addInstallationHeader)).finish

/-! ## What a request is -/

/-- The headers of a request with this body. -/
def requestHeaders (client : Client) (addInstallationHeader : Bool) (body : List Byte) :
    List (String × List Byte) :=
  [("Host", parseServer.bytes),
    ("User-Agent", stringOf client.deviceClientVersion),
    ("X-Parse-OS-Version", stringOf client.osVersion),
    ("X-Parse-Client-Version", stringOf client.deviceClientVersion),
    ("X-Parse-Application-Id", stringOf client.applicationId),
    ("X-Parse-Client-Key", stringOf client.clientKey)] ++
  (if addInstallationHeader then
    [("X-Parse-Installation-Id", stringOf client.installationId),
      ("X-Parse-Session-Token", stringOf client.sessionToken)]
  else []) ++
  (if body = [] then []
  else
    [("Content-Type", ascii "application/json; charset=utf-8"),
      ("Content-Length", ascii (toString body.length))])

/-- The lines of the headers that have a value. -/
def headerLines (headers : List (String × List Byte)) : List Byte :=
  headers.flatMap fun header => headerLine header.1 header.2

/-- The query of a request, and its body: only one of them is there. -/
def requestQuery (httpVerb : CString) (httpRequestBody : Option CString) : List Byte :=
  if isGetRequest httpVerb then bytesOf httpRequestBody else []

def requestBody (httpVerb : CString) (httpRequestBody : Option CString) : List Byte :=
  if isGetRequest httpVerb then [] else bytesOf httpRequestBody

theorem requestBody_bodyless {httpVerb : CString} {httpRequestBody : Option CString}
    (bodyless : isGetRequest httpVerb ∨ bytesOf httpRequestBody = []) :
    requestBody httpVerb httpRequestBody = [] := by
  rw [requestBody]
  split
  · rfl
  · rename_i other
    exact bodyless.resolve_left other

def requestHead (client : Client) (host httpVerb : CString) (httpRequestBody : Option CString)
    (addInstallationHeader : Bool) : List Byte :=
  requestLine httpVerb host (requestQuery httpVerb httpRequestBody) ++
    headerLines
      (requestHeaders client addInstallationHeader (requestBody httpVerb httpRequestBody))

def requestText (client : Client) (host httpVerb : CString) (httpRequestBody : Option CString)
    (addInstallationHeader : Bool) : List Byte :=
  requestHead client host httpVerb httpRequestBody addInstallationHeader ++ ascii "\r\n" ++
    requestBody httpVerb httpRequestBody

/-- What is built is an error, or the text in front of the place that is returned, and every
store was inside. -/
def BuildsRequest (text : List Byte) (built : Building × Int) : Prop :=
  built.2 < 0 ∨
    (built.2 ≤ 1023 ∧ (∀ extent ∈ built.1.writes, extent.Inside 1024) ∧
      built.1.dataBuffer.cells.take built.2.toNat = text)

instance (text : List Byte) (built : Building × Int) : Decidable (BuildsRequest text built) :=
  inferInstanceAs (Decidable (_ ∨ _ ∧ _ ∧ _))

section Build

variable (libc : Libc) (client : Client) (host httpVerb : CString)
  (httpRequestBody : Option CString) (addInstallationHeader : Bool)

theorem begin_builds : Building.begin.Builds [] := by
  refine Or.inl ⟨Nat.zero_le _, ?_⟩
  exact ⟨Int.le_refl 0, Int.le_refl 0, rfl, rfl, Nat.zero_le _, rfl,
    List.forall_mem_singleton.mpr (Nat.le_refl 1024)⟩

/-- The request line and the headers are built, as long as the length of the body is an `int`. -/
theorem buildHead_builds : ∃ head,
    (buildHead libc client host httpVerb httpRequestBody addInstallationHeader).Builds head ∧
      ((requestBody httpVerb httpRequestBody).length ≤ 2147483647 →
        head = requestHead client host httpVerb httpRequestBody addInstallationHeader) := by
  have line : (Building.begin.next
      (if isGetRequest httpVerb then
        beginHttpGetRequest libc host httpVerb (bytesOf httpRequestBody)
      else beginHttpRequest libc host httpVerb)).Builds
      ([] ++ requestLine httpVerb host (requestQuery httpVerb httpRequestBody)) := by
    cases get : isGetRequest httpVerb with
    | true =>
        have query : requestQuery httpVerb httpRequestBody = bytesOf httpRequestBody := if_pos get
        rw [query]
        exact begin_builds.line libc _
    | false =>
        have query : requestQuery httpVerb httpRequestBody = [] := by
          rw [requestQuery, get, if_neg Bool.false_ne_true]
        rw [query]
        exact begin_builds.line libc _
  have common := (((((line.header libc "Host" parseServer.bytes).header libc "User-Agent"
    (stringOf client.deviceClientVersion)).header libc "X-Parse-OS-Version"
    (stringOf client.osVersion)).header libc "X-Parse-Client-Version"
    (stringOf client.deviceClientVersion)).header libc "X-Parse-Application-Id"
    (stringOf client.applicationId)).header libc "X-Parse-Client-Key" (stringOf client.clientKey)
  have installed := (common.header libc "X-Parse-Installation-Id"
    (stringOf client.installationId)).header libc "X-Parse-Session-Token"
    (stringOf client.sessionToken)
  have counted : ∀ {b : Building} {text : List Byte}, b.Builds text →
      ((b.next (addHttpRequestHeader libc "Content-Type"
        (ascii "application/json; charset=utf-8"))).next
        (addHttpRequestHeaderInt libc "Content-Length"
          (toInt (bytesOf httpRequestBody).length))).Builds _ := fun builds =>
    (builds.header libc "Content-Type" (ascii "application/json; charset=utf-8")).line libc
      (headerLine "Content-Length" (ascii (toString (toInt (bytesOf httpRequestBody).length))))
  rw [buildHead, requestHead, headerLines, requestHeaders]
  dsimp only
  by_cases bodyless : isGetRequest httpVerb ∨ bytesOf httpRequestBody = []
  · rw [if_pos bodyless, requestBody_bodyless bodyless]
    cases addInstallationHeader with
    | true =>
        refine ⟨_, installed, fun _ => ?_⟩
        simp only [if_true, List.flatMap_append, List.flatMap_cons, List.flatMap_nil,
          List.append_assoc, List.nil_append, List.append_nil]
    | false =>
        refine ⟨_, common, fun _ => ?_⟩
        simp only [if_true, Bool.false_eq_true, if_false, List.flatMap_cons, List.flatMap_nil,
          List.append_assoc, List.nil_append, List.append_nil]
  · have body : requestBody httpVerb httpRequestBody = bytesOf httpRequestBody :=
      if_neg (not_or.mp bodyless).1
    have nonempty := (not_or.mp bodyless).2
    have printed : (bytesOf httpRequestBody).length ≤ 2147483647 →
        toString (toInt (bytesOf httpRequestBody).length) =
          toString (bytesOf httpRequestBody).length := by
      intro small
      rw [toInt_of_small (by omega) (by omega)]
      rfl
    rw [if_neg bodyless, body, if_neg nonempty]
    cases addInstallationHeader with
    | true =>
        refine ⟨_, counted installed, fun small => ?_⟩
        rw [printed small]
        simp only [if_true, List.flatMap_append, List.flatMap_cons, List.flatMap_nil,
          List.append_assoc, List.nil_append, List.append_nil]
    | false =>
        refine ⟨_, counted common, fun small => ?_⟩
        rw [printed small]
        simp only [Bool.false_eq_true, if_false, List.flatMap_append,
          List.flatMap_cons, List.flatMap_nil, List.append_assoc, List.nil_append,
          List.append_nil]

end Build

/-! ## The end of a request -/

theorem toInt_of_large {i : Int} (low : 2147483648 ≤ i) (high : i < 4294967296) :
    toInt i < 0 := by
  rw [toInt, Int.bmod_def]
  split <;> omega

section Rest

variable (libc : Libc) {b : Building} {text : List Byte}

theorem Building.finish_failed (failed : b.status < 0) : b.finish.2 < 0 := by
  rw [Building.finish, if_neg (Int.not_le.mpr failed)]
  exact failed

theorem Building.finish_result (status : 0 ≤ b.status) :
    b.finish.2 = toInt (b.currentPosition + b.status) := by
  rw [Building.finish, if_pos status]
  rfl

/-- The status of `snprintf`, which moves nothing. -/
theorem Building.print_status (line : List Byte) (b : Building) :
    (b.print libc line).currentPosition = b.currentPosition ∧
      (b.print libc line).status =
        if libc.refusesHugeSizes ∧ INT_MAX < toSizeT .bits32 b.currentSize then -1
        else if line.length ≤ INT_MAX then (line.length : Int) else -1 := by
  rw [Building.print]
  dsimp only
  split <;> exact ⟨rfl, rfl⟩

/-- A text that has been built as a whole is a request. -/
theorem Building.Holds.finish (holds : b.Holds text) : BuildsRequest text b.finish := by
  obtain ⟨position, -⟩ := holds.advance
  have short := holds.short
  have place : toSizeT .bits32 b.advance.currentPosition = text.length := by
    rw [position, toSizeT_of_nonneg _ (by omega) (by omega)]
    omega
  rw [Building.finish, if_pos holds.status]
  dsimp only
  rw [place, position]
  refine Or.inr ⟨by omega, ?_, ?_⟩
  · refine List.forall_mem_append.mpr ⟨holds.writes, List.forall_mem_singleton.mpr ?_⟩
    simp only [Extent.Inside]
    omega
  · rw [Int.toNat_natCast]
    change (b.dataBuffer.store text.length [Byte.nul]).cells.take text.length = text
    rw [Block.take_store_before _ (Nat.le_refl _) (by omega), holds.stored]

/-- A text that goes on behind the buffer is reported only where its length is no `int`. -/
theorem Building.finish_beyond {total : Nat} (status : 0 ≤ b.status)
    (reached : b.currentPosition + b.status = total) (beyond : 1023 < total)
    (small : total < 4294967296) : BuildsRequest text b.finish ↔ 2147483648 ≤ total := by
  have result := Building.finish_result status
  rw [reached] at result
  rw [BuildsRequest, result]
  rcases Nat.lt_or_ge total 2147483648 with inside | wraps
  · rw [toInt_of_small (by omega) (by omega)]
    refine iff_of_false ?_ (Nat.not_le.mpr inside)
    rintro (negative | ⟨fits, -⟩)
    · omega
    · omega
  · exact iff_of_true (Or.inl (toInt_of_large (by omega) (by omega))) wraps

/-- A text that fills the buffer up to its last byte loses its own last byte. -/
theorem Building.Holds.print_last (holds : b.Holds text) {line : List Byte}
    (noNul : Byte.nul ∉ line) (fills : text.length + line.length = 1023) :
    ¬ BuildsRequest (text ++ line) (b.next (Building.print libc line)).finish := by
  obtain ⟨position, -⟩ := holds.advance
  have short := holds.short
  have small : (line.length : Int) ≤ INT_MAX := by
    change _ ≤ (2147483647 : Int)
    omega
  have printed := holds.print libc line
  rw [if_pos small] at printed
  have cut : (line.take (1022 - text.length)).length = 1022 - text.length := by
    rw [List.length_take]
    omega
  have inside : text.length + (line.take (1022 - text.length) ++ [Byte.nul]).length ≤ 1024 := by
    rw [List.length_append, List.length_singleton, cut]
    omega
  have stored := b.dataBuffer.take_store inside
  rw [holds.stored, List.length_append, List.length_singleton, cut,
    show text.length + (1022 - text.length + 1) = 1023 by omega] at stored
  have status : 0 ≤ (b.next (Building.print libc line)).status := by
    rw [Building.next, if_pos holds.status, printed]
    exact Int.natCast_nonneg _
  have result : (b.next (Building.print libc line)).finish.2 = 1023 := by
    rw [Building.finish_result status, Building.next, if_pos holds.status, printed]
    dsimp only
    rw [position, toInt_of_small (by omega) (by omega)]
    omega
  have memory : (b.next (Building.print libc line)).finish.1.dataBuffer.cells.take 1023 =
      text ++ (line.take (1022 - text.length) ++ [Byte.nul]) := by
    have place : toSizeT .bits32 (b.advance.print libc line).advance.currentPosition = 1023 := by
      rw [printed]
      change toSizeT .bits32 (toInt (b.advance.currentPosition + line.length)) = 1023
      rw [position, toInt_of_small (by omega) (by omega),
        toSizeT_of_nonneg _ (by omega) (by omega)]
      omega
    rw [Building.finish, if_pos status, Building.next, if_pos holds.status]
    dsimp only
    rw [place]
    change ((b.advance.print libc line).dataBuffer.store 1023 [Byte.nul]).cells.take 1023 = _
    rw [Block.take_store_before _ (Nat.le_refl _) (by omega), printed]
    exact stored
  rw [BuildsRequest, result]
  rintro (negative | ⟨-, -, same⟩)
  · exact absurd negative (by decide)
  · have last := List.append_cancel_left (memory.symm.trans same)
    refine noNul (last ▸ ?_)
    exact List.mem_append_right _ (List.mem_singleton_self _)

/-- Where the blank line leaves a request without room for it. -/
theorem Building.Holds.blank (holds : b.Holds text) :
    let b' := b.next (Building.print libc (ascii "\r\n"))
    b'.status = 2 ∧ b'.advance.currentPosition = text.length + 2 ∧
      b'.advance.currentSize = 1021 - text.length := by
  obtain ⟨position, size⟩ := holds.advance
  have short := holds.short
  have printed := holds.print libc (ascii "\r\n")
  rw [Building.next, if_pos holds.status, printed]
  have two : (if ((ascii "\r\n").length : Int) ≤ INT_MAX then ((ascii "\r\n").length : Int)
      else -1) = 2 := by
    decide
  refine ⟨two, ?_, ?_⟩
  · change toInt (b.advance.currentPosition + 2) = _
    rw [position]
    exact toInt_of_small (by omega) (by omega)
  · change toInt (b.advance.currentSize - 2) = _
    rw [size, toInt_of_small (by omega) (by omega)]
    omega

/-- A request without a body. -/
theorem bodyless_iff (holds : b.Holds text) :
    BuildsRequest (text ++ ascii "\r\n")
        (b.next (Building.print libc (ascii "\r\n"))).finish ↔ text.length + 2 ≤ 1022 := by
  have short := holds.short
  have length : (ascii "\r\n").length = 2 := by decide
  by_cases fits : text.length + 2 ≤ 1022
  · exact iff_of_true (holds.print_fits libc (by omega)).finish fits
  · refine iff_of_false ?_ fits
    rcases Nat.lt_or_ge (text.length + 2) 1024 with last | beyond
    · exact holds.print_last libc (by decide) (by omega)
    · obtain ⟨status, position, -⟩ := holds.blank libc
      have reached : (b.next (Building.print libc (ascii "\r\n"))).currentPosition + 2 =
          (text.length + 2 : Nat) := by
        rw [Building.next, if_pos holds.status, holds.print libc]
        change b.advance.currentPosition + 2 = _
        rw [holds.advance.1]
        rfl
      rw [Building.finish_beyond (by omega) (status.symm ▸ reached) (by omega) (by omega)]
      omega

/-- A request with a body whose length is no `int`. -/
theorem hugeBody_fails (holds : b.Holds text) {body : List Byte}
    (huge : 2147483647 < body.length) :
    ((b.next (Building.print libc (ascii "\r\n"))).next (Building.print libc body)).finish.2 <
      0 := by
  obtain ⟨status, -, -⟩ := holds.blank libc
  refine Building.finish_failed ?_
  rw [Building.next, if_pos (by omega), (Building.print_status libc body _).2]
  have large : ¬ (body.length : Int) ≤ INT_MAX := by
    change ¬ (_ ≤ (2147483647 : Int))
    omega
  rw [if_neg large, ite_self]
  decide

/-- A request with a body. -/
theorem withBody_iff (holds : b.Holds text) {body : List Byte} (noNul : Byte.nul ∉ body)
    (nonempty : body ≠ []) (small : body.length ≤ 2147483647) :
    BuildsRequest (text ++ ascii "\r\n" ++ body)
        ((b.next (Building.print libc (ascii "\r\n"))).next
          (Building.print libc body)).finish ↔
      text.length + 2 + body.length ≤ 1022 ∨ 2147483648 ≤ text.length + 2 + body.length ∨
        (libc.refusesHugeSizes = true ∧ text.length = 1022) := by
  have short := holds.short
  have some : 0 < body.length := List.length_pos_iff.mpr nonempty
  have length : (ascii "\r\n").length = 2 := by decide
  have isInt : (body.length : Int) ≤ INT_MAX := by
    change _ ≤ (2147483647 : Int)
    omega
  obtain ⟨status, position, size⟩ := holds.blank libc
  -- what the last append does where it is not refused
  have goesOn : ¬ (libc.refusesHugeSizes = true ∧ text.length = 1022) →
      1023 < text.length + 2 + body.length →
      (BuildsRequest (text ++ ascii "\r\n" ++ body)
        ((b.next (Building.print libc (ascii "\r\n"))).next
          (Building.print libc body)).finish ↔
        2147483648 ≤ text.length + 2 + body.length) := by
    intro accepted beyond
    obtain ⟨moved, printed⟩ := Building.print_status libc body
      (b.next (Building.print libc (ascii "\r\n"))).advance
    have allowed : ¬ (libc.refusesHugeSizes = true ∧ INT_MAX <
        toSizeT .bits32 (b.next (Building.print libc (ascii "\r\n"))).advance.currentSize) := by
      rintro ⟨refuses, huge⟩
      refine accepted ⟨refuses, ?_⟩
      change (2147483647 : Int) < _ at huge
      rw [size] at huge
      by_contra other
      rw [toSizeT_of_nonneg _ (by omega) (by omega)] at huge
      omega
    rw [if_neg allowed, if_pos isInt] at printed
    rw [Building.next, if_pos (by omega)]
    refine Building.finish_beyond (by omega) ?_ beyond (by omega)
    rw [moved, printed, position]
    omega
  by_cases fits : text.length + 2 ≤ 1022
  · have blank := holds.print_fits libc
      (show text.length + (ascii "\r\n").length ≤ 1022 by omega)
    have extended : (text ++ ascii "\r\n").length = text.length + 2 := by
      rw [List.length_append, length]
    rcases Nat.lt_trichotomy (text.length + 2 + body.length) 1023 with short | last | beyond
    · refine iff_of_true (blank.print_fits libc ?_).finish (Or.inl (by omega))
      omega
    · refine iff_of_false (blank.print_last libc noNul (by omega)) ?_
      omega
    · rw [goesOn (by omega) beyond]
      omega
  · by_cases refuses : libc.refusesHugeSizes = true ∧ text.length = 1022
    · refine iff_of_true (Or.inl (Building.finish_failed ?_)) (Or.inr (Or.inr refuses))
      have huge : libc.refusesHugeSizes = true ∧ INT_MAX <
          toSizeT .bits32 (b.next (Building.print libc (ascii "\r\n"))).advance.currentSize := by
        refine ⟨refuses.1, ?_⟩
        rw [size, refuses.2]
        decide
      rw [Building.next, if_pos (by omega), (Building.print_status libc body _).2, if_pos huge]
      decide
    · rw [goesOn refuses (by omega)]
      refine ⟨fun wraps => Or.inr (Or.inl wraps), ?_⟩
      rintro (inside | wraps | refused)
      · omega
      · exact wraps
      · exact absurd refused refuses

end Rest

/-- **For which requests the buffer holds the request.** `buildRequestHeaders` returns an error or
builds exactly the request, inside the buffer, if and only if the request line and the headers
do not fit, or the whole request has at most 1022 bytes, or so many that an `int` cannot count
them, or the library refuses the size of minus one that is left for a body behind 1022 bytes. -/
theorem build_request_iff (libc : Libc) (client : Client) (host httpVerb : CString)
    (httpRequestBody : Option CString) (addInstallationHeader : Bool) :
    let head := requestHead client host httpVerb httpRequestBody addInstallationHeader
    let text := requestText client host httpVerb httpRequestBody addInstallationHeader
    BuildsRequest text
        (buildRequestHeaders libc client host httpVerb httpRequestBody addInstallationHeader) ↔
      1022 < head.length ∨ text.length ≤ 1022 ∨ 2147483648 ≤ text.length ∨
        (libc.refusesHugeSizes = true ∧ head.length = 1022 ∧
          requestBody httpVerb httpRequestBody ≠ []) := by
  obtain ⟨head, builds, same⟩ :=
    buildHead_builds libc client host httpVerb httpRequestBody addInstallationHeader
  have length : (requestText client host httpVerb httpRequestBody addInstallationHeader).length =
      (requestHead client host httpVerb httpRequestBody addInstallationHeader).length + 2 +
        (requestBody httpVerb httpRequestBody).length := by
    rw [requestText, List.length_append, List.length_append]
    rfl
  dsimp only
  rw [length, buildRequestHeaders]
  generalize buildHead libc client host httpVerb httpRequestBody addInstallationHeader = b at *
  rw [buildRest]
  rcases builds with ⟨-, holds⟩ | ⟨long, failed⟩
  · by_cases bodyless : isGetRequest httpVerb ∨ bytesOf httpRequestBody = []
    · have empty := requestBody_bodyless bodyless
      obtain rfl := same (by rw [empty]; decide)
      have short := holds.short
      rw [if_pos bodyless, requestText, empty, List.append_nil, List.length_nil,
        bodyless_iff libc holds]
      have none : ¬ (([] : List Byte) ≠ []) := not_not.mpr rfl
      constructor
      · exact fun fits => Or.inr (Or.inl fits)
      · rintro (long | fits | huge | ⟨-, -, some⟩)
        · omega
        · exact fits
        · omega
        · exact absurd rfl some
    · have body : requestBody httpVerb httpRequestBody = bytesOf httpRequestBody :=
        if_neg (not_or.mp bodyless).1
      have nonempty := (not_or.mp bodyless).2
      have noNul : Byte.nul ∉ bytesOf httpRequestBody := by
        cases httpRequestBody with
        | none => exact List.not_mem_nil
        | some text => exact text.noNul
      rw [if_neg bodyless, requestText]
      rw [body] at same ⊢
      rcases Nat.lt_or_ge 2147483647 (bytesOf httpRequestBody).length with huge | small
      · refine iff_of_true (Or.inl (hugeBody_fails libc holds huge)) (Or.inr (Or.inr (Or.inl ?_)))
        omega
      · obtain rfl := same small
        have short := holds.short
        rw [withBody_iff libc holds noNul nonempty small]
        constructor
        · rintro (fits | wraps | ⟨refuses, last⟩)
          · exact Or.inr (Or.inl fits)
          · exact Or.inr (Or.inr (Or.inl wraps))
          · exact Or.inr (Or.inr (Or.inr ⟨refuses, last, nonempty⟩))
        · rintro (long | fits | wraps | ⟨refuses, last, -⟩)
          · omega
          · exact Or.inl fits
          · exact Or.inr (Or.inl wraps)
          · exact Or.inr (Or.inr ⟨refuses, last⟩)
  · have stays : ∀ append, b.next append = b := fun append => if_neg (by omega)
    rw [stays, stays, ite_self]
    refine iff_of_true (Or.inl (Building.finish_failed failed)) ?_
    rcases Nat.lt_or_ge 2147483647 (requestBody httpVerb httpRequestBody).length with huge | small
    · exact Or.inr (Or.inr (Or.inl (by omega)))
    · exact Or.inl (same small ▸ long)

/-! ## The head of a request -/

section Head

variable (libc : Libc) {b : Building} {n : Nat}

/-- An append leaves what stands in front of it alone. -/
theorem Building.print_keeps (before : n ≤ b.currentPosition) (inside : b.currentPosition ≤ 1024)
    (line : List Byte) :
    (b.print libc line).dataBuffer.cells.take n = b.dataBuffer.cells.take n := by
  have place : toSizeT .bits32 b.currentPosition = b.currentPosition.toNat :=
    toSizeT_of_nonneg _ (by omega) (by omega)
  rw [Building.print]
  dsimp only
  split
  · rfl
  · rw [place]
    exact Block.take_store_before _ (by omega) (by omega)

/-- So does the zero behind a request that is no error. -/
theorem Building.finish_keeps (before : n ≤ b.currentPosition) (short : n ≤ 1024)
    (small : b.currentPosition + b.status < 4294967296) (built : 0 ≤ b.finish.2) :
    b.finish.1.dataBuffer.cells.take n = b.dataBuffer.cells.take n := by
  by_cases status : 0 ≤ b.status
  · have result := Building.finish_result status
    rw [result] at built
    have isInt : b.currentPosition + b.status < 2147483648 := by
      by_contra large
      exact absurd built (Int.not_le.mpr (toInt_of_large (by omega) small))
    have whole : toInt (b.currentPosition + b.status) = b.currentPosition + b.status :=
      toInt_of_small (by omega) (by omega)
    have place : toSizeT .bits32 b.advance.currentPosition =
        (b.currentPosition + b.status).toNat := by
      change toSizeT .bits32 (toInt (b.currentPosition + b.status)) = _
      rw [whole, toSizeT_of_nonneg _ (by omega) (by omega)]
    rw [Building.finish, if_pos status]
    dsimp only
    rw [place]
    exact Block.take_store_before _ (by omega) short
  · exact absurd built (Int.not_le.mpr (Building.finish_failed (Int.not_le.mp status)))

/-- The status of an append is an `int`. -/
theorem Building.print_status_le (line : List Byte) (b : Building) :
    (b.print libc line).status ≤ INT_MAX := by
  rw [(Building.print_status libc line b).2]
  have negative : (-1 : Int) ≤ INT_MAX := by decide
  split
  · exact negative
  · split
    · rename_i small
      exact small
    · exact negative

/-- The blank line and the body leave the lines in front of them alone. -/
theorem Building.Holds.rest_keeps {text : List Byte} (holds : b.Holds text) (httpVerb : CString)
    (httpRequestBody : Option CString)
    (built : 0 ≤ (buildRest libc httpVerb httpRequestBody b).finish.2) :
    (buildRest libc httpVerb httpRequestBody b).finish.1.dataBuffer.cells.take text.length =
      text := by
  have short := holds.short
  obtain ⟨position, -⟩ := holds.advance
  obtain ⟨status, position', -⟩ := holds.blank libc
  have next : b.next (Building.print libc (ascii "\r\n")) =
      b.advance.print libc (ascii "\r\n") := if_pos holds.status
  have blank : (b.next (Building.print libc (ascii "\r\n"))).dataBuffer.cells.take text.length =
      text := by
    rw [next, Building.print_keeps libc (by omega) (by omega)]
    exact holds.stored
  have place : (b.next (Building.print libc (ascii "\r\n"))).currentPosition = text.length := by
    rw [next, (Building.print_status libc _ _).1, position]
  rw [buildRest] at built ⊢
  by_cases bodyless : isGetRequest httpVerb ∨ bytesOf httpRequestBody = []
  · rw [if_pos bodyless] at built ⊢
    rw [Building.finish_keeps (by omega) (by omega) (by omega) built]
    exact blank
  · rw [if_neg bodyless, Building.next, if_pos (by omega)] at built ⊢
    have moved := (Building.print_status libc (bytesOf httpRequestBody)
      (b.next (Building.print libc (ascii "\r\n"))).advance).1
    have printed : _ ≤ (2147483647 : Int) := Building.print_status_le libc
      (bytesOf httpRequestBody) (b.next (Building.print libc (ascii "\r\n"))).advance
    rw [Building.finish_keeps (by omega) (by omega) (by omega) built,
      Building.print_keeps libc (by omega) (by omega)]
    exact blank

/-- **The head of a request that is built.** Unless it is an error, the buffer begins with the
request line and the headers. -/
theorem buildRequestHeaders_head (client : Client) (host httpVerb : CString)
    (httpRequestBody : Option CString) (addInstallationHeader : Bool)
    (built : 0 ≤ (buildRequestHeaders libc client host httpVerb httpRequestBody
      addInstallationHeader).2) :
    requestHead client host httpVerb httpRequestBody addInstallationHeader <+:
      (buildRequestHeaders libc client host httpVerb httpRequestBody
        addInstallationHeader).1.dataBuffer.cells := by
  obtain ⟨head, builds, same⟩ :=
    buildHead_builds libc client host httpVerb httpRequestBody addInstallationHeader
  rw [buildRequestHeaders] at built ⊢
  generalize buildHead libc client host httpVerb httpRequestBody addInstallationHeader = b at *
  rcases builds with ⟨-, holds⟩ | ⟨-, failed⟩
  · have small : (requestBody httpVerb httpRequestBody).length ≤ 2147483647 := by
      by_contra huge
      by_cases get : isGetRequest httpVerb = true
      · rw [requestBody, if_pos get] at huge
        exact huge (Nat.zero_le _)
      · rw [requestBody, if_neg get] at huge
        have some : bytesOf httpRequestBody ≠ [] := by
          intro empty
          rw [empty] at huge
          exact huge (Nat.zero_le _)
        have fails := hugeBody_fails libc holds (Nat.lt_of_not_le huge)
        rw [buildRest, if_neg (not_or.mpr ⟨get, some⟩)] at built
        exact absurd built (Int.not_le.mpr fails)
    rw [← same small, List.prefix_iff_eq_take]
    exact (holds.rest_keeps libc httpVerb httpRequestBody built).symm
  · have stays : ∀ append, b.next append = b := fun append => if_neg (by omega)
    rw [buildRest, stays, stays, ite_self] at built
    exact absurd built (Int.not_le.mpr (Building.finish_failed failed))

end Head

section Example

/-- A body of so many letters. -/
def letters (n : Nat) : CString where
  bytes := List.replicate n 120
  noNul := fun member => absurd (List.eq_of_mem_replicate member) (by decide)

/-- With this body the request has 1023 bytes. -/
theorem build_request_counterexample :
    let client := exampleClient (CString.literal "a") (CString.literal "i") (CString.literal "t")
    let host := CString.literal "/1/classes/A"
    let built := buildRequestHeaders ⟨true⟩ client host (CString.literal "POST")
      (some (letters 793)) false
    built.2 = 1023 ∧
      ¬ BuildsRequest (requestText client host (CString.literal "POST") (some (letters 793)) false)
        built := by
  decide +kernel

end Example

end ParseEmbedded.Rtos
