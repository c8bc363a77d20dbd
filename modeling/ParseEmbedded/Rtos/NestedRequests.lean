import ParseEmbedded.Rtos.RequestSockets

/-!
# Requests from the callback of a request on an RTOS

Every request is built in the one `dataBuffer`, every answer is read into it, and the string that
a callback is given points into it. A callback may send requests of its own, whose callbacks may
do so too. A run is a list of events: a call sends its requests and enters its callback, or the
callback that was entered last returns, and its call with it. `Nesting` keeps the callbacks that
have not returned.

`Sent.leave` is what a request makes of the buffer. `nestStep_tracks` is what every run keeps: the
buffer is what the requests sent since a callback was entered have made of it.
`response_body_stable_iff` says when the callbacks keep their bodies.
-/

set_option autoImplicit false

namespace ParseEmbedded.Rtos

open Search Runs

/-! ## Strings in the buffer -/

/-- The string that starts at a place of the buffer. -/
def stringAt (dataBuffer : Block Byte 1024) (place : Nat) : List Byte :=
  stringOf (dataBuffer.cells.drop place)

/-- Where `getHttpResponseBody` finds the body. -/
def bodyPlace (dataBuffer : Block Byte 1024) : Option Nat :=
  let response := stringOf dataBuffer.cells
  (search HTTP_HEADERS_END response).map fun found => response.length - found.length + 4

/-- Zeros behind a text do not belong to its string. -/
theorem string_append_zeros {back : List Byte} (zeros : ∀ byte ∈ back, byte = Byte.nul)
    (front : List Byte) : stringOf (front ++ back) = stringOf front := by
  cases back with
  | nil => rw [List.append_nil]
  | cons byte back =>
      rw [zeros byte (List.mem_cons_self ..)]
      exact string_append_nul front back

theorem string_drop (memory : List Byte) {place : Nat} (inside : place ≤ (stringOf memory).length) :
    stringOf (memory.drop place) = (stringOf memory).drop place := by
  have whole : stringOf memory ++ memory.dropWhile (· ≠ Byte.nul) = memory :=
    List.takeWhile_append_dropWhile
  have noNul : Byte.nul ∉ (stringOf memory).drop place := fun member =>
    (CString.ofMemory memory).noNul (List.mem_of_mem_drop member)
  have stop : stringOf (memory.dropWhile (· ≠ Byte.nul)) = [] := by
    refine List.takeWhile_eq_nil_iff.mpr fun some => ?_
    exact List.dropWhile_get_zero_not _ _ some
  have parts : memory.drop place =
      (stringOf memory).drop place ++ memory.dropWhile (· ≠ Byte.nul) := by
    conv_lhs => rw [← whole]
    exact List.drop_append_of_le_length inside
  rw [parts]
  exact (CString.ofMemory_append noNul _).trans
    ((congrArg _ stop).trans (List.append_nil _))

/-- **The body is the string at its place.** -/
theorem getHttpResponseBody_at (dataBuffer : Block Byte 1024) :
    (getHttpResponseBody dataBuffer).map CString.bytes =
      (bodyPlace dataBuffer).map (stringAt dataBuffer) := by
  rw [getHttpResponseBody, bodyPlace]
  cases there : search HTTP_HEADERS_END (stringOf dataBuffer.cells) with
  | none => rfl
  | some found =>
      obtain ⟨starts, front, whole⟩ := search_found there
      have four : HTTP_HEADERS_END.length = 4 := by decide
      have room : 4 ≤ found.length := four ▸ starts.length_le
      have length := congrArg List.length whole
      rw [List.length_append] at length
      have place : (stringOf dataBuffer.cells).length - found.length + 4 = front.length + 4 := by
        omega
      have noNul : Byte.nul ∉ found.drop 4 := by
        intro member
        refine (CString.ofMemory dataBuffer.cells).noNul ?_
        change Byte.nul ∈ stringOf dataBuffer.cells
        rw [← whole]
        exact List.mem_append_right front (List.mem_of_mem_drop member)
      simp only [Option.map_some, Option.some.injEq]
      rw [CString.ofMemory_bytes noNul, place, stringAt, string_drop _ (by omega), ← whole,
        ← List.drop_drop, List.drop_left]

/-! ## What a request leaves -/

namespace Sent

variable (sent : Sent)

/-- The request gets a connection. -/
def Connects : Prop := 0 ≤ (socketSslConnect sent.line.dialing).1

instance : Decidable sent.Connects := inferInstanceAs (Decidable (_ ≤ _))

/-- What a request makes of `dataBuffer`: without a connection nothing, otherwise the request is
built in it, and the answer is read into it if the request is sent. -/
def leave (dataBuffer : Block Byte 1024) : Block Byte 1024 :=
  let socketHandle := (socketSslConnect sent.line.dialing).1
  if socketHandle < 0 then dataBuffer
  else if sent.written < 0 then sent.built.1.dataBuffer
  else (socketRead socketHandle (Block.fill 1024 Byte.nul) 0 1024 sent.line.rounds).1.memory

/-- The text of a request that gets a connection: the answer as far as there is room for it, or
the request itself if it is not sent. -/
def remains : List Byte :=
  if sent.Passes then (arrivals false sent.line.rounds).1.take 1023
  else sent.built.1.dataBuffer.cells

theorem leave_of_not_connects {sent : Sent} (fails : ¬ sent.Connects)
    (dataBuffer : Block Byte 1024) : sent.leave dataBuffer = dataBuffer :=
  if_pos (Int.not_le.mp fails)

/-- **What a request with a connection leaves** does not depend on what was in the buffer. -/
theorem stringAt_leave {sent : Sent} (connects : sent.Connects) (dataBuffer : Block Byte 1024)
    (place : Nat) :
    stringAt (sent.leave dataBuffer) place = stringOf (sent.remains.drop place) := by
  have valid : ¬ (socketSslConnect sent.line.dialing).1 < 0 := Int.not_lt.mpr connects
  have passes : sent.Passes ↔ 0 ≤ sent.written := by
    rw [sent.written_of_connected connects, Passes]
    exact or_iff_right valid
  rw [stringAt, leave, remains, if_neg valid]
  by_cases unsent : sent.written < 0
  · rw [if_pos unsent, if_neg (passes.not.mpr (Int.not_le.mpr unsent))]
  · obtain ⟨-, rest, zeros, holds⟩ := socketRead_arrivals connects sent.line.rounds
    rw [if_neg unsent, if_pos (passes.mpr (Int.not_lt.mp unsent)), holds, List.drop_append]
    refine string_append_zeros (fun byte member => ?_) _
    rcases List.mem_cons.mp (List.mem_of_mem_drop member) with isNul | behind
    · exact isNul
    · exact zeros byte behind

/-- **The callback is given the body that is in the buffer**, or an error and no body. -/
theorem reply_body (dataBuffer : Block Byte 1024) :
    (sent.reply.error = 0 ∧
        sent.reply.httpResponseBody = getHttpResponseBody (sent.leave dataBuffer)) ∨
      (sent.reply.error ≠ 0 ∧ sent.reply.httpResponseBody = none) := by
  rw [reply, parseSendRequestInternal, sendRequest]
  by_cases unsent : sent.written < 0
  · have failed := Int.ne_of_lt unsent
    rw [written] at unsent failed
    rw [if_pos unsent]
    exact Or.inr ⟨failed, rfl⟩
  · have valid : ¬ (socketSslConnect sent.line.dialing).1 < 0 := fun failed =>
      unsent (sent.written_of_failed failed)
    rw [leave, if_neg valid, if_neg unsent]
    rw [written] at unsent
    rw [if_neg unsent]
    change (_ ∧ _ = getHttpResponseBody (socketRead sent.line.network.connect
      (Block.fill 1024 Byte.nul) 0 1024 sent.line.network.rounds).1.memory) ∨ _
    generalize socketRead sent.line.network.connect (Block.fill 1024 Byte.nul) 0 1024
      sent.line.network.rounds = read
    obtain ⟨reading, status⟩ := read
    dsimp only
    by_cases failed : status < 0
    · rw [if_neg (Int.not_le.mpr failed)]
      exact Or.inr ⟨Int.ne_of_lt failed, rfl⟩
    · rw [if_pos (Int.not_lt.mp failed)]
      exact Or.inl ⟨rfl, rfl⟩

end Sent

/-! ## Calls and callbacks -/

/-- A call that sends a request. -/
inductive Issue where
  | parseSendRequest (call : SendCall)
  | parseSendRequestInternal (libc : Libc) (httpVerb httpPath : CString)
      (httpRequestBody : Option CString) (addInstallationHeader : Bool) (line : Line)

namespace Issue

/-- The client behind the requests for the installation. -/
def client (client : Client) : Issue → Client
  | .parseSendRequest call => (getInstallation (call.lines.meet call.outside) client).1
  | .parseSendRequestInternal .. => client

/-- The requests for the installation. -/
def asked (client : Client) : Issue → List Sent
  | .parseSendRequest call => getInstallationSent call.outside call.lines client
  | .parseSendRequestInternal .. => []

/-- The request whose callback is the one of the call. -/
def request (client : Client) (issue : Issue) : Sent :=
  match issue with
  | .parseSendRequest call =>
      ⟨call.outside.libc, issue.client client, call.httpVerb, call.httpPath, call.httpRequestBody,
        true, call.lines.request⟩
  | .parseSendRequestInternal libc httpVerb httpPath httpRequestBody addInstallationHeader line =>
      ⟨libc, client, httpVerb, httpPath, httpRequestBody, addInstallationHeader, line⟩

/-- All requests of the call, the last one first. -/
def sent (client : Client) (issue : Issue) : List Sent :=
  issue.request client :: (issue.asked client).reverse

/-- They are those that the sockets were counted for. -/
theorem sent_parseSendRequest (client : Client) (call : SendCall) :
    (Issue.parseSendRequest call).sent client = (call.sent client).reverse := by
  rw [SendCall.sent, sendRequestSent, List.reverse_append]
  rfl

end Issue

/-- A callback that has not returned: where its body starts, if it was given one, the buffer when
it was entered, and the requests sent since, the last one first. -/
structure Frame where
  place : Option Nat
  entry : Block Byte 1024
  behind : List Sent

/-- The client, the buffer and the callbacks that have not returned, the last one first. -/
structure Nesting where
  client : Client
  dataBuffer : Block Byte 1024
  frames : List Frame

inductive NestEvent where
  | issued (issue : Issue)
  | returned

/-- A call sends its requests and enters its callback, or the callback entered last returns. -/
def nestStep (s : Nesting) : NestEvent → Nesting × Unit
  | .issued issue =>
      let sent := issue.sent s.client
      let dataBuffer := sent.foldr Sent.leave s.dataBuffer
      let place :=
        if (issue.request s.client).reply.error = 0 then bodyPlace dataBuffer else none
      let entered : Frame := ⟨place, dataBuffer, []⟩
      let waiting := s.frames.map fun frame => { frame with behind := sent ++ frame.behind }
      (⟨issue.client s.client, dataBuffer, entered :: waiting⟩, ())
  | .returned => ({ s with frames := s.frames.tail }, ())

/-- **What a callback is given.** -/
theorem entered_body (s : Nesting) (issue : Issue) :
    ∃ frame waiting, (nestStep s (.issued issue)).1.frames = frame :: waiting ∧
      (issue.request s.client).reply.httpResponseBody.map CString.bytes =
        frame.place.map (stringAt frame.entry) := by
  refine ⟨_, _, rfl, ?_⟩
  rcases (issue.request s.client).reply_body ((issue.asked s.client).reverse.foldr Sent.leave
    s.dataBuffer) with ⟨answered, body⟩ | ⟨failed, none⟩
  · rw [if_pos answered, body]
    exact getHttpResponseBody_at _
  · rw [if_neg failed, none]
    rfl

/-- The buffer is what the requests since the callback was entered have made of it. -/
def Frame.Tracks (dataBuffer : Block Byte 1024) (frame : Frame) : Prop :=
  dataBuffer = frame.behind.foldr Sent.leave frame.entry

theorem nestStep_tracks (s : Nesting) (event : NestEvent)
    (tracks : ∀ frame ∈ s.frames, frame.Tracks s.dataBuffer) :
    ∀ frame ∈ (nestStep s event).1.frames, frame.Tracks (nestStep s event).1.dataBuffer := by
  cases event with
  | issued issue =>
      refine List.forall_mem_cons.mpr ⟨rfl, List.forall_mem_map.mpr fun frame waits => ?_⟩
      change _ = (issue.sent s.client ++ frame.behind).foldr Sent.leave frame.entry
      rw [List.foldr_append, ← tracks frame waits]
      rfl
  | returned => exact fun frame waits => tracks frame (List.mem_of_mem_tail waits)

/-- The last request with a connection since the callback was entered. -/
def Frame.lastConnected (frame : Frame) : Option Sent := frame.behind.find? (·.Connects)

/-- **The string at a place** is what the last request with a connection leaves there. -/
theorem stringAt_foldr (entry : Block Byte 1024) (place : Nat) (sents : List Sent) :
    stringAt (sents.foldr Sent.leave entry) place =
      match sents.find? (·.Connects) with
      | some sent => stringOf (sent.remains.drop place)
      | none => stringAt entry place := by
  induction sents with
  | nil => rfl
  | cons sent sents ih =>
      rw [List.foldr_cons]
      by_cases connects : sent.Connects
      · rw [List.find?_cons_of_pos (by simpa using connects)]
        exact Sent.stringAt_leave connects _ place
      · rw [List.find?_cons_of_neg (by simpa using connects), Sent.leave_of_not_connects connects]
        exact ih

/-- No request got a connection since the callback was entered, or the last one that did leaves
the same string where the body is. -/
def Frame.Spared (frame : Frame) : Prop :=
  ∀ place ∈ frame.place, ∀ sent ∈ frame.lastConnected,
    stringOf (sent.remains.drop place) = stringAt frame.entry place

/-- The body is the one that the callback was given. -/
def Frame.KeepsBody (dataBuffer : Block Byte 1024) (frame : Frame) : Prop :=
  ∀ place ∈ frame.place, stringAt dataBuffer place = stringAt frame.entry place

theorem Frame.Tracks.spared_iff {dataBuffer : Block Byte 1024} {frame : Frame}
    (tracks : frame.Tracks dataBuffer) : frame.Spared ↔ frame.KeepsBody dataBuffer := by
  refine forall₂_congr fun place _ => ?_
  rw [tracks, stringAt_foldr, Frame.lastConnected]
  cases frame.behind.find? (·.Connects) with
  | none => exact iff_of_true (fun _ never => absurd never (Option.not_mem_none _)) rfl
  | some sent => exact ⟨fun spared => spared sent rfl, fun keeps _ same => by
      obtain rfl := Option.mem_some.mp same
      exact keeps⟩

/-- **When callbacks keep their bodies.** In a run of calls and returns, whenever a call returns,
the bodies of the callbacks around it are those that they were given, if and only if at each
return, and for each callback around it with a body, no request got a connection since the
callback was entered, or the last one that did leaves the same string where the body is. -/
theorem response_body_stable_iff (client : Client) (dataBuffer : Block Byte 1024)
    (events : List NestEvent) :
    (∀ t ∈ run nestStep ⟨client, dataBuffer, []⟩ events, t.input = .returned →
        ∀ frame ∈ t.before.frames.tail, frame.Spared) ↔
      ∀ t ∈ run nestStep ⟨client, dataBuffer, []⟩ events, t.input = .returned →
        ∀ frame ∈ t.before.frames.tail, frame.KeepsBody t.after.dataBuffer := by
  have keeps : ∀ t ∈ run nestStep ⟨client, dataBuffer, []⟩ events,
      ∀ frame ∈ t.after.frames, frame.Tracks t.after.dataBuffer := fun t member =>
    ((run_always nestStep (fun s => ∀ frame ∈ s.frames, frame.Tracks s.dataBuffer)
      nestStep_tracks (fun frame never => absurd never List.not_mem_nil) events).1 t member).2
  refine forall₂_congr fun t member => forall_congr' fun isReturn => ?_
  have step := eq_fire_of_mem nestStep member
  refine forall₂_congr fun frame waits => (keeps t member frame ?_).spared_iff
  rw [isReturn] at step
  rw [step]
  exact waits

/-! ## The callback of the session -/

/-- The request of `getSession`. -/
def sessionIssue (libc : Libc) (line : Line) : Issue :=
  .parseSendRequestInternal libc (CString.literal "GET") (CString.literal "/1/sessions/me") none
    true line

/-- The request of `associateSessionWithInstallation`. -/
def associateIssue (libc : Libc) (line : Line) : Issue :=
  .parseSendRequestInternal libc (CString.literal "PUT") (CString.literal "/1/sessions/me")
    (some (CString.literal "\x7b\x7d\r\n")) true line

/-- What the callback of the session sends is this request. -/
theorem getSessionCallback_issues (outside : Outside) (client : Client) (reply : Reply)
    (line : Line) (meets : outside.associate.network = line.network) :
    ∀ exchange ∈ getSessionCallback outside client outside.session reply,
      exchange.reply = ((associateIssue outside.libc line).request client).reply := by
  have same : ∀ exchange ∈ associateSessionWithInstallation outside client,
      exchange.reply = ((associateIssue outside.libc line).request client).reply := by
    intro exchange member
    rw [associateSessionWithInstallation] at member
    split at member
    · rw [List.mem_singleton.mp member]
      change parseSendRequestInternal _ _ _ _ _ _ outside.associate.network = _
      rw [meets]
      rfl
    · exact absurd member List.not_mem_nil
  rw [getSessionCallback]
  split
  · split
    · exact same
    · exact fun _ never => absurd never List.not_mem_nil
  · exact fun _ never => absurd never List.not_mem_nil

section Example

/-- A connection on which this body arrives at once, with status 200. -/
def answeringLine (body : String) : Line :=
  ⟨reachedOver 1, 1, (answering body).network.rounds⟩

/-- A session without an installation is read, and associated with the one of the client. -/
def sessionEvents : List NestEvent :=
  [.issued (sessionIssue ⟨true⟩ (answeringLine "\x7b\"objectId\":\"s\"\x7d")),
    .issued (associateIssue ⟨true⟩ (answeringLine "\x7b\"updatedAt\":\"t\"\x7d"))]

def quiet : Nesting := ⟨knownClient, Block.fill 1024 Byte.nul, []⟩

theorem response_body_stable_counterexample :
    ¬ ∀ t ∈ run nestStep quiet (sessionEvents ++ [.returned]), t.input = .returned →
        ∀ frame ∈ t.before.frames.tail, frame.KeepsBody t.after.dataBuffer := by
  intro keeps
  have returns := keeps _ (fire_final_mem nestStep sessionEvents .returned quiet) rfl
  have lost : (final nestStep quiet sessionEvents).frames.tail.map (fun frame =>
      frame.place.map fun place =>
        (stringAt frame.entry place,
          stringAt (final nestStep quiet sessionEvents).dataBuffer place)) =
      [some (ascii "\x7b\"objectId\":\"s\"\x7d", ascii "\x7b\"updatedAt\":\"t\"\x7d")] := by
    decide +kernel
  generalize final nestStep quiet sessionEvents = s at returns lost
  obtain ⟨frame, waits, strings⟩ := List.map_eq_singleton_iff.mp lost
  obtain ⟨place, given, differ⟩ := Option.map_eq_some_iff.mp strings
  obtain ⟨before, after⟩ := Prod.mk.inj differ
  have kept := returns frame (waits ▸ List.mem_singleton_self frame) place given
  have same := (after.symm.trans kept).trans before
  exact absurd same (by decide)

end Example

end ParseEmbedded.Rtos
