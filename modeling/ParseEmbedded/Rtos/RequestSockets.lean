import ParseEmbedded.Library.Handles
import ParseEmbedded.Library.Runs
import ParseEmbedded.Rtos.Session

/-!
# The sockets of requests on an RTOS

`socketSslConnect` of the CC3200 with the answers of the driver, and what each `sendRequest` does
with the socket it is given. A socket that `socketSslConnect` cannot connect, it closes
(`socketSslConnect_uses`). `sendRequest` closes the socket in the branch that reads the answer
only, so a request that cannot be built or written leaves its socket open: `closes_each_iff` for
one request, and `request_sockets_closed_iff` for every run of calls.

`parseSendRequest` may send requests for the installation first. `Sent` is a request with all that
it depends on, and `sendRequest_sent` says that the requests recorded here are those of the calls.
-/

set_option autoImplicit false

namespace ParseEmbedded.Rtos

open Handles Runs

/-! ## Connecting -/

/-- How the driver answers the calls of `socketSslConnect`. -/
structure Dialing where
  gethostbyname : Int
  socket : Int
  secMethod : Int
  caFile : Int
  connect : Int
  wait : Int
  nonBlocking : Int
  keepAlive : Int
  deriving DecidableEq, Repr

/-- `if (status >= 0) status = …` -/
def proceed (status answer : Int) : Int := if 0 ≤ status then answer else status

/-- The status behind the calls on the socket. -/
def Dialing.prepare (dialing : Dialing) (status : Int) : Int :=
  let status := proceed status dialing.secMethod
  let status := proceed status dialing.caFile
  let status := proceed status dialing.connect
  let status := proceed status dialing.wait
  let status := proceed status dialing.nonBlocking
  proceed status dialing.keepAlive

/-- `socketSslConnect`: what it returns, and what it does with its socket. -/
def socketSslConnect (dialing : Dialing) : Int × List (Use Int) :=
  let status := proceed dialing.gethostbyname dialing.socket
  let socketHandle := if 0 ≤ status then status else -1
  let opened := if 0 ≤ status then [.opened socketHandle] else []
  let status := dialing.prepare status
  if status < 0 then (status, opened ++ [.closed socketHandle]) else (socketHandle, opened)

theorem proceed_of_neg {status : Int} (failed : status < 0) (answer : Int) :
    proceed status answer = status := if_neg (Int.not_le.mpr failed)

theorem Dialing.prepare_of_neg (dialing : Dialing) {status : Int} (failed : status < 0) :
    dialing.prepare status = status := by
  simp only [Dialing.prepare, proceed_of_neg failed]

/-- **A socket that is not returned is closed.** -/
theorem socketSslConnect_uses (dialing : Dialing) :
    (0 ≤ (socketSslConnect dialing).1 ∧
        (socketSslConnect dialing).2 = [.opened (socketSslConnect dialing).1]) ∨
      ((socketSslConnect dialing).1 < 0 ∧
        ((socketSslConnect dialing).2 = [.closed (-1)] ∨
          ∃ socketHandle, 0 ≤ socketHandle ∧
            (socketSslConnect dialing).2 = [.opened socketHandle, .closed socketHandle])) := by
  rw [socketSslConnect]
  generalize proceed dialing.gethostbyname dialing.socket = status
  by_cases made : 0 ≤ status
  · rw [if_pos made, if_pos made]
    split
    · rename_i failed
      exact Or.inr ⟨failed, Or.inr ⟨status, made, rfl⟩⟩
    · exact Or.inl ⟨made, rfl⟩
  · have failed := Int.not_le.mp made
    rw [if_neg made, if_neg made, dialing.prepare_of_neg failed, if_pos failed]
    exact Or.inr ⟨failed, Or.inl rfl⟩

/-! ## One request -/

/-- What a request meets, with the answers to its `socketSslConnect`. -/
structure Line where
  dialing : Dialing
  send : Int
  rounds : List SocketRound
  deriving DecidableEq

def Line.network (line : Line) : Network :=
  ⟨(socketSslConnect line.dialing).1, line.send, line.rounds⟩

/-- A request with all that it depends on. -/
structure Sent where
  libc : Libc
  client : Client
  httpVerb : CString
  httpPath : CString
  httpRequestBody : Option CString
  addInstallationHeader : Bool
  line : Line

namespace Sent

variable (sent : Sent)

/-- The arguments of the callback. -/
def reply : Reply :=
  parseSendRequestInternal sent.libc sent.client sent.httpPath sent.httpVerb sent.httpRequestBody
    sent.addInstallationHeader sent.line.network

/-- The status of `sendRequest` in front of the read. -/
def written : Int :=
  writeRequest sent.libc sent.client sent.httpPath sent.httpVerb sent.httpRequestBody
    sent.addInstallationHeader sent.line.network

/-- What `sendRequest` does with sockets. -/
def uses : List (Use Int) :=
  (socketSslConnect sent.line.dialing).2 ++
    if sent.written < 0 then [] else [.closed (socketSslConnect sent.line.dialing).1]

/-- The request as it is built, and the status of that. -/
def built : Building × Int :=
  buildRequestHeaders sent.libc sent.client sent.httpPath sent.httpVerb sent.httpRequestBody
    sent.addInstallationHeader

/-- The bytes that are handed to `socketWrite`. -/
def text : List Byte :=
  let cells := sent.built.1.dataBuffer.cells
  if toShort sent.built.2 = 0 then CString.ofMemory cells |>.bytes
  else cells.take (toShort sent.built.2).toNat

/-- The connection fails, or the request is built, and sent if there is something to send. -/
def Passes : Prop :=
  (socketSslConnect sent.line.dialing).1 < 0 ∨
    (0 ≤ toShort sent.built.2 ∧ (sent.text ≠ [] → 0 ≤ sent.line.send))

instance : Decidable sent.Passes := inferInstanceAs (Decidable (_ ∨ _))

theorem written_of_connected (connected : 0 ≤ (socketSslConnect sent.line.dialing).1) :
    0 ≤ sent.written ↔ 0 ≤ toShort sent.built.2 ∧ (sent.text ≠ [] → 0 ≤ sent.line.send) := by
  have valid : ¬ (socketSslConnect sent.line.dialing).1 < 0 := Int.not_lt.mpr connected
  rw [written, writeRequest]
  change 0 ≤ (if (socketSslConnect sent.line.dialing).1 < 0 then _
    else if toShort sent.built.2 < 0 then toShort sent.built.2
    else socketWrite (socketSslConnect sent.line.dialing).1 sent.text sent.line.send) ↔ _
  rw [if_neg valid]
  by_cases failed : toShort sent.built.2 < 0
  · rw [if_pos failed]
    exact iff_of_false (Int.not_le.mpr failed) fun passes => Int.not_le.mpr failed passes.1
  · rw [if_neg failed, socketWrite, if_neg valid, and_iff_right (Int.not_lt.mp failed)]
    by_cases some : sent.text = []
    · rw [some]
      exact iff_of_true (Int.le_refl 0) fun h => absurd rfl h
    · rw [if_pos (List.length_pos_iff.mpr some)]
      exact ⟨fun sends _ => sends, fun sends => sends some⟩

theorem written_of_failed (failed : (socketSslConnect sent.line.dialing).1 < 0) :
    sent.written < 0 := by
  rw [written, writeRequest]
  change (if (socketSslConnect sent.line.dialing).1 < 0 then _ else _) < 0
  rw [if_pos failed]
  exact failed

/-- **When a request closes its socket.** -/
theorem closes_each_iff : ClosesEach sent.uses ↔ sent.Passes := by
  rw [uses, Passes]
  rcases socketSslConnect_uses sent.line.dialing with ⟨connected, opens⟩ | ⟨failed, closes⟩
  · rw [or_iff_right (Int.not_lt.mpr connected), ← sent.written_of_connected connected, opens]
    generalize (socketSslConnect sent.line.dialing).1 = socketHandle
    by_cases written : sent.written < 0
    · rw [if_pos written]
      refine iff_of_false (fun closes => ?_) (Int.not_le.mpr written)
      have once := closes socketHandle (List.mem_cons_self ..)
      simp [Use.handle] at once
    · rw [if_neg written]
      refine iff_of_true (fun handle opened => ?_) (Int.not_lt.mp written)
      obtain rfl : handle = socketHandle := by simpa using opened
      simp [Use.handle]
  · rw [if_pos (sent.written_of_failed failed), List.append_nil]
    refine iff_of_true (fun handle opened => ?_) (Or.inl failed)
    rcases closes with closes | ⟨socketHandle, -, closes⟩
    · rw [closes] at opened
      simp at opened
    · rw [closes] at opened ⊢
      obtain rfl : handle = socketHandle := by simpa using opened
      simp [Use.handle]

end Sent

/-! ## The requests of a call -/

/-- What the requests of `parseSendRequest` meet: the two for the installation and its own. -/
structure Lines where
  get : Line
  create : Line
  request : Line

/-- The surroundings of a call with these lines. -/
def Lines.meet (lines : Lines) (outside : Outside) : Outside :=
  { outside with
    get := { outside.get with network := lines.get.network }
    create := { outside.create with network := lines.create.network }
    request := { outside.request with network := lines.request.network } }

section Sent

variable (outside : Outside) (lines : Lines) (client : Client)

/-- The request of `createInstallation`. -/
def createInstallationSent : List Sent :=
  if stringOf client.installationObjectId = [] then
    let client := if stringOf client.installationId = [] then
        createNewInstallationId outside.rand client
      else client
    [⟨outside.libc, client, CString.literal "POST", installationsPath,
      some (createContent (stringOf client.installationId)), false, lines.create⟩]
  else []

/-- The requests of `getInstallation`. -/
def getInstallationSent : List Sent :=
  if stringOf client.installationObjectId ≠ [] ∧ stringOf client.installationId ≠ [] then []
  else
    let (client, asked) : Client × List Sent :=
      if stringOf client.installationObjectId ≠ [] then
        let sent : Sent := ⟨outside.libc, client, CString.literal "GET",
          objectContent (stringOf client.installationObjectId), none, false, lines.get⟩
        (getInstallationCallback client outside.get sent.reply, [sent])
      else if stringOf client.installationId ≠ [] then
        let sent : Sent := ⟨outside.libc, client, CString.literal "GET", installationsPath,
          some (queryContent (stringOf client.installationId)), false, lines.get⟩
        (getInstallationByIdCallback client outside.get sent.reply, [sent])
      else (client, [])
    asked ++ createInstallationSent outside lines client

theorem createInstallation_sent :
    (createInstallation (lines.meet outside) client).2.map Exchange.reply =
      (createInstallationSent outside lines client).map Sent.reply := by
  rw [createInstallation, createInstallationSent]
  split
  · rfl
  · rfl

theorem getInstallation_sent :
    (getInstallation (lines.meet outside) client).2.map Exchange.reply =
      (getInstallationSent outside lines client).map Sent.reply := by
  rw [getInstallation, getInstallationSent]
  by_cases known : stringOf client.installationObjectId ≠ [] ∧ stringOf client.installationId ≠ []
  · rw [if_pos known, if_pos known]
    rfl
  rw [if_neg known, if_neg known]
  by_cases object : stringOf client.installationObjectId ≠ []
  · rw [if_pos object, if_pos object]
    exact congrArg (_ :: ·) (createInstallation_sent outside lines _)
  rw [if_neg object, if_neg object]
  by_cases id : stringOf client.installationId ≠ []
  · rw [if_pos id, if_pos id]
    exact congrArg (_ :: ·) (createInstallation_sent outside lines _)
  · rw [if_neg id, if_neg id]
    exact createInstallation_sent outside lines client

/-- The requests of `parseSendRequest`. -/
def sendRequestSent (httpVerb httpPath : CString) (httpRequestBody : Option CString) : List Sent :=
  getInstallationSent outside lines client ++
    [⟨outside.libc, (getInstallation (lines.meet outside) client).1, httpVerb, httpPath,
      httpRequestBody, true, lines.request⟩]

/-- **The requests recorded are those of the call.** -/
theorem sendRequest_sent (device : Device) (httpVerb httpPath : CString)
    (httpRequestBody : Option CString) :
    (device.sendRequest (lines.meet outside) httpVerb httpPath httpRequestBody).2.map
        Exchange.reply =
      (sendRequestSent outside lines device.client httpVerb httpPath httpRequestBody).map
        Sent.reply := by
  rw [Device.sendRequest, sendRequestSent, List.map_append, List.map_append,
    getInstallation_sent]
  rfl

end Sent

/-! ## Runs -/

/-- A call of `parseSendRequest`, with what it meets. -/
structure SendCall where
  outside : Outside
  lines : Lines
  httpVerb : CString
  httpPath : CString
  httpRequestBody : Option CString

/-- The requests of a call by this client. -/
def SendCall.sent (call : SendCall) (client : Client) : List Sent :=
  sendRequestSent call.outside call.lines client call.httpVerb call.httpPath call.httpRequestBody

/-- The client and the sockets that are open. -/
structure Sockets where
  client : Client
  opened : Finset Int

/-- A call, and what each `sendRequest` in it does with sockets. -/
def sendStep (s : Sockets) (call : SendCall) : Sockets × List (List (Use Int)) :=
  let uses := (call.sent s.client).map Sent.uses
  (⟨(getInstallation (call.lines.meet call.outside) s.client).1, live s.opened uses.flatten⟩, uses)

abbrev SendTransition := Runs.Transition Sockets SendCall (List (List (Use Int)))

/-- Each `sendRequest` closes its socket, and no socket is open behind the call. -/
def Tidy (t : SendTransition) : Prop := (∀ uses ∈ t.output, ClosesEach uses) ∧ t.after.opened = ∅

theorem tidy_iff (s : Sockets) (call : SendCall) (none : s.opened = ∅) :
    (∀ sent ∈ call.sent s.client, sent.Passes) ↔ Tidy (fire sendStep s call) := by
  have each : (∀ sent ∈ call.sent s.client, sent.Passes) ↔
      ∀ uses ∈ (call.sent s.client).map Sent.uses, ClosesEach uses := by
    rw [List.forall_mem_map]
    exact forall₂_congr fun sent _ => sent.closes_each_iff.symm
  rw [each]
  refine ⟨fun closes => ⟨closes, ?_⟩, fun tidy => tidy.1⟩
  change live s.opened _ = ∅
  rw [none]
  exact live_flatten_of_closesEach closes

/-- **When the sockets of requests are closed.** In a run of calls each socket that is opened for a
request is closed once before its `sendRequest` returns, and none is open behind a call, if and
only if every request that gets a connection is built and sent without an error. -/
theorem request_sockets_closed_iff (client : Client) (calls : List SendCall) :
    (∀ t ∈ run sendStep ⟨client, ∅⟩ calls, ∀ sent ∈ t.input.sent t.before.client, sent.Passes) ↔
      ∀ t ∈ run sendStep ⟨client, ∅⟩ calls, Tidy t := by
  refine run_forall_iff sendStep (fun s => s.opened = ∅) _ Tidy
    (fun s call none => tidy_iff s call none)
    (fun s call none passes => ((tidy_iff s call none).mp passes).2) calls rfl

section Example

/-- A client whose installation is known. -/
def knownClient : Client :=
  { exampleClient (CString.literal "a") (CString.literal "i") (CString.literal "") with
    installationObjectId := strncpy (zeros OBJECT_ID_MAX_LEN) (CString.literal "o")
      OBJECT_ID_MAX_LEN }

/-- The server is reached over this socket. -/
def reachedOver (socketHandle : Int) : Dialing := ⟨0, socketHandle, 0, 0, 0, 1, 0, 0⟩

/-- The connection breaks when the request is written. -/
def brokenLine : Line := ⟨reachedOver 1, -1, []⟩

def brokenCall : SendCall where
  outside := meeting unanswered unanswered
  lines := ⟨brokenLine, brokenLine, brokenLine⟩
  httpVerb := CString.literal "GET"
  httpPath := CString.literal "/1/classes/A"
  httpRequestBody := none

theorem request_sockets_closed_counterexample :
    ¬ ∀ t ∈ run sendStep ⟨knownClient, ∅⟩ [brokenCall], Tidy t := by
  intro tidy
  have leaks : (fire sendStep ⟨knownClient, ∅⟩ brokenCall).after.opened = {1} := by
    decide +kernel
  exact absurd (leaks.symm.trans (tidy _ (List.mem_cons_self ..)).2) (by decide)

end Example

end ParseEmbedded.Rtos
