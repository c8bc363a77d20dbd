import ParseEmbedded.Library.Runs
import ParseEmbedded.Unix.PushStep

/-!
# The push loop on Unix

`parseRunPushLoop` waits in `select` for the socket of the push service and then processes what has
come in, again and again: it never exits. The service may be stopped in the branch for a socket
that has problems, by the callback, and by another thread while the loop waits; the next iteration
then waits for the socket -2. `push_loop_iff` says when the loop waits for proper sockets only.

What the callback calls, and what is called while the loop waits, is an input, for every iteration.
A callback that the iteration does not come to calls nothing.
-/

set_option autoImplicit false

namespace ParseEmbedded.Unix

open Push Runs

abbrev CURLE_UNSUPPORTED_PROTOCOL : Int := 1

/-! ## The socket -/

/-- What `curl_easy_getinfo` answers, and the `long` it leaves behind. -/
structure SocketInfo where
  result : Int
  socket : Int

/-- There is a socket. -/
def SocketInfo.Answers (info : SocketInfo) : Prop :=
  (info.result = CURLE_OK ∨ info.result = CURLE_UNSUPPORTED_PROTOCOL) ∧
    0 ≤ info.socket.bmod 4294967296

def parseGetPushSocket (client : ParseClientInternal) (info : SocketInfo) : Int :=
  match client.pushCurlHandle with
  | none => -2
  | some _ =>
      if info.result ≠ CURLE_OK ∧ info.result ≠ CURLE_UNSUPPORTED_PROTOCOL then -3
      else info.socket.bmod 4294967296

/-- The push service is started. -/
def ParseClientInternal.Started (client : ParseClientInternal) : Prop :=
  client.pushCurlHandle ≠ none

theorem parseGetPushSocket_stopped {client : ParseClientInternal} (stopped : ¬ client.Started)
    (info : SocketInfo) : parseGetPushSocket client info = -2 := by
  rw [parseGetPushSocket, not_not.mp stopped]

/-- **What the socket is.** A started service has a proper socket exactly where libcurl has. -/
theorem parseGetPushSocket_nonneg_iff {client : ParseClientInternal} (started : client.Started)
    (info : SocketInfo) : 0 ≤ parseGetPushSocket client info ↔ info.Answers := by
  obtain ⟨connection, handle⟩ := Option.ne_none_iff_exists'.mp started
  rw [parseGetPushSocket, handle, SocketInfo.Answers]
  dsimp only
  by_cases answers : info.result = CURLE_OK ∨ info.result = CURLE_UNSUPPORTED_PROTOCOL
  · rw [if_neg (fun neither => answers.elim neither.1 neither.2)]
    exact (and_iff_right answers).symm
  · rw [if_pos (not_or.mp answers)]
    exact iff_of_false (by decide) fun both => answers both.1

/-! ## What is called -/

/-- The functions of the push service that a callback or another thread calls. -/
inductive ServiceCall where
  | start (around : Surroundings)
  | stop
  | setCallback (callback : Bool)

def ServiceCall.act (client : ParseClientInternal) :
    ServiceCall → ParseClientInternal × List Event
  | .start around =>
      ((parseStartPushService client around).client, (parseStartPushService client around).events)
  | .stop => parseStopPushService client
  | .setCallback callback => (parseSetPushCallback client callback, [])

/-- Some calls, one after the other. -/
def actAll (client : ParseClientInternal) : List ServiceCall → ParseClientInternal × List Event
  | [] => (client, [])
  | call :: calls =>
      let acted := call.act client
      let rest := actAll acted.1 calls
      (rest.1, acted.2 ++ rest.2)

/-- A start gets a connection. -/
def Surroundings.Connects (around : Surroundings) : Prop :=
  around.curl ≠ none ∧ around.connectOnly = CURLE_OK ∧ around.useSsl = CURLE_OK ∧
    around.url = CURLE_OK ∧ around.perform = CURLE_OK

/-- Whether the service is started behind a call, by what it was before. -/
def ServiceCall.LeavesStarted (started : Prop) : ServiceCall → Prop
  | .start around => started ∨ around.Connects
  | .stop => False
  | .setCallback _ => started

/-- Whether the service is started behind some calls: it has been before and none of them stops it,
or one of them starts it and none stops it later. -/
def LeaveStarted (started : Prop) : List ServiceCall → Prop
  | [] => started
  | call :: calls => LeaveStarted (call.LeavesStarted started) calls

theorem leaveStarted_append (calls more : List ServiceCall) : ∀ started : Prop,
    LeaveStarted started (calls ++ more) = LeaveStarted (LeaveStarted started calls) more := by
  induction calls with
  | nil =>
      intro started
      rfl
  | cons call calls ih =>
      intro started
      exact ih (call.LeavesStarted started)

theorem ServiceCall.act_started (client : ParseClientInternal) (call : ServiceCall) :
    (call.act client).1.Started = call.LeavesStarted client.Started := by
  cases call with
  | start around =>
      apply propext
      change (parseStartPushService client around).client.Started ↔ client.Started ∨ around.Connects
      by_cases started : client.Started
      · have kept : (parseStartPushService client around).client = client := by
          rw [ParseClientInternal.Started] at started
          rw [parseStartPushService, if_pos started]
        rw [kept]
        exact (or_iff_left_of_imp fun _ => started).symm
      · have handle := parseStartPushService_handle (not_not.mp started) around
        rw [or_iff_right started, ParseClientInternal.Started, handle, Surroundings.Connects]
        split
        · rename_i connects
          exact (and_iff_left connects).symm
        · rename_i fails
          exact iff_of_false (fun never => never rfl) fun connects => fails connects.2
  | stop =>
      apply propext
      change (parseStopPushService client).1.Started ↔ False
      rw [parseStopPushService]
      split
      · rename_i handle
        exact iff_of_false (fun started => started handle) id
      · exact iff_of_false (fun started => started rfl) id
  | setCallback callback => rfl

theorem actAll_started (calls : List ServiceCall) : ∀ client : ParseClientInternal,
    (actAll client calls).1.Started = LeaveStarted client.Started calls := by
  induction calls with
  | nil =>
      intro client
      rfl
  | cons call calls ih =>
      intro client
      rw [LeaveStarted, ← call.act_started client]
      exact ih (call.act client).1

/-! ## The loop -/

/-- The client and the receive buffer. -/
structure LoopState where
  client : ParseClientInternal
  buffer : ReceiveBuffer

/-- What an iteration meets: the socket of libcurl, what is called while it waits, the result of
`select` and the bit of the socket in the error set, what the callback calls when it is told of a
problem, the answers of the connection and the time, and what the callback calls when it gets a
message or hears of an error in receiving. -/
structure Turn where
  info : SocketInfo
  meanwhile : List ServiceCall
  select : Int
  isSet : Bool
  onProblem : List ServiceCall
  answers : List RecvAnswer
  seconds : Nat
  onMessage : List ServiceCall

/-- The socket that an iteration passes to `FD_SET` and, plus one, to `select`, what has been called
in it, one after the other, and what it does outside. -/
structure Turned where
  socket : Int
  calls : List ServiceCall
  events : List Event

/-- `select` reports a problem. -/
def Turn.Troubled (turn : Turn) : Prop := turn.select > 0 ∧ turn.isSet = true

instance Turn.decidableTroubled (turn : Turn) : Decidable turn.Troubled :=
  inferInstanceAs (Decidable (_ ∧ _))

/-- The branch for a socket that has problems: the client, the calls made, and the events. -/
def stopForProblem (client : ParseClientInternal) (onProblem : List ServiceCall) :
    ParseClientInternal × List ServiceCall × List Event :=
  let stopped := parseStopPushService client
  if stopped.1.pushCallback then
    let called := actAll stopped.1 onProblem
    (called.1, .stop :: onProblem, stopped.2 ++ .callback ECONNRESET none :: called.2)
  else (stopped.1, [.stop], stopped.2)

/-- What is done where `select` has returned. -/
def Turn.watch (turn : Turn) (client : ParseClientInternal) :
    ParseClientInternal × List ServiceCall × List Event :=
  if turn.Troubled then stopForProblem client turn.onProblem else (client, [], [])

/-- The callback is called. -/
def Event.isCallback : Event → Bool
  | .callback _ _ => true
  | _ => false

/-- `parseProcessNextPushNotification`, with a callback that makes calls. Nothing is left to do with
the client when it returns. -/
def processCallingBack (word : WordSize) (s : LoopState) (turn : Turn) :
    LoopState × List ServiceCall × List Event :=
  let (buffer, processed) :=
    parseProcessNextPushNotification word s.buffer ⟨s.client, turn.answers, turn.seconds⟩
  let calls := if processed.events.any Event.isCallback then turn.onMessage else []
  let called := actAll processed.client calls
  (⟨called.1, buffer⟩, calls, processed.events ++ called.2)

/-- The body of the loop. -/
def loopStep (word : WordSize) (s : LoopState) (turn : Turn) : LoopState × Turned :=
  let socket := parseGetPushSocket s.client turn.info
  let waited := actAll s.client turn.meanwhile
  let watched := turn.watch waited.1
  let processed := processCallingBack word ⟨watched.1, s.buffer⟩ turn
  (processed.1,
    { socket
      calls := turn.meanwhile ++ watched.2.1 ++ processed.2.1
      events := waited.2 ++ watched.2.2 ++ processed.2.2 })

abbrev LoopTransition := Runs.Transition LoopState Turn Turned

/-- `while(1)`, with nothing in it that leaves the loop: there is an iteration for every number. -/
def parseRunPushLoop (word : WordSize) (client : ParseClientInternal) (buffer : ReceiveBuffer)
    (turns : Nat → Turn) (n : Nat) : LoopTransition :=
  endless (loopStep word) ⟨client, buffer⟩ turns n

/-! ## What an iteration leaves behind -/

theorem sendHeartbeat_handle (client : ParseClientInternal) (seconds : Nat) :
    (sendHeartbeat client seconds).1.pushCurlHandle = client.pushCurlHandle := by
  rw [sendHeartbeat]
  split <;> rfl

theorem processReceived_handle (word : WordSize) (call : Call) (loop : Loop) (exit : LoopExit) :
    (processReceived word call loop exit).2.client.pushCurlHandle = call.client.pushCurlHandle := by
  have nothing := sendHeartbeat_handle call.client call.seconds
  cases exit with
  | failed code => rfl
  | left | again =>
      rw [processReceived]
      · split
        · rfl
        · split
          · split
            · exact (rememberTime_client call.client _).2
            · exact nothing
          · exact nothing
      · exact fun _ => LoopExit.noConfusion

/-- Processing keeps the connection, also after an error in receiving. -/
theorem parseProcessNextPushNotification_handle (word : WordSize) (buffer : ReceiveBuffer)
    (call : Call) :
    (parseProcessNextPushNotification word buffer call).2.client.pushCurlHandle =
      call.client.pushCurlHandle := by
  rw [parseProcessNextPushNotification]
  split
  · rfl
  · exact processReceived_handle word call _ _

theorem stopForProblem_started (client : ParseClientInternal) (onProblem : List ServiceCall) :
    (stopForProblem client onProblem).1.Started =
      LeaveStarted client.Started (stopForProblem client onProblem).2.1 := by
  have stopped := ServiceCall.act_started client .stop
  rw [stopForProblem]
  split
  · rw [LeaveStarted, ← stopped]
    exact actAll_started onProblem _
  · exact stopped

theorem Turn.watch_started (turn : Turn) (client : ParseClientInternal) :
    (turn.watch client).1.Started = LeaveStarted client.Started (turn.watch client).2.1 := by
  rw [watch]
  split
  · exact stopForProblem_started client turn.onProblem
  · rfl

theorem processCallingBack_started (word : WordSize) (s : LoopState) (turn : Turn) :
    (processCallingBack word s turn).1.client.Started =
      LeaveStarted s.client.Started (processCallingBack word s turn).2.1 := by
  have handle := parseProcessNextPushNotification_handle word s.buffer
    ⟨s.client, turn.answers, turn.seconds⟩
  rw [processCallingBack]
  dsimp only
  rw [actAll_started]
  rw [ParseClientInternal.Started, handle]
  rfl

/-- **The step of the loop.** The service is started behind an iteration if the calls made in it
leave it started. -/
theorem loopStep_started (word : WordSize) (s : LoopState) (turn : Turn) :
    (loopStep word s turn).1.client.Started =
      LeaveStarted s.client.Started (loopStep word s turn).2.calls := by
  rw [loopStep]
  dsimp only
  rw [processCallingBack_started, leaveStarted_append, leaveStarted_append, turn.watch_started,
    actAll_started]

/-! ## Proper sockets -/

/-- An iteration waits for a proper socket of a service that is started. Where it is not started
there is no iteration, for the loop has exited. -/
def WaitsProperly (t : LoopTransition) : Prop := t.before.client.Started ∧ 0 ≤ t.output.socket

/-- libcurl has a socket, and the calls made in the iteration leave the service started. -/
def StaysStarted (t : LoopTransition) : Prop := LeaveStarted True t.output.calls

/-- **Where the push loop waits properly.** The service is started when the loop begins, no
iteration leaves it stopped, and libcurl has a socket in each. -/
theorem push_loop_iff (word : WordSize) (client : ParseClientInternal) (buffer : ReceiveBuffer)
    (turns : Nat → Turn) :
    (∀ n, WaitsProperly (parseRunPushLoop word client buffer turns n)) ↔
      client.Started ∧ (∀ n, StaysStarted (parseRunPushLoop word client buffer turns n)) ∧
        ∀ n, (turns n).info.Answers := by
  have started := endless_always_iff (loopStep word) (fun s => s.client.Started) StaysStarted
    (by
      intro s turn isStarted
      change LeaveStarted True (loopStep word s turn).2.calls ↔ _
      rw [loopStep_started, eq_true isStarted])
    ⟨client, buffer⟩ turns
  have socket : ∀ n, (parseRunPushLoop word client buffer turns n).before.client.Started →
      (0 ≤ (parseRunPushLoop word client buffer turns n).output.socket ↔
        (turns n).info.Answers) :=
    fun n isStarted => parseGetPushSocket_nonneg_iff isStarted (turns n).info
  constructor
  · intro proper
    obtain ⟨first, stays⟩ := started.mp fun n => (proper n).1
    exact ⟨first, stays, fun n => (socket n (proper n).1).mp (proper n).2⟩
  · rintro ⟨first, stays, answers⟩ n
    have isStarted := started.mpr ⟨first, stays⟩ n
    exact ⟨isStarted, (socket n isStarted).mpr (answers n)⟩

/-! ## A socket that has problems -/

/-- An iteration in which `select` reports that socket 5 has problems. -/
def troubledTurn : Turn := ⟨⟨0, 5⟩, [], 1, true, [], [], 0, []⟩

/-- The next iteration waits for the socket -2. -/
theorem push_loop_counterexample :
    (parseRunPushLoop .bits64 openClient (unfilled (Block.fill 2048 Byte.nul))
      (fun _ => troubledTurn) 1).output.socket = -2 ∧
    ¬ ∀ n, WaitsProperly (parseRunPushLoop .bits64 openClient
      (unfilled (Block.fill 2048 Byte.nul)) (fun _ => troubledTurn) n) := by
  have second : (parseRunPushLoop .bits64 openClient (unfilled (Block.fill 2048 Byte.nul))
      (fun _ => troubledTurn) 1).output.socket = -2 := by
    decide +kernel
  refine ⟨second, fun proper => ?_⟩
  have nonneg := (proper 1).2
  rw [second] at nonneg
  exact absurd nonneg (by decide)

end ParseEmbedded.Unix
