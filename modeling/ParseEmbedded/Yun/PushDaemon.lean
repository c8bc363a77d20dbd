import Mathlib.Data.List.Basic
import ParseEmbedded.SimpleJson.StoredText
import ParseEmbedded.Unix.Listening
import ParseEmbedded.Unix.PushLoop
import ParseEmbedded.Yun.PushQueue

/-!
# The push daemon of a Yun

`main` of `parse_push.c`, from where it has a client: it starts the push service, tells the sketch
how that went, and then waits in `select` for its standard input and for the push socket. A sketch
that asks is given the first text of the queue; what comes in on the push connection is processed
by the Unix library, which calls `newPushHandler`. A problem of the socket ends the loop.

What is written on standard output is recorded as the list of the single writes. The addresses that
`malloc` returns are an input of each iteration.
-/

set_option autoImplicit false

namespace ParseEmbedded.Yun

open Runs SimpleJson Json Push
open Rtos (Stray lookUp zeros)
open Unix (ParseClientInternal ReceiveBuffer SocketInfo RecvAnswer Surroundings Event
  Hears textsOf parseGetPushSocket parseSetPushCallback parseStartPushService
  parseStopPushService parseProcessNextPushNotification unfilled)

/-! ## The source -/

/-- The client and the variables of the library and of the daemon. Behind its loop the daemon does
not run any more. -/
structure Daemon where
  client : ParseClientInternal
  buffer : ReceiveBuffer
  queue : PushQueue
  running : Bool

/-- What an iteration meets: the socket of libcurl, the result of `select`, the bit of the socket in
`error` and that of standard input in `receive`, the bytes on standard input, the answers of the
connection and the time, and what `newPushHandler` meets. -/
structure DaemonTurn where
  info : SocketInfo
  select : Int
  isSet : Bool
  isReady : Bool
  input : List Byte
  answers : List RecvAnswer
  seconds : Nat
  stray : Stray
  node : Address
  push_data : Address

/-- What an iteration does: the socket that it waits for, what it writes, and what it does in the
library. -/
structure DaemonOutput where
  socket : Option Int
  writes : List (List Byte)
  processed : Option Unix.Processed
  events : List Event

/-- The socket has a problem. -/
def DaemonTurn.Troubled (turn : DaemonTurn) : Prop := turn.select > 0 ∧ turn.isSet = true

instance DaemonTurn.decidableTroubled (turn : DaemonTurn) : Decidable turn.Troubled :=
  inferInstanceAs (Decidable (_ ∧ _))

/-- The branch for standard input. -/
def fetchIfReady (commandLine : Bool) (queue : PushQueue) (turn : DaemonTurn) :
    Except Fault Fetch :=
  if turn.select > 0 ∧ turn.isReady then arduinoPushFetchHandler commandLine queue turn.input
  else .ok ⟨queue, none, []⟩

/-- The call of `newPushHandler` in `parseProcessNextPushNotification`, if it makes one. -/
def notify (commandLine : Bool) (queue : PushQueue) (turn : DaemonTurn) (events : List Event) :
    Except Fault (PushQueue × Option CString) :=
  match events.findSome? Event.told with
  | none => .ok (queue, none)
  | some message =>
      newPushHandler commandLine turn.stray queue message turn.node turn.push_data

/-- The call of the library in an iteration. -/
def served (word : WordSize) (daemon : Daemon) (turn : DaemonTurn) :
    ReceiveBuffer × Unix.Processed :=
  parseProcessNextPushNotification word daemon.buffer
    ⟨daemon.client, turn.answers, turn.seconds⟩

/-- The body of the loop. -/
def iteration (commandLine : Bool) (word : WordSize) (daemon : Daemon) (turn : DaemonTurn) :
    Except Fault (Daemon × DaemonOutput) :=
  let socket := parseGetPushSocket daemon.client turn.info
  if turn.Troubled then
    let stopped := parseStopPushService daemon.client
    .ok (⟨stopped.1, daemon.buffer, daemon.queue, false⟩, ⟨some socket, [], none, stopped.2⟩)
  else do
    let fetch ← fetchIfReady commandLine daemon.queue turn
    let done := served word daemon turn
    let pushed ← notify commandLine fetch.queue turn done.2.events
    .ok (⟨done.2.client, done.1, pushed.1, true⟩,
      { socket := some socket
        writes := fetch.printed.toList.map CString.bytes ++
          pushed.2.toList.map fun push => push.bytes ++ [Byte.lineFeed]
        processed := some done.2
        events := done.2.events })

/-- An iteration as a step. A daemon that does not run does nothing. -/
def daemonStep (commandLine : Bool) (word : WordSize) (daemon : Daemon) (turn : DaemonTurn) :
    Daemon × Except Fault DaemonOutput :=
  if daemon.running then
    match iteration commandLine word daemon turn with
    | .ok (after, output) => (after, .ok output)
    | .error fault => (daemon, .error fault)
  else (daemon, .ok ⟨none, [], none, []⟩)

/-- `main` up to the loop. -/
structure Launched where
  daemon : Daemon
  written : List Byte
  events : List Event

/-- What `main` meets up to the loop: the client of `parseInitialize`, the surroundings of the start
of the push service, the receive buffer as it is, the memory and the address of the sentinel. -/
structure DaemonStart where
  client : ParseClientInternal
  around : Surroundings
  data : Block Byte 2048
  memory : Memory
  queue : Address

def launch (commandLine : Bool) (start : DaemonStart) : Launched :=
  let started := parseStartPushService (parseSetPushCallback start.client true) start.around
  { daemon :=
      { client := started.client
        buffer := unfilled start.data
        queue := initialQueue start.memory start.queue
        running := !(commandLine && started.result ≠ 0) }
    written :=
      if commandLine then []
      else if started.result = 0 then ascii "s\n"
      else ascii "f\n"
    events := started.events }

abbrev DaemonTransition := Runs.Transition Daemon DaemonTurn (Except Fault DaemonOutput)

/-- The iterations of the daemon, and the daemon behind them. -/
def daemonRun (commandLine : Bool) (word : WordSize) (start : DaemonStart)
    (turns : List DaemonTurn) : List DaemonTransition :=
  run (daemonStep commandLine word) (launch commandLine start).daemon turns

def daemonEnd (commandLine : Bool) (word : WordSize) (start : DaemonStart)
    (turns : List DaemonTurn) : Daemon :=
  final (daemonStep commandLine word) (launch commandLine start).daemon turns

namespace DaemonTransition

variable (t : DaemonTransition)

/-- What the iteration has written on standard output, one write after the other. -/
def writes : List (List Byte) :=
  match t.output with
  | .ok output => output.writes
  | .error _ => []

/-- The call of the library, if the iteration has come to it. -/
def processed : Option Unix.Processed :=
  match t.output with
  | .ok output => output.processed
  | .error _ => none

/-- What the library has told the callback. -/
def told : List (Option CString) := ((processed t).map Unix.Processed.told).getD []

/-- What the library has received. -/
def received : List Byte := ((processed t).map Unix.Processed.received).getD []

end DaemonTransition

/-! ## The text of a push -/

/-- The text that the daemon hands over for a message: what a lookup of `data` finds in it, and
nothing where it finds nothing or where the connection has failed. -/
def pushText : Option CString → List Byte
  | none => []
  | some message => (storedText dataKey.bytes message.bytes).getD []

theorem storedAt_length (value : List Byte) : (storedAt value).length ≤ value.length :=
  (extract_written _ _ value.length _ (valueBody value)).2

/-- There is room in `pushBuf` for what there is to store of an object that fits the buffer. -/
theorem storedText_short (k : WordKey) (o : Object) {stored : List Byte}
    (stores : storedText k.bytes o.text = some stored) : stored.length < o.text.length := by
  obtain ⟨value, stopped, -, rfl⟩ := storedText_some stores
  obtain ⟨front, isText, nonempty, -⟩ := split_of_stopped k stopped
  have short := storedAt_length value
  have some := List.length_pos_iff.mpr nonempty
  rw [isText, List.length_append]
  omega

/-- **`pushBuf` holds the text of the push**, for an object that fits the receive buffer. -/
theorem pushBuf_object (stray : Stray) (o : Object) (fits : o.text.length ≤ 2048) :
    (pushBuf stray (some o.string)).bytes = pushText (some o.string) := by
  have looked : simpleJsonProcessor o.string (CString.literal "data") (some (zeros 2047)) 2048 =
      .ok ⟨(storedText dataKey.bytes (Document.text ⟨[], o, []⟩)).isSome.toNat,
        some (storeInto (zeros 2047) 2048
          (storedText dataKey.bytes (Document.text ⟨[], o, []⟩)))⟩ :=
    (lookup_document dataKey ⟨[], o, []⟩ (some (zeros 2047)) 2048).symm.trans
      (lookup_document_stored dataKey ⟨[], o, []⟩ (zeros 2047) 2048)
  have text : Document.text ⟨[], o, []⟩ = o.text := List.append_nil o.text
  rw [text] at looked
  rw [pushBuf, Rtos.lookUp_ok stray looked, pushText]
  change (CString.ofMemory (storeInto _ _ (storedText dataKey.bytes o.text))).bytes =
    (storedText dataKey.bytes o.text).getD []
  cases stores : storedText dataKey.bytes o.text with
  | none => rfl
  | some stored =>
      have short := storedText_short dataKey o stores
      exact (ofMemory_storeInto _ 2048 (storedText_noNul o.noNul stores)).trans
        (List.take_of_length_le (by omega))

/-- Where there is no message the text is empty. -/
theorem pushBuf_none (stray : Stray) : (pushBuf stray none).bytes = pushText none := by
  rfl

/-! ## One iteration -/

/-- `malloc` succeeds: behind the fetch of the iteration it returns two blocks that are not
allocated. -/
def Mallocs (t : DaemonTransition) : Prop :=
  ∀ fetch, fetchIfReady false t.before.queue t.input = .ok fetch →
    fetch.queue.memory t.input.node = none ∧ fetch.queue.memory t.input.push_data = none ∧
      t.input.node ≠ t.input.push_data

/-- The texts of the pushes, as `newPushHandler` leaves them in `pushBuf`. -/
def DaemonTransition.pushes (t : DaemonTransition) : List (List Byte) :=
  (DaemonTransition.told t).map fun message => (pushBuf t.input.stray message).bytes

/-- The texts that these nodes hold. -/
def heldTexts (nodes : List QueueNode) : List (List Byte) := nodes.map fun n => n.push.bytes

theorem fetchIfReady_holds {queue : PushQueue} {nodes : List QueueNode} (holds : Holds queue nodes)
    (turn : DaemonTurn) :
    ∃ fetch, fetchIfReady false queue turn = .ok fetch ∧ ∃ after, Holds fetch.queue after ∧
      fetch.printed.toList.map CString.bytes ++ heldTexts after = heldTexts nodes := by
  rw [fetchIfReady]
  split
  · by_cases asked : turn.input.headD Byte.nul = 110
    · cases nodes with
      | nil => exact ⟨_, fetch_empty holds turn.input, [], holds, rfl⟩
      | cons n rest =>
          obtain ⟨after, done, -, left, -⟩ := fetch_holds holds asked
          exact ⟨_, done, rest, left, rfl⟩
    · exact ⟨_, fetch_other asked, nodes, holds, rfl⟩
  · exact ⟨_, rfl, nodes, holds, rfl⟩

/-- What the callback is told is put behind the queue. -/
theorem notify_holds {queue : PushQueue} {nodes : List QueueNode} (holds : Holds queue nodes)
    (turn : DaemonTurn) {events : List Event} (tells : Unix.Tells events)
    (nodeFree : queue.memory turn.node = none) (dataFree : queue.memory turn.push_data = none)
    (apart : turn.node ≠ turn.push_data) :
    ∃ after, notify false queue turn events = .ok (after, none) ∧ ∃ behind, Holds after behind ∧
      heldTexts behind = heldTexts nodes ++
        (events.filterMap Event.told).map fun message => (pushBuf turn.stray message).bytes := by
  rw [notify, tells.told_eq]
  cases events.findSome? Event.told with
  | none => exact ⟨queue, rfl, nodes, holds, (List.append_nil _).symm⟩
  | some message =>
      obtain ⟨after, done, -, left⟩ :=
        enqueuePush_holds holds (pushBuf turn.stray message) nodeFree dataFree apart
      refine ⟨after, ?_, _, left, List.map_append ..⟩
      change newPushHandler false turn.stray queue message turn.node turn.push_data = _
      rw [newPushHandler_enqueues, done]
      rfl

section Steps

variable {commandLine : Bool} (word : WordSize) {daemon : Daemon} {turn : DaemonTurn}

theorem served_tells (daemon : Daemon) (turn : DaemonTurn) :
    Unix.Tells (served word daemon turn).2.events :=
  Unix.process_told word daemon.buffer _

theorem daemonStep_idle (stopped : ¬ daemon.running = true) :
    daemonStep commandLine word daemon turn = (daemon, .ok ⟨none, [], none, []⟩) := if_neg stopped

variable (running : daemon.running = true)

include running

theorem daemonStep_troubled (troubled : turn.Troubled) :
    daemonStep commandLine word daemon turn =
      (⟨(parseStopPushService daemon.client).1, daemon.buffer, daemon.queue, false⟩,
        .ok ⟨some (parseGetPushSocket daemon.client turn.info), [], none,
          (parseStopPushService daemon.client).2⟩) := by
  rw [daemonStep, if_pos running, iteration, if_pos troubled]

/-- An iteration in which the library is called. -/
theorem daemonStep_serves (untroubled : ¬ turn.Troubled) {fetch : Fetch} {queue : PushQueue}
    {push : Option CString} (fetched : fetchIfReady commandLine daemon.queue turn = .ok fetch)
    (notified : notify commandLine fetch.queue turn (served word daemon turn).2.events =
      .ok (queue, push)) :
    daemonStep commandLine word daemon turn =
      (⟨(served word daemon turn).2.client, (served word daemon turn).1, queue, true⟩,
        .ok
          { socket := some (parseGetPushSocket daemon.client turn.info)
            writes := fetch.printed.toList.map CString.bytes ++
              push.toList.map fun push => push.bytes ++ [Byte.lineFeed]
            processed := some (served word daemon turn).2
            events := (served word daemon turn).2.events }) := by
  rw [daemonStep, if_pos running, iteration, if_neg untroubled, fetched]
  simp only [ok_bind, notified]

end Steps

/-- **One iteration keeps the order**: what it writes and what the queue holds behind it is what the
queue held and what the callback has been told. -/
theorem daemonStep_fifo (word : WordSize) {daemon : Daemon} {nodes : List QueueNode}
    (holds : Holds daemon.queue nodes) (turn : DaemonTurn)
    (mallocs : Mallocs (fire (daemonStep false word) daemon turn)) :
    (∃ output, (fire (daemonStep false word) daemon turn).output = .ok output) ∧
      ∃ after, Holds (daemonStep false word daemon turn).1.queue after ∧
        DaemonTransition.writes (fire (daemonStep false word) daemon turn) ++ heldTexts after =
          heldTexts nodes ++
            DaemonTransition.pushes (fire (daemonStep false word) daemon turn) := by
  by_cases running : daemon.running = true
  swap
  · rw [fire, daemonStep_idle word running]
    exact ⟨⟨_, rfl⟩, nodes, holds, (List.append_nil _).symm⟩
  by_cases troubled : turn.Troubled
  · rw [fire, daemonStep_troubled word running troubled]
    refine ⟨⟨_, rfl⟩, nodes, holds, (List.append_nil _).symm⟩
  obtain ⟨fetch, fetched, middle, holdsMiddle, first⟩ := fetchIfReady_holds holds turn
  obtain ⟨nodeFree, dataFree, apart⟩ := mallocs fetch fetched
  obtain ⟨queue, notified, after, holdsAfter, second⟩ :=
    notify_holds holdsMiddle turn (served_tells word daemon turn) nodeFree dataFree apart
  rw [fire, daemonStep_serves word running troubled fetched notified]
  refine ⟨⟨_, rfl⟩, after, holdsAfter, ?_⟩
  change (fetch.printed.toList.map CString.bytes ++ []) ++ heldTexts after = heldTexts nodes ++
    ((served word daemon turn).2.events.filterMap Event.told).map _
  rw [List.append_nil, second, ← List.append_assoc, first]

/-! ## The calls of the library -/

/-- What a run has received on the push connection. -/
def receivedIn (run : List DaemonTransition) : List Byte := run.flatMap DaemonTransition.received

/-- What the callback has been told in a run. -/
def toldIn (run : List DaemonTransition) : List (Option CString) :=
  run.flatMap DaemonTransition.told

/-- An iteration that comes to the library leaves its buffer behind, and any other leaves the
buffer alone. The callback stays set. -/
theorem daemonStep_library (commandLine : Bool) (word : WordSize) (daemon : Daemon)
    (turn : DaemonTurn) :
    (DaemonTransition.processed (fire (daemonStep commandLine word) daemon turn) = none ∧
        (daemonStep commandLine word daemon turn).1.buffer = daemon.buffer ∨
      DaemonTransition.processed (fire (daemonStep commandLine word) daemon turn) =
          some (served word daemon turn).2 ∧
        (daemonStep commandLine word daemon turn).1.buffer = (served word daemon turn).1) ∧
      (daemonStep commandLine word daemon turn).1.client.pushCallback =
        daemon.client.pushCallback := by
  by_cases running : daemon.running = true
  swap
  · rw [fire, daemonStep_idle word running]
    exact ⟨.inl ⟨rfl, rfl⟩, rfl⟩
  by_cases troubled : turn.Troubled
  · rw [fire, daemonStep_troubled word running troubled]
    exact ⟨.inl ⟨rfl, rfl⟩, Unix.parseStopPushService_callback daemon.client⟩
  cases fetched : fetchIfReady commandLine daemon.queue turn with
  | error fault =>
      have failed : daemonStep commandLine word daemon turn = (daemon, .error fault) := by
        rw [daemonStep, if_pos running, iteration, if_neg troubled, fetched]
        rfl
      rw [fire, failed]
      exact ⟨.inl ⟨rfl, rfl⟩, rfl⟩
  | ok fetch =>
      cases notified : notify commandLine fetch.queue turn (served word daemon turn).2.events with
      | error fault =>
          have failed : daemonStep commandLine word daemon turn = (daemon, .error fault) := by
            rw [daemonStep, if_pos running, iteration, if_neg troubled, fetched]
            simp only [ok_bind, notified]
            rfl
          rw [fire, failed]
          exact ⟨.inl ⟨rfl, rfl⟩, rfl⟩
      | ok pushed =>
          rw [fire, daemonStep_serves word running troubled fetched notified]
          exact ⟨.inr ⟨rfl, rfl⟩, Unix.parseProcessNextPushNotification_callback word _ _⟩

/-- **A run of the daemon listens to the push service.** -/
theorem run_hears (commandLine : Bool) (word : WordSize) (turns : List DaemonTurn) :
    ∀ daemon : Daemon, daemon.client.pushCallback = true →
      Hears word daemon.buffer (receivedIn (run (daemonStep commandLine word) daemon turns))
        (toldIn (run (daemonStep commandLine word) daemon turns))
        (final (daemonStep commandLine word) daemon turns).buffer := by
  induction turns with
  | nil => exact fun _ _ => .nothing word _
  | cons turn turns ih =>
      intro daemon callback
      obtain ⟨step, keeps⟩ := daemonStep_library commandLine word daemon turn
      refine Hears.append ?_ (ih _ (keeps.trans callback))
      rcases step with ⟨none, kept⟩ | ⟨some, left⟩
      · rw [DaemonTransition.received, DaemonTransition.told, none, kept]
        exact .nothing word daemon.buffer
      · rw [DaemonTransition.received, DaemonTransition.told, some, left]
        exact .call word daemon.buffer _ callback

/-! ## Runs in which the sketch asks -/

/-- What a run has written on standard output. -/
def writtenIn (run : List DaemonTransition) : List (List Byte) :=
  run.flatMap DaemonTransition.writes

/-- No iteration meets a fault. -/
def Faultless (run : List DaemonTransition) : Prop :=
  ∀ t ∈ run, ∃ output, t.output = .ok output

theorem run_daemon_fifo (word : WordSize) (turns : List DaemonTurn) :
    ∀ {daemon : Daemon} {nodes : List QueueNode}, Holds daemon.queue nodes →
      (∀ t ∈ run (daemonStep false word) daemon turns, Mallocs t) →
      Faultless (run (daemonStep false word) daemon turns) ∧
        ∃ after, Holds (final (daemonStep false word) daemon turns).queue after ∧
          writtenIn (run (daemonStep false word) daemon turns) ++ heldTexts after =
            heldTexts nodes ++
              (run (daemonStep false word) daemon turns).flatMap DaemonTransition.pushes := by
  induction turns with
  | nil =>
      intro daemon nodes holds _
      exact ⟨fun _ member => absurd member List.not_mem_nil, nodes, holds,
        (List.append_nil _).symm⟩
  | cons turn turns ih =>
      intro daemon nodes holds mallocs
      obtain ⟨here, there⟩ := List.forall_mem_cons.mp mallocs
      obtain ⟨done, middle, holdsMiddle, order⟩ := daemonStep_fifo word holds turn here
      obtain ⟨allDone, after, holdsAfter, orders⟩ := ih holdsMiddle there
      refine ⟨List.forall_mem_cons.mpr ⟨done, allDone⟩, after, holdsAfter, ?_⟩
      rw [run_cons, writtenIn, List.flatMap_cons, List.flatMap_cons, List.append_assoc,
        ← List.append_assoc (heldTexts nodes), ← order, List.append_assoc]
      exact congrArg _ orders

/-- What is handed over of a text that is no heartbeat. -/
def dataText (text : List Byte) : List Byte := (storedText dataKey.bytes text).getD []

/-- What the callback has been told, with what is still to come, are the objects sent. -/
theorem told_of_stream (commandLine : Bool) (word : WordSize) (start : DaemonStart)
    (turns : List DaemonTurn) {lines : List Line} {todo : List Byte}
    (stream : receivedIn (daemonRun commandLine word start turns) ++ todo = streamText lines)
    (lineFeeds : Unix.LineFeeds lines) (fits : ∀ line ∈ lines, line.object.text.length ≤ 2048) :
    textsOf (toldIn (daemonRun commandLine word start turns)) ++
        withoutBeats (messages
          ((daemonEnd commandLine word start turns).buffer.unread ++ todo)) =
      withoutBeats (lines.map fun line => line.object.text) :=
  (run_hears commandLine word turns (launch commandLine start).daemon
    (Unix.parseStartPushService_callback _ start.around)).stream stream lineFeeds fits

/-- In such a run `pushBuf` holds the text of each push. -/
theorem pushBuf_of_told {run : List DaemonTransition} {rest : List (List Byte)} {lines : List Line}
    (fits : ∀ line ∈ lines, line.object.text.length ≤ 2048)
    (heard : textsOf (toldIn run) ++ rest = withoutBeats (lines.map fun line => line.object.text))
    {t : DaemonTransition} (member : t ∈ run) (stray : Stray) :
    ∀ message ∈ DaemonTransition.told t, (pushBuf stray message).bytes = pushText message := by
  intro message isTold
  cases message with
  | none => exact pushBuf_none stray
  | some message =>
      obtain ⟨line, isLine, rfl, -⟩ :=
        Unix.isObject_of_told heard (List.mem_flatMap.mpr ⟨t, member, isTold⟩)
      exact pushBuf_object stray line.object (fits line isLine)

/-- **The sketch gets every push, in its order.** In every run of the daemon that a sketch asks for
its pushes, where the server sends objects that fit the buffer on lines of their own and `malloc`
returns blocks that are not allocated: no pointer is used wrongly; what has been written so far,
followed by what the queue holds, are the texts of what the callback has been told, an empty one
for each failure of the connection; and the messages it has been told, followed by those that are
still to come, are the objects sent that are no heartbeats. -/
theorem daemon_delivers (word : WordSize) (start : DaemonStart) (turns : List DaemonTurn)
    (lines : List Line) (todo : List Byte)
    (mallocs : ∀ t ∈ daemonRun false word start turns, Mallocs t)
    (stream : receivedIn (daemonRun false word start turns) ++ todo = streamText lines)
    (lineFeeds : Unix.LineFeeds lines) (fits : ∀ line ∈ lines, line.object.text.length ≤ 2048) :
    Faultless (daemonRun false word start turns) ∧
      ∃ nodes, Holds (daemonEnd false word start turns).queue nodes ∧
        writtenIn (daemonRun false word start turns) ++ heldTexts nodes =
          (toldIn (daemonRun false word start turns)).map pushText ∧
        textsOf (toldIn (daemonRun false word start turns)) ++
            withoutBeats (messages ((daemonEnd false word start turns).buffer.unread ++ todo)) =
          withoutBeats (lines.map fun line => line.object.text) := by
  have told := told_of_stream false word start turns stream lineFeeds fits
  obtain ⟨faultless, nodes, holds, order⟩ :=
    run_daemon_fifo word turns (initialQueue_holds start.memory start.queue) mallocs
  refine ⟨faultless, nodes, holds, ?_, told⟩
  refine order.trans ?_
  rw [toldIn, List.map_flatMap]
  exact List.flatMap_congr fun t member => List.map_congr_left
    (pushBuf_of_told fits told member t.input.stray)

/-- A push with this text on a line of its own. -/
def dataLine (text : String) : Line :=
  ⟨.of (.last [] (.plain "data") [] [] (.string (.plain text)) []), .lineFeed⟩

/-- Two pushes, and a heartbeat between them. -/
def dataLines : List Line := [dataLine "hi", ⟨.empty [], .lineFeed⟩, dataLine "you"]

theorem dataLines_lineFeeds : Unix.LineFeeds dataLines :=
  show ∀ line ∈ dataLines, line.ending = .lineFeed by decide

/-- A start that gets a connection. -/
def daemonStart : DaemonStart where
  client := { Unix.openClient with pushCurlHandle := none }
  around := ⟨CString.literal "", CString.literal "id", some 0, 0, 0, 0, 0, 0⟩
  data := Block.fill 2048 Byte.nul
  memory := fun _ => none
  queue := 0

def someStray : Stray := ⟨CString.literal "", false, false⟩

/-- The first push comes in with two reads, the heartbeat while the sketch asks for the push, and
the second push, of which the sketch asks too, with a read that has no more bytes. -/
def askingTurns : List DaemonTurn :=
  let bytes := streamText dataLines
  [⟨⟨0, 5⟩, 1, false, false, [], [.ok (bytes.take 9), .again], 0, someStray, 1, 2⟩,
    ⟨⟨0, 5⟩, 1, false, false, [], [.ok ((bytes.drop 9).take 10)], 0, someStray, 1, 2⟩,
    ⟨⟨0, 5⟩, 1, false, true, ascii "n", [.ok (bytes.drop 19)], 0, someStray, 3, 4⟩,
    ⟨⟨0, 5⟩, 1, false, false, [], [.ok []], 0, someStray, 3, 4⟩,
    ⟨⟨0, 5⟩, 1, false, true, ascii "n", [], 0, someStray, 5, 6⟩]

/-- The two blocks are free behind the fetch. -/
theorem mallocs_of_free {t : DaemonTransition}
    (free : (fetchIfReady false t.before.queue t.input).map (fun fetch =>
      (fetch.queue.memory t.input.node, fetch.queue.memory t.input.push_data)) =
        .ok (none, none) ∧ t.input.node ≠ t.input.push_data) : Mallocs t := by
  intro fetch fetched
  obtain ⟨free, differ⟩ := free
  rw [fetched] at free
  obtain ⟨node, push_data⟩ := Prod.mk.inj (Except.ok.inj free)
  exact ⟨node, push_data, differ⟩

theorem daemon_delivers_asking :
    writtenIn (daemonRun false .bits64 daemonStart askingTurns) = [ascii "hi", ascii "you"] ∧
      Faultless (daemonRun false .bits64 daemonStart askingTurns) := by
  have free : ∀ t ∈ daemonRun false .bits64 daemonStart askingTurns,
      (fetchIfReady false t.before.queue t.input).map (fun fetch =>
        (fetch.queue.memory t.input.node, fetch.queue.memory t.input.push_data)) =
          .ok (none, none) ∧ t.input.node ≠ t.input.push_data := by
    decide +kernel
  exact ⟨by decide +kernel,
    (daemon_delivers .bits64 daemonStart askingTurns dataLines []
      (fun t member => mallocs_of_free (free t member)) (by decide +kernel) dataLines_lineFeeds
      (by decide)).1⟩

/-! ## Runs on a command line -/

/-- With `-c` a push is printed at once on a line of its own, and standard input is not read. -/
theorem daemonStep_prints (word : WordSize) (daemon : Daemon) (turn : DaemonTurn) :
    (∃ output, (fire (daemonStep true word) daemon turn).output = .ok output) ∧
      (daemonStep true word daemon turn).1.queue = daemon.queue ∧
      DaemonTransition.writes (fire (daemonStep true word) daemon turn) =
        (DaemonTransition.told (fire (daemonStep true word) daemon turn)).filterMap
          (Option.map fun message =>
            (pushBuf turn.stray (some message)).bytes ++ [Byte.lineFeed]) := by
  by_cases running : daemon.running = true
  swap
  · rw [fire, daemonStep_idle word running]
    exact ⟨⟨_, rfl⟩, rfl, rfl⟩
  by_cases troubled : turn.Troubled
  · rw [fire, daemonStep_troubled word running troubled]
    exact ⟨⟨_, rfl⟩, rfl, rfl⟩
  have fetched : fetchIfReady true daemon.queue turn = .ok ⟨daemon.queue, none, []⟩ :=
    ite_self _
  have tells := (served_tells word daemon turn).told_eq
  cases told : (served word daemon turn).2.events.findSome? Event.told with
  | none =>
      have notified : notify true daemon.queue turn (served word daemon turn).2.events =
          .ok (daemon.queue, none) := by
        rw [notify, told]
      rw [fire, daemonStep_serves word running troubled fetched notified]
      refine ⟨⟨_, rfl⟩, rfl, ?_⟩
      change [] = ((served word daemon turn).2.events.filterMap Event.told).filterMap _
      rw [tells, told]
      rfl
  | some message =>
      have notified : notify true daemon.queue turn (served word daemon turn).2.events =
          .ok (daemon.queue,
            if message = none then none else some (pushBuf turn.stray message)) := by
        rw [notify, told]
        rfl
      rw [fire, daemonStep_serves word running troubled fetched notified]
      refine ⟨⟨_, rfl⟩, rfl, ?_⟩
      change _ = ((served word daemon turn).2.events.filterMap Event.told).filterMap _
      rw [tells, told]
      cases message with
      | none => rfl
      | some message => rfl

/-- A push on a line of its own. -/
def pushLine (text : List Byte) : List Byte := dataText text ++ [Byte.lineFeed]

/-- **On a command line every push is printed, in its order.** In every run of the daemon with `-c`,
where the server sends objects that fit the buffer on lines of their own: no pointer is used
wrongly, nothing is put into the queue, and the lines printed so far, followed by those of the
messages that are still to come, are the lines of the objects sent that are no heartbeats. -/
theorem daemon_prints (word : WordSize) (start : DaemonStart) (turns : List DaemonTurn)
    (lines : List Line) (todo : List Byte)
    (stream : receivedIn (daemonRun true word start turns) ++ todo = streamText lines)
    (lineFeeds : Unix.LineFeeds lines) (fits : ∀ line ∈ lines, line.object.text.length ≤ 2048) :
    Faultless (daemonRun true word start turns) ∧
      (daemonEnd true word start turns).queue = initialQueue start.memory start.queue ∧
      writtenIn (daemonRun true word start turns) ++
          (withoutBeats (messages
            ((daemonEnd true word start turns).buffer.unread ++ todo))).map pushLine =
        (withoutBeats (lines.map fun line => line.object.text)).map pushLine := by
  have told := told_of_stream true word start turns stream lineFeeds fits
  have kept := run_always (daemonStep true word)
    (fun daemon => daemon.queue = initialQueue start.memory start.queue)
    (fun daemon turn same => (daemonStep_prints word daemon turn).2.1.trans same)
    (s := (launch true start).daemon) rfl turns
  have steps : ∀ t ∈ daemonRun true word start turns,
      (∃ output, t.output = .ok output) ∧ DaemonTransition.writes t =
        (DaemonTransition.told t).filterMap (Option.map fun message =>
          (pushBuf t.input.stray (some message)).bytes ++ [Byte.lineFeed]) := by
    intro t member
    rw [eq_fire_of_mem _ member]
    obtain ⟨done, -, writes⟩ := daemonStep_prints word t.before t.input
    exact ⟨done, writes⟩
  refine ⟨fun t member => (steps t member).1, kept.2, ?_⟩
  rw [← told, List.map_append]
  refine congrArg (· ++ _) ?_
  rw [writtenIn, textsOf, toldIn, List.filterMap_flatMap, List.map_flatMap]
  refine List.flatMap_congr fun t member => ?_
  rw [(steps t member).2, List.map_filterMap]
  refine List.filterMap_congr fun message isTold => ?_
  have same := pushBuf_of_told fits told member t.input.stray message isTold
  cases message with
  | none => rfl
  | some message => exact congrArg (fun text => some (text ++ [Byte.lineFeed])) same

/-- The lines of the two pushes, without standard input. -/
theorem daemon_prints_hi :
    writtenIn (daemonRun true .bits64 daemonStart askingTurns) = [ascii "hi\n", ascii "you\n"] ∧
      Faultless (daemonRun true .bits64 daemonStart askingTurns) :=
  ⟨by decide +kernel,
    (daemon_prints .bits64 daemonStart askingTurns dataLines [] (by decide +kernel)
      dataLines_lineFeeds (by decide)).1⟩

/-! ## A start that fails -/

/-- The sketch is told of a failure exactly where the client has no connection. -/
theorem launch_failed {start : DaemonStart} (idle : start.client.pushCurlHandle = none)
    (failed : (launch false start).written = ascii "f\n") :
    (launch false start).daemon.client.pushCurlHandle = none := by
  have notStarted : (parseStartPushService (parseSetPushCallback start.client true)
      start.around).result ≠ 0 := by
    intro started
    have written : (launch false start).written = ascii "s\n" := by
      simp [launch, started]
    rw [written] at failed
    exact absurd failed (by decide)
  by_contra connected
  have idle' : (parseSetPushCallback start.client true).pushCurlHandle = none := idle
  exact notStarted ((Unix.parseStartPushService_result idle' start.around).mpr connected)

/-- Without a connection and with an empty queue an iteration does nothing. -/
theorem daemonStep_unconnected (word : WordSize) {daemon : Daemon}
    (unconnected : daemon.client.pushCurlHandle = none) (holds : Holds daemon.queue [])
    (turn : DaemonTurn) :
    (daemonStep false word daemon turn).2 =
        .ok ⟨if daemon.running then some (-2) else none, [],
          DaemonTransition.processed (fire (daemonStep false word) daemon turn), []⟩ ∧
      (daemonStep false word daemon turn).1.client.pushCurlHandle = none ∧
        (daemonStep false word daemon turn).1.queue = daemon.queue := by
  by_cases running : daemon.running = true
  swap
  · rw [fire, daemonStep_idle word running, if_neg running]
    exact ⟨rfl, unconnected, rfl⟩
  have socket : parseGetPushSocket daemon.client turn.info = -2 :=
    Unix.parseGetPushSocket_stopped (not_not.mpr unconnected) turn.info
  have stopped : parseStopPushService daemon.client = (daemon.client, []) := by
    rw [parseStopPushService, unconnected]
  by_cases troubled : turn.Troubled
  · rw [fire, daemonStep_troubled word running troubled, stopped, if_pos running, socket]
    exact ⟨rfl, unconnected, rfl⟩
  have silent : served word daemon turn = (daemon.buffer, ⟨0, daemon.client, [], [], [], none⟩) :=
    if_pos unconnected
  have fetched : fetchIfReady false daemon.queue turn = .ok ⟨daemon.queue, none, []⟩ := by
    rw [fetchIfReady, fetch_empty holds]
    exact ite_self _
  have notified : notify false daemon.queue turn (served word daemon turn).2.events =
      .ok (daemon.queue, none) := by
    rw [silent]
    rfl
  rw [fire, daemonStep_serves word running troubled fetched notified, silent, if_pos running,
    socket]
  exact ⟨rfl, unconnected, rfl⟩

/-- **A daemon that has told the sketch of a failure does nothing any more.** It goes on to wait for
the socket -2, until `select` reports a problem of it; it never tries to connect again, and no
sketch that asks gets an answer. -/
theorem daemon_failed (word : WordSize) (start : DaemonStart) (turns : List DaemonTurn)
    (idle : start.client.pushCurlHandle = none)
    (failed : (launch false start).written = ascii "f\n") :
    ∀ t ∈ daemonRun false word start turns, ∃ processed,
      t.output = .ok ⟨if t.before.running then some (-2) else none, [], processed, []⟩ := by
  refine run_forall (daemonStep false word)
    (fun daemon => daemon.client.pushCurlHandle = none ∧ Holds daemon.queue [])
    _ ?_ ?_ turns ⟨launch_failed idle failed, initialQueue_holds start.memory start.queue⟩
  · rintro daemon turn ⟨unconnected, holds⟩
    obtain ⟨-, stays, same⟩ := daemonStep_unconnected word unconnected holds turn
    exact ⟨stays, same ▸ holds⟩
  · rintro daemon turn ⟨unconnected, holds⟩
    exact ⟨_, (daemonStep_unconnected word unconnected holds turn).1⟩

/-- A start for which `curl_easy_init` has no handle. -/
def failingStart : DaemonStart :=
  { daemonStart with around := { daemonStart.around with curl := none } }

theorem daemon_failed_asking :
    (launch false failingStart).written = ascii "f\n" ∧
      ∀ t ∈ daemonRun false .bits64 failingStart askingTurns, ∃ processed,
        t.output = .ok ⟨if t.before.running then some (-2) else none, [], processed, []⟩ :=
  ⟨by decide, daemon_failed .bits64 failingStart askingTurns rfl (by decide)⟩

end ParseEmbedded.Yun
