import ParseEmbedded.Push.Contents
import ParseEmbedded.Rtos.PushBuffer

/-!
# The push loop on an RTOS

`parseRunPushLoop` of `push.c` processes notifications until the socket is -1, and nothing but a
failure of pings makes it so. Where the server sends objects on lines that end in a line feed, the
loop takes the lines one after the other, whatever their lengths and however the socket cuts them:
`push_loop_notices` says what the callback hears, when the client is saved, and which time it has.
No line is changed, lost or doubled; those that have not been taken are still to be read. What the
socket reads return is meant here, a read that fails behind some bytes returns none.
-/

set_option autoImplicit false

namespace ParseEmbedded.Rtos

open Json SimpleJson Push

/-! ## The source -/

/-- What a round of the loop meets: the answers of the socket, whether it is time for a ping, and
what `send` answers to it. -/
structure LoopRound where
  reads : List (List SocketRound)
  isPingTime : Bool
  send : Int

/-- The client and the receive buffer. -/
structure LoopState where
  client : ParseClientInternal
  buffer : PushDataBuffer

/-- `parseRunPushLoop`, for these rounds. -/
def parseRunPushLoop : LoopState → List LoopRound → LoopState × List Outcome
  | s, [] => (s, [])
  | s, meets :: rounds =>
      if s.client.socketHandle ≠ -1 then
        let (buffer, out) := parseProcessNextPushNotification s.buffer
          ⟨s.client, meets.reads, meets.isPingTime, meets.send⟩
        let rest := parseRunPushLoop ⟨out.client, buffer⟩ rounds
        (rest.1, out :: rest.2)
      else (s, [])

/-- The bytes that the rounds have received. -/
def receivedIn (outs : List Outcome) : List Byte := outs.flatMap Outcome.received

/-! ## What the application sees -/

/-- An event that reaches the application: a call of its callback, or a saved state. -/
def Event.isNotice : Event → Bool
  | .callback _ _ => true
  | .saveClientState => true
  | _ => false

def notices (outs : List Outcome) : List Event :=
  outs.flatMap fun out => out.events.filter Event.isNotice

/-- What the application sees of a line: the client is saved if the line has a time, and the
callback hears it if it is no heartbeat. -/
def noticesOf (line : Push.Line) : List Event :=
  (if (storedTime line).isSome then [.saveClientState] else []) ++
    if isBeat line.object.text then [] else [.callback 0 (some line.object.string)]

/-- What it sees when the service is given up. -/
def lastNotice (client : ParseClientInternal) : List Event :=
  if client.socketHandle = -1 then [.callback (-1) none] else []

/-- Lines are read from the buffer and from what is still to come. -/
structure OnStream (buffer : PushDataBuffer) (todo : List Byte) (lines : List Push.Line) :
    Prop where
  bounded : Bounded buffer
  stream : ∃ lead : Separator, buffer.unread ++ todo = lead.bytes ++ streamText lines ∧
    (0 ≤ buffer.used → lead.bytes = [])

/-- From one state to another these lines have been taken, and the others are still to come. -/
structure Takes (before : LoopState) (outs : List Outcome) (after : LoopState) (todo : List Byte)
    (done left : List Push.Line) : Prop where
  onStream : OnStream after.buffer todo left
  seen : notices outs = done.flatMap noticesOf ++ lastNotice after.client
  time : (CString.ofMemory after.client.lastPushTime).bytes =
    ((done.filterMap (lineTime 39)).getLast?).getD
      (CString.ofMemory before.client.lastPushTime).bytes
  callback : after.client.callback = before.client.callback
  socket : after.client.socketHandle = -1 ∨
    after.client.socketHandle = before.client.socketHandle

/-! ## One call -/

/-- The receive loop finds nothing, or a message. -/
theorem receiveLoop_cases {before : PushDataBuffer} (bounded : Bounded before) {call : Call}
    (isOpen : call.client.socketHandle > 0) :
    ∃ loop, receiveLoop call.client.socketHandle call.reads (.begin before) = loop ∧
      Collected before loop ∧ (before.used = -1 → loop.received = []) ∧
      (loop.length = -1 ∨ ∃ m : Message, completeMessage loop.buffer.unread = some m ∧
        loop.length = m.length ∧ loop.message = some m.start) := by
  refine ⟨_, rfl, ?_⟩
  by_cases heard : hears before call = true
  · obtain ⟨collected, looked⟩ := receiveLoop_hears bounded heard
    have nonneg : 0 ≤ before.used := by
      simp only [hears, decide_eq_true_eq] at heard
      exact ((Loop.goesOn_iff bounded.1 bounded.2).mp heard.2.1).2
    refine ⟨collected, fun negative => by omega, ?_⟩
    rcases looked with ⟨-, length⟩ | ⟨m, complete, length, index⟩
    · exact .inl length
    · exact .inr ⟨m, complete, length, index⟩
  · obtain ⟨collected, silent⟩ :=
      receiveLoop_silent bounded isOpen (Bool.not_eq_true _ ▸ heard)
    exact ⟨collected, fun _ => silent.received, .inl silent.length⟩

/-- A call finds nothing, or a message. -/
theorem process_cases {before : PushDataBuffer} (bounded : Bounded before) {call : Call}
    (isOpen : call.client.socketHandle > 0) :
    ∃ loop, Collected before loop ∧ (before.used = -1 → loop.received = []) ∧
      (parseProcessNextPushNotification before call = processNothing call loop ∨
        ∃ m : Message, completeMessage loop.buffer.unread = some m ∧ loop.length = m.length ∧
          parseProcessNextPushNotification before call =
            processMessage call.client loop m.start) := by
  obtain ⟨loop, isLoop, collected, deaf, cases⟩ := receiveLoop_cases bounded isOpen
  rw [parseProcessNextPushNotification, if_pos isOpen, isLoop]
  refine ⟨loop, collected, deaf, ?_⟩
  rcases cases with length | ⟨m, complete, length, index⟩
  · exact .inl (processReceived_nothing collected length)
  · have two := (isIn_of_completeMessage complete).two_le
    exact .inr ⟨m, complete, length, processReceived_message collected (by omega) index⟩

/-- What is sent to keep the connection alive concerns the application only when it is given up. -/
theorem sendPing_notices {client : ParseClientInternal} (callback : client.callback = true)
    (isOpen : client.socketHandle > 0) (isPingTime : Bool) (send : Int) :
    (sendPing client isPingTime send).2.filter Event.isNotice =
        lastNotice (sendPing client isPingTime send).1 ∧
      (sendPing client isPingTime send).1.lastPushTime = client.lastPushTime ∧
      (sendPing client isPingTime send).1.callback = client.callback ∧
      ((sendPing client isPingTime send).1.socketHandle = -1 ∨
        (sendPing client isPingTime send).1.socketHandle = client.socketHandle) := by
  have stays : client.socketHandle ≠ -1 := by omega
  have called : client.call (-1) none = [.callback (-1) none] := if_pos callback
  rw [sendPing]
  split
  · dsimp only
    split
    · split
      · rw [called]
        exact ⟨rfl, rfl, rfl, .inl rfl⟩
      · exact ⟨(if_neg stays).symm, rfl, rfl, .inr rfl⟩
    · exact ⟨(if_neg stays).symm, rfl, rfl, .inr rfl⟩
  · exact ⟨(if_neg stays).symm, rfl, rfl, .inr rfl⟩

/-- What a client remembers of a line. -/
theorem rememberTime_line (client : ParseClientInternal) (line : Push.Line) :
    rememberTime client line.object.string =
      ({ client with lastPushTime := storeInto client.lastPushTime 40 (storedTime line) },
        if (storedTime line).isSome then [.saveClientState] else []) := by
  have looked := lookup_time line client.lastPushTime PUSH_TIME_MAX_LEN
  rw [TIME] at looked
  rw [rememberTime, looked]
  cases storedTime line <;> rfl

theorem string_storeInto (buffer : List Byte) (line : Push.Line) :
    (CString.ofMemory (storeInto buffer 40 (storedTime line))).bytes =
      (lineTime 39 line).getD (CString.ofMemory buffer).bytes := by
  rw [lineTime]
  cases stores : storedTime line with
  | none => rfl
  | some time => exact ofMemory_storeInto buffer 40 (storedTime_noNul stores)

section Round

variable {client : ParseClientInternal} {buffer : PushDataBuffer} {loop : Loop}
  {lines : List Push.Line} {todo : List Byte}

/-- What the receive loop has collected is on the stream. -/
theorem OnStream.collected (onStream : OnStream buffer (loop.received ++ todo) lines)
    (collected : Collected buffer loop) (deaf : buffer.used = -1 → loop.received = []) :
    OnStream loop.buffer todo lines where
  bounded := ⟨collected.lower, collected.upper⟩
  stream := by
    obtain ⟨lead, stream, aligned⟩ := onStream.stream
    refine ⟨lead, ?_, fun nonneg => aligned ?_⟩
    · rw [collected.unread, List.append_assoc]
      exact stream
    · by_contra negative
      have used := collected.used
      have lower := onStream.bounded.1
      rw [deaf (by omega)] at used
      dsimp only [List.length_nil] at used
      omega

/-- **A message on the stream is its first line**, and the stream goes on behind it. -/
theorem OnStream.message (onStream : OnStream loop.buffer todo lines)
    (client : ParseClientInternal) (lineFeeds : ∀ line ∈ lines, line.ending = .lineFeed)
    {m : Message} (complete : completeMessage loop.buffer.unread = some m)
    (length : loop.length = m.length) :
    ∃ line rest, lines = line :: rest ∧ m.start = 0 ∧
      (loop.buffer.terminate (m.start + loop.length.toNat)).string m.start = line.object.string ∧
      OnStream (processMessage client loop m.start).1 todo rest := by
  obtain ⟨lead, stream, aligned⟩ := onStream.stream
  obtain ⟨lower, upper⟩ := onStream.bounded
  have isIn := isIn_of_completeMessage complete
  have fits := isIn.inside
  have inside : loop.buffer.used ≤ (1024 : Nat) := by omega
  rw [PushBuffer.length_unread inside] at fits
  have two := isIn.two_le
  have noLead : lead.bytes = [] := aligned (by omega)
  have count : loop.length.toNat = m.length := by omega
  rcases completeMessage_stream stream with ⟨none, -⟩ | ⟨line, rest, tail, rfl, found, text, behind⟩
  · exact absurd (complete.symm.trans none) (Option.some_ne_none m)
  have same := Option.some.inj (complete.symm.trans found)
  rw [noLead, List.nil_append] at text
  have isFirst : m.start = 0 := by rw [same, noLead, List.length_nil]
  have isLength : m.length = line.object.text.length := by rw [same]
  have isText : m.text loop.buffer.unread = line.object.text := by
    rw [Message.text, isFirst, isLength, text, List.drop_zero, List.take_left]
  have bytes := PushBuffer.string_terminate inside isIn
  rw [isText] at bytes
  refine ⟨line, rest, rfl, isFirst, CString.ext_bytes (count ▸ bytes), ?_⟩
  -- the byte taken off with the message is its line feed
  have ends : tail ++ todo = Byte.lineFeed :: streamText rest := by
    rw [behind, lineFeeds line (List.mem_cons_self ..)]
    rfl
  have whole := congrArg List.length text
  rw [PushBuffer.length_unread inside, List.length_append] at whole
  have kept : (processMessage client loop m.start).1.unread = tail.drop 1 := by
    have inside' : (loop.buffer.terminate (m.start + m.length)).used ≤ (1024 : Nat) := inside
    rw [processMessage, count]
    refine (PushBuffer.unread_consume inside' m.length).trans ?_
    rw [PushBuffer.unread_terminate, text, isFirst, isLength, Nat.zero_add]
    cases tail with
    | nil => simp
    | cons c tail =>
        rw [List.set_append_right _ _ (Nat.le_refl _), Nat.sub_self, ← List.drop_drop]
        simp
  have used : (processMessage client loop m.start).1.used =
      loop.buffer.used - (line.object.text.length + 1) := by
    change ((loop.buffer.terminate _).consume _).used = _
    rw [PushBuffer.used_consume, PushBuffer.used_terminate, count, isLength]
  refine ⟨⟨by omega, by omega⟩, ?_⟩
  rw [kept]
  cases tail with
  | nil =>
      refine ⟨LineEnding.lineFeed.separator, ends, fun nonneg => ?_⟩
      dsimp only [List.length_nil] at whole
      omega
  | cons c tail => exact ⟨Separator.none, (List.cons.inj ends).2, fun _ => rfl⟩

/-- **One call takes nothing, or the first line.** -/
theorem round_takes (call : Call) (callback : call.client.callback = true)
    (isOpen : call.client.socketHandle > 0) (lineFeeds : ∀ line ∈ lines, line.ending = .lineFeed)
    (onStream : OnStream buffer
      ((parseProcessNextPushNotification buffer call).2.received ++ todo) lines) :
    ∃ done left, lines = done ++ left ∧
      Takes ⟨call.client, buffer⟩ [(parseProcessNextPushNotification buffer call).2]
        ⟨(parseProcessNextPushNotification buffer call).2.client,
          (parseProcessNextPushNotification buffer call).1⟩ todo done left := by
  have stays : call.client.socketHandle ≠ -1 := by omega
  obtain ⟨loop, collected, deaf, nothing | ⟨m, complete, length, found⟩⟩ :=
    process_cases onStream.bounded isOpen
  · rw [nothing] at onStream ⊢
    obtain ⟨seen, time, same, socket⟩ :=
      sendPing_notices callback isOpen call.isPingTime call.send
    have onStream : OnStream loop.buffer todo lines := onStream.collected collected deaf
    refine ⟨[], lines, rfl, onStream, ?_, ?_, same, socket⟩
    · rw [notices, List.flatMap_singleton]
      exact seen
    · exact congrArg (fun time => (CString.ofMemory time).bytes) time
  · rw [found] at onStream ⊢
    have onStream : OnStream loop.buffer todo lines := onStream.collected collected deaf
    obtain ⟨line, rest, rfl, isFirst, message, next⟩ :=
      onStream.message call.client lineFeeds complete length
    have client : (processMessage call.client loop m.start).2.client =
        { call.client with
          lastPushTime := storeInto call.client.lastPushTime 40 (storedTime line) } := by
      rw [processMessage, message, rememberTime_line]
    have events : (processMessage call.client loop m.start).2.events = noticesOf line := by
      rw [processMessage, message, rememberTime_line, noticesOf, isHeartbeat_eq]
      dsimp only [ParseClientInternal.call]
      rw [if_pos callback]
      rfl
    rw [client]
    refine ⟨[line], rest, rfl, next, ?_, ?_, rfl, .inr rfl⟩
    · rw [notices, List.flatMap_singleton, events, List.flatMap_singleton, lastNotice,
        if_neg stays, List.append_nil, List.filter_eq_self]
      intro event member
      rw [noticesOf] at member
      rcases List.mem_append.mp member with member | member
      · split at member
        · rw [List.mem_singleton.mp member]
          rfl
        · cases member
      · split at member
        · cases member
        · rw [List.mem_singleton.mp member]
          rfl
    · refine (string_storeInto _ line).trans ?_
      rw [List.filterMap_cons]
      cases lineTime 39 line <;> rfl

end Round

/-! ## The loop -/

theorem Takes.nothing {s : LoopState} (running : s.client.socketHandle ≠ -1) {todo : List Byte}
    {lines : List Push.Line} (onStream : OnStream s.buffer todo lines) :
    Takes s [] s todo [] lines where
  onStream := onStream
  seen := (if_neg running).symm
  time := rfl
  callback := rfl
  socket := .inr rfl

/-- Behind a round that leaves the socket open the loop goes on. -/
theorem Takes.append {s middle after : LoopState} {outs others : List Outcome}
    {more todo : List Byte} {done done' left : List Push.Line}
    (first : Takes s outs middle more done (done' ++ left))
    (running : middle.client.socketHandle ≠ -1)
    (second : Takes middle others after todo done' left) :
    Takes s (outs ++ others) after todo (done ++ done') left where
  onStream := second.onStream
  seen := by
    have one : notices outs = done.flatMap noticesOf := by
      rw [first.seen, lastNotice, if_neg running, List.append_nil]
    have all : notices (outs ++ others) = notices outs ++ notices others := List.flatMap_append
    rw [all, one, second.seen, List.flatMap_append, List.append_assoc]
  time := by
    rw [second.time, first.time, List.filterMap_append, List.getLast?_append]
    cases (done'.filterMap (lineTime 39)).getLast? <;> rfl
  callback := second.callback.trans first.callback
  socket := second.socket.imp_right fun same => same.trans (first.socket.resolve_left running)

/-- A loop whose socket is -1 has ended. -/
theorem parseRunPushLoop_ended {s : LoopState} (ended : s.client.socketHandle = -1)
    (rounds : List LoopRound) : parseRunPushLoop s rounds = (s, []) := by
  cases rounds with
  | nil => rfl
  | cons round rounds => rw [parseRunPushLoop, if_neg (not_not.mpr ended)]

theorem loop_takes (rounds : List LoopRound) : ∀ {s : LoopState} {lines : List Push.Line}
    {todo : List Byte}, s.client.callback = true → s.client.socketHandle > 0 →
      (∀ line ∈ lines, line.ending = .lineFeed) →
      OnStream s.buffer (receivedIn (parseRunPushLoop s rounds).2 ++ todo) lines →
        ∃ done left, lines = done ++ left ∧
          Takes s (parseRunPushLoop s rounds).2 (parseRunPushLoop s rounds).1 todo done left := by
  induction rounds with
  | nil =>
      intro s lines todo _ isOpen _ onStream
      exact ⟨[], lines, rfl, .nothing (by omega) onStream⟩
  | cons round rounds ih =>
      intro s lines todo callback isOpen lineFeeds onStream
      have running : s.client.socketHandle ≠ -1 := by omega
      rw [parseRunPushLoop, if_pos running] at onStream ⊢
      dsimp only [receivedIn] at onStream ⊢
      rw [List.flatMap_cons, List.append_assoc, ← receivedIn] at onStream
      obtain ⟨done, left, rfl, first⟩ :=
        round_takes ⟨s.client, round.reads, round.isPingTime, round.send⟩ callback
          isOpen lineFeeds onStream
      generalize parseProcessNextPushNotification s.buffer
        ⟨s.client, round.reads, round.isPingTime, round.send⟩ = processed at first onStream ⊢
      obtain ⟨buffer, out⟩ := processed
      dsimp only at first onStream ⊢
      by_cases ended : out.client.socketHandle = -1
      · -- the round has given the service up
        rw [parseRunPushLoop_ended ended] at first ⊢
        exact ⟨done, left, rfl, first⟩
      · have isOpen' : out.client.socketHandle > 0 := by
          have same := first.socket.resolve_left ended
          dsimp only at same
          omega
        obtain ⟨done', left', rfl, second⟩ := ih (s := ⟨out.client, buffer⟩)
          (first.callback.trans callback) isOpen'
          (fun line member => lineFeeds line (List.mem_append_right _ member)) first.onStream
        exact ⟨done ++ done', left', (List.append_assoc ..).symm, first.append ended second⟩

/-- **What the push loop does with a stream of lines.** For a client with a callback, on a new
connection on which the server sends objects on lines that end in a line feed, of any lengths, and
for any answers of the socket: the loop takes some of the lines one after the other, and the others
are still to be read. The application sees the state saved for each of them that has a time and
hears each that is no heartbeat, in their order and unchanged, and at the end, if the loop has given
the connection up, one error; and the client has the last of their times, of which it keeps 39
bytes. -/
theorem push_loop_notices (data : Block Byte 1024) (client : ParseClientInternal)
    (rounds : List LoopRound) (lines : List Push.Line) (todo : List Byte)
    (callback : client.callback = true) (isOpen : client.socketHandle > 0)
    (stream : receivedIn (parseRunPushLoop ⟨client, unfilled data⟩ rounds).2 ++ todo =
      streamText lines)
    (lineFeeds : ∀ line ∈ lines, line.ending = .lineFeed) :
    ∃ done left, lines = done ++ left ∧
      messages ((parseRunPushLoop ⟨client, unfilled data⟩ rounds).1.buffer.unread ++ todo) =
        left.map (fun line => line.object.text) ∧
      notices (parseRunPushLoop ⟨client, unfilled data⟩ rounds).2 =
        done.flatMap noticesOf ++
          lastNotice (parseRunPushLoop ⟨client, unfilled data⟩ rounds).1.client ∧
      (CString.ofMemory
        (parseRunPushLoop ⟨client, unfilled data⟩ rounds).1.client.lastPushTime).bytes =
          ((done.filterMap (lineTime 39)).getLast?).getD
            (CString.ofMemory client.lastPushTime).bytes := by
  obtain ⟨done, left, rfl, takes⟩ :=
    loop_takes rounds (s := ⟨client, unfilled data⟩) callback isOpen lineFeeds
      ⟨unfilled_bounded data, Separator.none, stream, fun _ => rfl⟩
  obtain ⟨lead, behind, -⟩ := takes.onStream.stream
  refine ⟨done, left, rfl, ?_, takes.seen, takes.time⟩
  rw [behind, messages_stream]

/-- A line with a time, and a line with a member. -/
def timeLines : List Push.Line :=
  [⟨.of (.last [] (.plain "time") [] [] (.string (.plain "noon")) []), .lineFeed⟩,
    ⟨.of (.last [] (.plain "a") [] [] (.literal .null) []), .lineFeed⟩]

/-- Both lines arrive at once; the second is read when there is something behind it. -/
def timeRounds : List LoopRound :=
  [⟨[[⟨1, 0, .bytes (streamText timeLines)⟩]], false, 0⟩, ⟨[], false, 0⟩]

theorem push_loop_notices_time :
    ∃ done left, timeLines = done ++ left ∧
      messages ((parseRunPushLoop ⟨openClient, unfilled (Block.fill 1024 0)⟩
        timeRounds).1.buffer.unread ++ []) = left.map (fun line => line.object.text) ∧
      notices (parseRunPushLoop ⟨openClient, unfilled (Block.fill 1024 0)⟩ timeRounds).2 =
        done.flatMap noticesOf ++ lastNotice (parseRunPushLoop
          ⟨openClient, unfilled (Block.fill 1024 0)⟩ timeRounds).1.client ∧
      (CString.ofMemory (parseRunPushLoop ⟨openClient, unfilled (Block.fill 1024 0)⟩
          timeRounds).1.client.lastPushTime).bytes =
        ((done.filterMap (lineTime 39)).getLast?).getD
          (CString.ofMemory openClient.lastPushTime).bytes :=
  push_loop_notices (Block.fill 1024 0) openClient timeRounds timeLines [] rfl (by decide)
    (by decide +kernel) (by decide)

end ParseEmbedded.Rtos
