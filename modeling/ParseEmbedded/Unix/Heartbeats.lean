import ParseEmbedded.Library.Pacing
import ParseEmbedded.Unix.PushLoop

/-!
# Heartbeats on Unix

`parseStartPushService` sends an empty object behind its handshake, and
`parseProcessNextPushNotification` sends one when it finds no message and the last one is more than
`PARSE_HEARTBIT_INTERVAL_SECONDS` old. A run is any sequence of calls of the push service with one
client.
-/

set_option autoImplicit false

namespace ParseEmbedded.Unix

open Push Runs Pacing SimpleJson

/-! ## Runs of the push service -/

/-- A call of the push service. -/
inductive PushCall where
  | process (answers : List RecvAnswer) (seconds : Nat)
  | service (call : ServiceCall)

/-- A call as a step. -/
def serviceStep (word : WordSize) (s : LoopState) : PushCall → LoopState × List Event
  | .process answers seconds =>
      let done := parseProcessNextPushNotification word s.buffer ⟨s.client, answers, seconds⟩
      (⟨done.2.client, done.1⟩, done.2.events)
  | .service call => (⟨(call.act s.client).1, s.buffer⟩, (call.act s.client).2)

abbrev ServiceTransition := Runs.Transition LoopState PushCall (List Event)

/-- An empty object that is sent: when, and whether it is that of a start. -/
structure Beat where
  seconds : Nat
  starts : Bool
  deriving DecidableEq

/-- When a call reads the clock. -/
def PushCall.beat : PushCall → Option Beat
  | .process _ seconds => some ⟨seconds, false⟩
  | .service (.start around) => some ⟨around.seconds, true⟩
  | .service _ => none

def Event.sent : Event → Option (List Byte)
  | .send bytes => some bytes
  | _ => none

/-- What is sent on the connection, a list for each call of `curl_easy_send`. -/
def sent (events : List Event) : List (List Byte) := events.filterMap Event.sent

/-- The empty objects among what is sent. -/
def pings (events : List Event) : List (List Byte) := (sent events).filter fun bytes => bytes = ping

/-- The empty objects that a call sends. -/
def beats (t : ServiceTransition) : List Beat :=
  (pings t.output).flatMap fun _ => t.input.beat.toList

/-! ## One call -/

theorem sent_append (events more : List Event) :
    sent (events ++ more) = sent events ++ sent more := List.filterMap_append ..

theorem pings_eq_nil {events : List Event} (nothing : sent events = []) : pings events = [] := by
  rw [pings, nothing]
  rfl

/-- What a call of `parseProcessNextPushNotification` sends. -/
structure SendsPing (client : ParseClientInternal) (seconds : Nat) (after : ParseClientInternal)
    (events : List Event) : Prop where
  cases : sent events = [] ∧ after.lastHearbeat = client.lastHearbeat ∨
    sent events = [ping] ∧ after.lastHearbeat = seconds ∧
      client.lastHearbeat + PARSE_HEARTBIT_INTERVAL_SECONDS < seconds

theorem sendHeartbeat_pings (client : ParseClientInternal) (seconds : Nat) :
    SendsPing client seconds (sendHeartbeat client seconds).1 (sendHeartbeat client seconds).2 := by
  rw [sendHeartbeat]
  split
  · rename_i late
    exact ⟨.inr ⟨rfl, rfl, late⟩⟩
  · exact ⟨.inl ⟨rfl, rfl⟩⟩

theorem rememberTime_sent (client : ParseClientInternal) (message : CString) :
    sent (rememberTime client message).2 = [] ∧
      (rememberTime client message).1.lastHearbeat = client.lastHearbeat := by
  rw [rememberTime]
  split
  · split
    · exact ⟨rfl, rfl⟩
    · exact ⟨rfl, rfl⟩
  · exact ⟨rfl, rfl⟩

theorem handOn_sent (client : ParseClientInternal) (message : CString) :
    sent (handOn client message) = [] := by
  rw [handOn]
  split
  · rfl
  · split <;> rfl

theorem processMessage_pings (client : ParseClientInternal) (loop : Loop) (exit : LoopExit)
    (index seconds : Nat) :
    SendsPing client seconds (processMessage client loop exit index).2.client
      (processMessage client loop exit index).2.events := by
  have remembered := rememberTime_sent client
    ((loop.buffer.terminate (index + loop.length.toNat)).string index)
  refine ⟨.inl ⟨?_, remembered.2⟩⟩
  rw [processMessage_events, sent_append, remembered.1, handOn_sent]
  rfl

theorem processReceived_pings (word : WordSize) (call : Call) (loop : Loop) (exit : LoopExit) :
    SendsPing call.client call.seconds (processReceived word call loop exit).2.client
      (processReceived word call loop exit).2.events := by
  have nothing : SendsPing call.client call.seconds (processNothing call loop exit).2.client
      (processNothing call loop exit).2.events :=
    sendHeartbeat_pings call.client call.seconds
  cases exit with
  | failed code =>
      refine ⟨.inl ⟨?_, rfl⟩⟩
      change sent (if call.client.pushCallback then [.callback ECONNRESET none] else []) = []
      split <;> rfl
  | left | again =>
      rw [processReceived_holds word call fun _ => LoopExit.noConfusion]
      split
      · exact ⟨.inl ⟨rfl, rfl⟩⟩
      · split
        · split
          · exact processMessage_pings call.client loop _ _ call.seconds
          · exact nothing
        · exact nothing

theorem process_pings (word : WordSize) (buffer : ReceiveBuffer) (call : Call) :
    SendsPing call.client call.seconds
      (parseProcessNextPushNotification word buffer call).2.client
      (parseProcessNextPushNotification word buffer call).2.events := by
  rw [parseProcessNextPushNotification]
  split
  · exact ⟨.inl ⟨rfl, rfl⟩⟩
  · exact processReceived_pings word call _ _

/-- The handshake is not an empty object. -/
theorem handshake_ne_ping (client : ParseClientInternal) : handshake client ≠ ping := by
  intro same
  have quote : (handshake client)[1]? = some Byte.quote := rfl
  rw [same] at quote
  exact absurd quote (by decide)

theorem parseCreateInstallationIdIfNeeded_sent (client : ParseClientInternal)
    (around : Surroundings) :
    sent (parseCreateInstallationIdIfNeeded client around).2 = [] ∧
      (parseCreateInstallationIdIfNeeded client around).1.lastHearbeat = client.lastHearbeat := by
  rw [parseCreateInstallationIdIfNeeded]
  split <;> exact ⟨rfl, rfl⟩

/-- A start sends its handshake and an empty object, or nothing where it gets no connection. -/
theorem start_sent (client : ParseClientInternal) (around : Surroundings) :
    sent (parseStartPushService client around).events = [] ∧
        (parseStartPushService client around).client.lastHearbeat = client.lastHearbeat ∨
      sent (parseStartPushService client around).events =
          [handshake (parseCreateInstallationIdIfNeeded client around).1, ping] ∧
        (parseStartPushService client around).client.lastHearbeat = around.seconds := by
  obtain ⟨none, same⟩ := parseCreateInstallationIdIfNeeded_sent client around
  rw [parseStartPushService]
  split
  · exact .inl ⟨rfl, rfl⟩
  · dsimp only
    split
    · exact .inl ⟨none, same⟩
    · -- the options and the connection, one after the other
      split
      · exact .inl ⟨none, same⟩
      split
      · exact .inl ⟨none, same⟩
      split
      · exact .inl ⟨none, same⟩
      split
      · exact .inl ⟨none, same⟩
      · refine .inr ⟨?_, rfl⟩
        rw [sent_append, none]
        rfl

/-- **One call** sends no empty object, or one, which is that of a start or comes more than the
interval behind the last one. -/
theorem serviceStep_beats (word : WordSize) (s : LoopState) (call : PushCall) :
    beats (fire (serviceStep word) s call) = [] ∧
        (serviceStep word s call).1.client.lastHearbeat = s.client.lastHearbeat ∨
      ∃ beat, beats (fire (serviceStep word) s call) = [beat] ∧
        (beat.starts = true ∨
          s.client.lastHearbeat + PARSE_HEARTBIT_INTERVAL_SECONDS < beat.seconds) ∧
        (serviceStep word s call).1.client.lastHearbeat = beat.seconds := by
  cases call with
  | process answers seconds =>
      rcases (process_pings word s.buffer ⟨s.client, answers, seconds⟩).cases with
        ⟨none, same⟩ | ⟨one, now, late⟩
      · refine .inl ⟨?_, same⟩
        change (pings (parseProcessNextPushNotification _ _ _).2.events).flatMap _ = []
        rw [pings_eq_nil none]
        rfl
      · refine .inr ⟨⟨seconds, false⟩, ?_, .inr late, now⟩
        change (pings (parseProcessNextPushNotification _ _ _).2.events).flatMap _ = _
        rw [pings, one]
        rfl
  | service call =>
      cases call with
      | start around =>
          rcases start_sent s.client around with ⟨none, same⟩ | ⟨one, now⟩
          · refine .inl ⟨?_, same⟩
            change (pings (parseStartPushService _ _).events).flatMap _ = []
            rw [pings_eq_nil none]
            rfl
          · refine .inr ⟨⟨around.seconds, true⟩, ?_, .inl rfl, now⟩
            have single : pings (parseStartPushService s.client around).events = [ping] := by
              simp [pings, one, handshake_ne_ping]
            change (pings (parseStartPushService _ _).events).flatMap _ = _
            rw [single]
            rfl
      | stop =>
          have stopped : (parseStopPushService s.client).1.lastHearbeat =
              s.client.lastHearbeat := by
            rw [parseStopPushService]
            split <;> rfl
          refine .inl ⟨?_, stopped⟩
          change (pings _).flatMap (fun _ => []) = []
          exact List.flatMap_eq_nil_iff.mpr fun _ _ => rfl
      | setCallback callback => exact .inl ⟨rfl, rfl⟩

/-! ## Runs -/

/-- The empty objects that are sent in a run. -/
def beatsIn (run : List ServiceTransition) : List Beat := run.flatMap beats

/-- **Heartbeats are more than the interval apart.** In every run of calls of the push service, an
empty object that is not that of a start is sent more than `PARSE_HEARTBIT_INTERVAL_SECONDS` behind
the one before, whichever it is, and the client remembers when the last one has been sent. -/
theorem heartbeats_apart (word : WordSize) (s : LoopState) (calls : List PushCall) :
    Follows Beat.seconds
        (fun last beat => beat.starts = true ∨
          last + PARSE_HEARTBIT_INTERVAL_SECONDS < beat.seconds)
        s.client.lastHearbeat (beatsIn (run (serviceStep word) s calls)) ∧
      (final (serviceStep word) s calls).client.lastHearbeat =
        lastKey Beat.seconds s.client.lastHearbeat
          (beatsIn (run (serviceStep word) s calls)) :=
  run_follows Beat.seconds _ (fun s : LoopState => s.client.lastHearbeat) _
    (serviceStep_beats word) calls s

/-! ## A connection that is silent -/

/-- The calls of the service at these times, where the connection has nothing to say. -/
def silentCalls (times : List (Nat × List RecvAnswer)) : List PushCall :=
  times.map fun time => .process (.again :: time.2) time.1

/-- A silent call looks at the timer. -/
theorem serviceStep_silent (word : WordSize) {s : LoopState} (bounded : Bounded s.buffer)
    (started : s.client.Started) (answers : List RecvAnswer) (seconds : Nat) :
    serviceStep word s (.process (.again :: answers) seconds) =
      (⟨(sendHeartbeat s.client seconds).1, s.buffer⟩, (sendHeartbeat s.client seconds).2) := by
  obtain ⟨connection, handle⟩ := Option.ne_none_iff_exists'.mp started
  have nothing : Call.hearsNothing ⟨s.client, .again :: answers, seconds⟩ = true := by
    rw [Call.hearsNothing, handle]
  obtain ⟨exit, done, -⟩ := process_hearsNothing word bounded nothing
  have same : parseProcessNextPushNotification word s.buffer
      ⟨s.client, .again :: answers, seconds⟩ =
        processNothing ⟨s.client, .again :: answers, seconds⟩ (.begin s.buffer) exit := done
  rw [serviceStep, same]
  rfl

theorem run_silent (word : WordSize) (times : List (Nat × List RecvAnswer)) :
    ∀ {s : LoopState}, Bounded s.buffer → s.client.Started →
      beatsIn (run (serviceStep word) s (silentCalls times)) =
        (firings PARSE_HEARTBIT_INTERVAL_SECONDS s.client.lastHearbeat
          (times.map Prod.fst)).map fun seconds => ⟨seconds, false⟩ := by
  induction times with
  | nil =>
      intro s _ _
      rfl
  | cons time times ih =>
      intro s bounded started
      have step := serviceStep_silent word bounded started time.2 time.1
      have handle := sendHeartbeat_handle s.client time.1
      have next := ih (s := (serviceStep word s (.process (.again :: time.2) time.1)).1)
        (by rw [step]; exact bounded)
        (by rw [step, ParseClientInternal.Started, handle]; exact started)
      change beats (fire (serviceStep word) s (.process (.again :: time.2) time.1)) ++
        beatsIn (run (serviceStep word) _ (silentCalls times)) = _
      rw [next, fire, step, List.map_cons, firings]
      dsimp only [sendHeartbeat]
      by_cases late : s.client.lastHearbeat + PARSE_HEARTBIT_INTERVAL_SECONDS < time.1
      · rw [if_pos late, if_pos late]
        rfl
      · rw [if_neg late, if_neg late]
        rfl

/-- **A silent connection is kept alive.** Where the connection of a client has nothing to say, the
calls are at most `distance` seconds apart, and the first one comes no later than that behind a time
at which no heartbeat was due: each heartbeat is sent more than the interval behind the one before,
and at most the interval and `distance` behind it; and at the last call none is overdue. -/
theorem silent_connection_kept_alive (word : WordSize) (s : LoopState) (bounded : Bounded s.buffer)
    (started : s.client.Started) (distance seen : Nat) (times : List (Nat × List RecvAnswer))
    (early : seen ≤ s.client.lastHearbeat + PARSE_HEARTBIT_INTERVAL_SECONDS)
    (close : Follows id (fun a b => b ≤ a + distance) seen (times.map Prod.fst)) :
    let sent := (beatsIn (run (serviceStep word) s (silentCalls times))).map Beat.seconds
    Follows id (fun a b => a + PARSE_HEARTBIT_INTERVAL_SECONDS < b ∧
        b ≤ a + PARSE_HEARTBIT_INTERVAL_SECONDS + distance) s.client.lastHearbeat sent ∧
      lastKey id seen (times.map Prod.fst) ≤
        lastKey id s.client.lastHearbeat sent + PARSE_HEARTBIT_INTERVAL_SECONDS := by
  have sent : (beatsIn (run (serviceStep word) s (silentCalls times))).map Beat.seconds =
      firings PARSE_HEARTBIT_INTERVAL_SECONDS s.client.lastHearbeat (times.map Prod.fst) := by
    rw [run_silent word times bounded started, List.map_map]
    exact List.map_id _
  dsimp only
  rw [sent]
  exact firings_close _ distance _ early close

theorem silent_connection_example :
    lastKey id 0 [900] ≤ lastKey id 0 ((beatsIn (run (serviceStep .bits64)
      ⟨openClient, unfilled (Block.fill 2048 0)⟩ (silentCalls [(900, [])]))).map Beat.seconds) +
        PARSE_HEARTBIT_INTERVAL_SECONDS :=
  (silent_connection_kept_alive .bits64 ⟨openClient, unfilled (Block.fill 2048 0)⟩
    (unfilled_bounded _) (Option.some_ne_none 0) 900 0 [(900, [])] (by decide)
    ⟨by decide, trivial⟩).2

end ParseEmbedded.Unix
