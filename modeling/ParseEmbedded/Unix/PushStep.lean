import ParseEmbedded.Unix.Push
import ParseEmbedded.Library.Runs

/-!
# What one call does

A call of `parseProcessNextPushNotification` keeps what it has received, drops everything, or
hands a message on: `Served` lists the three, with all that the call does to the buffer, and
`process_served` is the proof. Which of the three it is depends on whether the call completes a
message, and `completion` says so in terms of the unread bytes and the bytes received.
-/

set_option autoImplicit false

namespace ParseEmbedded.Unix

open SimpleJson Push Runs

/-! ## The receive loop -/

/-- The fill counts at the start of a call. -/
def Bounded (buffer : ReceiveBuffer) : Prop := -1 ≤ buffer.used ∧ buffer.used < 2048

/-- What the loop has collected so far. -/
structure Collected (before : ReceiveBuffer) (loop : Loop) : Prop where
  unread : loop.buffer.unread = before.unread ++ loop.received
  used : loop.buffer.used = before.used + loop.received.length
  lower : -1 ≤ loop.buffer.used
  upper : loop.buffer.used ≤ 2048
  writes : ∀ extent ∈ loop.writes, extent.Inside 2048

/-- The loop variables report the message in the unread bytes. -/
def Looked (loop : Loop) : Prop :=
  (completeMessage loop.buffer.unread = none ∧ loop.length = -1) ∨
    ∃ m : Message, completeMessage loop.buffer.unread = some m ∧ loop.length = m.length ∧
      loop.message = some m.start

theorem Loop.goesOn_iff (word : WordSize) {loop : Loop} (lower : -1 ≤ loop.buffer.used)
    (upper : loop.buffer.used ≤ 2048) :
    loop.goesOn word = true ↔
      loop.length = -1 ∧ 0 ≤ loop.buffer.used ∧ loop.buffer.used < 2048 := by
  rw [goesOn, decide_eq_true_iff]
  by_cases negative : loop.buffer.used = -1
  · have large := toSizeT_neg_one word
    rw [negative]
    omega
  · rw [toSizeT_of_nonneg word (by omega) (by omega)]
    omega

theorem Collected.begin {buffer : ReceiveBuffer} (bounded : Bounded buffer) :
    Collected buffer (.begin buffer) where
  unread := (List.append_nil _).symm
  used := by simp [Loop.begin]
  lower := bounded.1
  upper := Int.le_of_lt bounded.2
  writes := fun _ member => absurd member (List.not_mem_nil)

theorem Collected.ok {before : ReceiveBuffer} {loop : Loop} (collected : Collected before loop)
    (nonneg : 0 ≤ loop.buffer.used) (bytes : List Byte) : Collected before (loop.ok bytes) := by
  have upper := collected.upper
  have room : loop.buffer.used + (bytes.take (2048 - loop.buffer.used).toNat).length ≤ 2048 := by
    simp only [List.length_take]
    omega
  refine ⟨?_, ?_, ?_, room, ?_⟩
  · change (loop.buffer.receive _).unread = _
    rw [PushBuffer.unread_receive nonneg room, collected.unread, List.append_assoc]
    rfl
  · have used := collected.used
    simp only [Loop.ok, PushBuffer.receive, List.length_append]
    push_cast
    omega
  · change -1 ≤ loop.buffer.used + _
    omega
  · refine List.forall_mem_append.mpr ⟨collected.writes, List.forall_mem_singleton.mpr ?_⟩
    simp only [Extent.Inside]
    omega

theorem Looked.ok {loop : Loop} (upper : loop.buffer.used ≤ 2048) (bytes : List Byte) :
    Looked (loop.ok bytes) := by
  have inside : (loop.ok bytes).buffer.used ≤ (2048 : Nat) := by
    change loop.buffer.used + ((bytes.take (2048 - loop.buffer.used).toNat).length : Int) ≤ _
    simp only [List.length_take]
    omega
  rcases PushBuffer.pushJson_completeMessage inside with none | ⟨m, complete, -, length, index⟩
  · exact .inl none
  · exact .inr ⟨m, complete, length, index⟩

/-- How the loop ends once it has looked through the bytes of an answer. -/
structure LoopEnds (before : ReceiveBuffer) (loop : Loop) (exit : LoopExit) : Prop where
  collected : Collected before loop
  looked : Looked loop
  stops : exit = .left → loop.length ≠ -1 ∨ loop.buffer.used = 2048
  goesOn : exit ≠ .left → loop.length = -1 ∧ loop.buffer.used < 2048

theorem LoopEnds.left {before : ReceiveBuffer} {loop : Loop} (collected : Collected before loop)
    (looked : Looked loop) (nonneg : 0 ≤ loop.buffer.used)
    (stops : ¬ (loop.length = -1 ∧ 0 ≤ loop.buffer.used ∧ loop.buffer.used < 2048)) :
    LoopEnds before loop .left := by
  refine ⟨collected, looked, fun _ => ?_, fun h => absurd rfl h⟩
  have upper := collected.upper
  by_cases none : loop.length = -1
  · exact .inr (by omega)
  · exact .inl none

/-- The loop is left at its condition. -/
theorem receiveLoop_left {word : WordSize} {loop : Loop} (stops : ¬ loop.goesOn word = true)
    (answers : List RecvAnswer) : receiveLoop word answers loop = (loop, .left) := by
  cases answers <;> simp [receiveLoop, stops]

section Answers

variable {word : WordSize} {loop : Loop} (more : loop.goesOn word = true)
  (answers : List RecvAnswer)

include more

theorem receiveLoop_nil : receiveLoop word [] loop = (loop, .again) := by
  simp [receiveLoop, more]

theorem receiveLoop_ok (bytes : List Byte) :
    receiveLoop word (.ok bytes :: answers) loop = receiveLoop word answers (loop.ok bytes) := by
  simp [receiveLoop, more]

theorem receiveLoop_again : receiveLoop word (.again :: answers) loop = (loop, .again) := by
  simp [receiveLoop, more]

theorem receiveLoop_error (code : Int) :
    receiveLoop word (.error code :: answers) loop = (loop, .failed code) := by
  simp [receiveLoop, more]

end Answers

/-- Once an answer has been looked through, the loop ends like this. -/
theorem receiveLoop_ends (word : WordSize) (before : ReceiveBuffer) (answers : List RecvAnswer) :
    ∀ {loop : Loop}, Collected before loop → Looked loop → 0 ≤ loop.buffer.used →
      LoopEnds before (receiveLoop word answers loop).1 (receiveLoop word answers loop).2 := by
  induction answers with
  | nil =>
      intro loop collected looked nonneg
      have goesOn := loop.goesOn_iff word collected.lower collected.upper
      by_cases more : loop.goesOn word = true
      · have meets := goesOn.mp more
        rw [receiveLoop_nil more]
        exact ⟨collected, looked, LoopExit.noConfusion, fun _ => ⟨meets.1, meets.2.2⟩⟩
      · rw [receiveLoop_left more]
        exact .left collected looked nonneg (mt goesOn.mpr more)
  | cons answer answers ih =>
      intro loop collected looked nonneg
      have goesOn := loop.goesOn_iff word collected.lower collected.upper
      by_cases more : loop.goesOn word = true
      · have meets := goesOn.mp more
        cases answer with
        | ok bytes =>
            have nonneg' : 0 ≤ (loop.ok bytes).buffer.used := by
              simp only [Loop.ok, PushBuffer.receive]
              omega
            rw [receiveLoop_ok more]
            exact ih (collected.ok nonneg bytes) (.ok collected.upper bytes) nonneg'
        | again =>
            rw [receiveLoop_again more]
            exact ⟨collected, looked, LoopExit.noConfusion, fun _ => ⟨meets.1, meets.2.2⟩⟩
        | error code =>
            rw [receiveLoop_error more]
            exact ⟨collected, looked, LoopExit.noConfusion, fun _ => ⟨meets.1, meets.2.2⟩⟩
      · rw [receiveLoop_left more]
        exact .left collected looked nonneg (mt goesOn.mpr more)

/-! ## Handing on -/

theorem rememberTime_client (client : ParseClientInternal) (message : CString) :
    (rememberTime client message).1.pushCallback = client.pushCallback ∧
      (rememberTime client message).1.pushCurlHandle = client.pushCurlHandle := by
  rw [rememberTime]
  split
  · split <;> exact ⟨rfl, rfl⟩
  · exact ⟨rfl, rfl⟩

theorem rememberTime_handed (client : ParseClientInternal) (message : CString) :
    (rememberTime client message).2.filterMap Event.handed = [] := by
  rw [rememberTime]
  split
  · split <;> rfl
  · rfl

theorem handOn_handed (client : ParseClientInternal) (message : CString) :
    (handOn client message).filterMap Event.handed =
      if isHeartbeat message = true ∨ client.pushCallback = true then [message.bytes] else [] := by
  rw [handOn]
  by_cases heartbeat : isHeartbeat message = true
  · simp [heartbeat, Event.handed]
  · by_cases callback : client.pushCallback = true
    · simp [heartbeat, callback, Event.handed]
    · simp [heartbeat, callback]

theorem sendHeartbeat_handed (client : ParseClientInternal) (seconds : Nat) :
    (sendHeartbeat client seconds).2.filterMap Event.handed = [] := by
  rw [sendHeartbeat]
  split <;> rfl

/-- A string passed to the callback is among the messages handed on. -/
theorem handed_of_delivered {events : List Event} {text : List Byte}
    (delivered : text ∈ events.filterMap Event.delivered) :
    text ∈ events.filterMap Event.handed := by
  obtain ⟨event, member, same⟩ := List.mem_filterMap.mp delivered
  refine List.mem_filterMap.mpr ⟨event, member, ?_⟩
  cases event with
  | callback error message => exact same
  | heartbeat message => cases same
  | storeKey applicationId key value => cases same
  | sendRequest httpVerb httpPath requestBody => cases same
  | send bytes => cases same
  | cleanup connection => cases same

theorem Processed.handed_of_delivered {out : Processed} {text : List Byte}
    (delivered : text ∈ out.delivered) : text ∈ out.handed :=
  Unix.handed_of_delivered delivered

/-! ## The three outcomes of a call -/

/-- The connection is open and answers with bytes first. -/
def Call.hears (call : Call) : Bool :=
  match call.client.pushCurlHandle, call.answers with
  | some _, .ok _ :: _ => true
  | _, _ => false

/-- The connection is open and has no bytes. -/
def Call.hearsNothing (call : Call) : Bool :=
  match call.client.pushCurlHandle, call.answers with
  | some _, [] => true
  | some _, .again :: _ => true
  | _, _ => false

abbrev Transition := Runs.Transition ReceiveBuffer Call Processed

/-- The unread bytes of the call: those of the calls before, and those received now. -/
def buffered (t : Transition) : List Byte := t.before.unread ++ t.output.received

/-- The message that a call completes: it has heard from its connection, and the unread bytes
hold a message now. -/
def completion (t : Transition) : Option Message :=
  if t.input.hears then completeMessage (buffered t) else none

/-- What a call does to the buffer and hands on. -/
inductive Served (t : Transition) : Prop where
  /-- No message: what has been received is kept. -/
  | kept (incomplete : completion t = none) (unread : t.after.unread = buffered t)
      (used : t.after.used = t.before.used + t.output.received.length)
      (upper : t.after.used < 2048)
      (stuck : t.before.used = -1 → t.output.received = [])
      (handed : t.output.handed = []) (result : t.output.result = 0)
      (writes : ∀ extent ∈ t.output.writes, extent.Inside 2048)
      (again : t.output.exit = some .again →
        t.input.hearsNothing = true ∨ completeMessage t.after.unread = none)
  /-- No message, and no room for one: everything is dropped. -/
  | dropped (incomplete : completion t = none) (nonneg : 0 ≤ t.before.used)
      (nothing : completeMessage (buffered t) = none)
      (full : t.before.used + t.output.received.length = 2048) (used : t.after.used = 0)
      (handed : t.output.handed = []) (result : t.output.result = 0)
      (writes : ∀ extent ∈ t.output.writes, extent.Inside 2048)
      (exit : t.output.exit = some .left)
  /-- A message: it is handed on, and as many bytes as it has and one more are taken off. -/
  | served (m : Message) (complete : completion t = some m) (nonneg : 0 ≤ t.before.used)
      (unread : t.after.unread =
        ((buffered t).set (m.start + m.length) Byte.nul).drop (m.length + 1))
      (used : t.after.used = t.before.used + t.output.received.length - (m.length + 1))
      (upper : t.before.used + t.output.received.length ≤ 2048)
      (text : ∀ text ∈ t.output.handed, text = m.text (buffered t))
      (handed : t.input.client.pushCallback = true → t.output.handed = [m.text (buffered t)])
      (result : t.output.result = if t.after.used > 0 then 1 else 0)
      (writes : (∀ extent ∈ t.output.writes, extent.Inside 2048) ↔ m.start + m.length < 2048)
      (exit : t.output.exit = some .left)

/-- One call of the push service, as the step of a system whose state is the buffer. -/
def pushStep (word : WordSize) : ReceiveBuffer → Call → ReceiveBuffer × Processed :=
  parseProcessNextPushNotification word

/-- The transition of a call that ends like this. -/
def ended (before : ReceiveBuffer) (call : Call) (done : ReceiveBuffer × Processed) : Transition :=
  ⟨before, call, done.2, done.1⟩

section Ends

variable {before : ReceiveBuffer} {call : Call} {loop : Loop}

/-- The call ends without a message, and keeps what it has. -/
theorem served_nothing {exit : LoopExit} (collected : Collected before loop)
    (room : loop.buffer.used < 2048) (stuck : before.used = -1 → loop.received = [])
    (incomplete : completion (ended before call (processNothing call loop exit)) = none)
    (again : exit = .again →
      call.hearsNothing = true ∨ completeMessage loop.buffer.unread = none) :
    Served (ended before call (processNothing call loop exit)) :=
  .kept incomplete collected.unread collected.used room stuck
    (sendHeartbeat_handed call.client call.seconds) rfl collected.writes
    fun same => again (Option.some.inj same)

/-- The connection has failed. -/
theorem served_failed (word : WordSize) {code : Int} (collected : Collected before loop)
    (room : loop.buffer.used < 2048) (stuck : before.used = -1 → loop.received = [])
    (incomplete :
      completion (ended before call (processReceived word call loop (.failed code))) = none) :
    Served (ended before call (processReceived word call loop (.failed code))) := by
  refine .kept incomplete collected.unread collected.used room stuck ?_ rfl collected.writes ?_
  · change List.filterMap _ (if call.client.pushCallback then _ else _) = _
    split <;> rfl
  · intro same
    cases same

/-- The events of a call that has found a message. -/
theorem processMessage_events (client : ParseClientInternal) (exit : LoopExit) (index : Nat) :
    (processMessage client loop exit index).2.events =
      let message := (loop.buffer.terminate (index + loop.length.toNat)).string index
      (rememberTime client message).2 ++ handOn (rememberTime client message).1 message := rfl

/-- The call has found a message. -/
theorem served_message {m : Message} (collected : Collected before loop)
    (nonneg : 0 ≤ before.used)
    (complete : completeMessage loop.buffer.unread = some m) (length : loop.length = m.length)
    (hears : call.hears = true) :
    Served (ended before call (processMessage call.client loop .left m.start)) := by
  have upper := collected.upper
  have inside : loop.buffer.used ≤ (2048 : Nat) := upper
  have isIn := isIn_of_completeMessage complete
  have count : loop.length.toNat = m.length := by omega
  have unread := collected.unread
  have used := collected.used
  have bytes := PushBuffer.string_terminate inside isIn
  have events : (ended before call (processMessage call.client loop .left m.start)).output.handed =
      if isHeartbeat ((loop.buffer.terminate (m.start + m.length)).string m.start) = true ∨
        call.client.pushCallback = true then [m.text loop.buffer.unread] else [] := by
    rw [Processed.handed, ended, processMessage_events, count, List.filterMap_append,
      rememberTime_handed, List.nil_append, handOn_handed, (rememberTime_client ..).1, bytes]
  have same : buffered (ended before call (processMessage call.client loop .left m.start)) =
      loop.buffer.unread := collected.unread.symm
  have inside' : (loop.buffer.terminate (m.start + m.length)).used ≤ (2048 : Nat) := inside
  refine .served m ?_ nonneg ?_ ?_ (used ▸ upper) ?_ ?_ rfl ?_ rfl
  · rw [completion, same]
    exact (if_pos hears).trans complete
  · rw [same, ended, processMessage, count]
    exact (PushBuffer.unread_consume inside' m.length).trans
      (congrArg _ (PushBuffer.unread_terminate _))
  · change ((loop.buffer.terminate _).consume _).used = _
    rw [PushBuffer.used_consume, PushBuffer.used_terminate, count, used]
    rfl
  · intro text member
    rw [events] at member
    rw [same]
    split at member
    · exact List.mem_singleton.mp member
    · cases member
  · intro callback
    rw [events, if_pos (.inr callback), same]
  · change (∀ extent ∈ loop.writes ++ (⟨m.start + loop.length.toNat, 1⟩ ::
      (loop.buffer.terminate (m.start + loop.length.toNat)).moved loop.length.toNat),
        extent.Inside 2048) ↔ _
    rw [count]
    constructor
    · intro all
      exact all ⟨m.start + m.length, 1⟩ (List.mem_append_right _ (List.mem_cons_self ..))
    · intro zero extent member
      rcases List.mem_append.mp member with earlier | member
      · exact collected.writes extent earlier
      rcases List.mem_cons.mp member with rfl | moved
      · exact zero
      · exact PushBuffer.moved_inside inside' _ extent moved

end Ends

section Branches

variable (word : WordSize) (call : Call) {loop : Loop} {exit : LoopExit}
  (holds : ∀ code, exit ≠ .failed code)

include holds

theorem processReceived_holds :
    processReceived word call loop exit =
      if loop.length = -1 ∧ toSizeT word loop.buffer.used = 2048 then
        ({ loop.buffer with used := 0 },
          ⟨0, call.client, [], loop.received, loop.writes, some exit⟩)
      else
        match loop.message with
        | some index =>
            if loop.length > 0 then processMessage call.client loop exit index
            else processNothing call loop exit
        | none => processNothing call loop exit := by
  cases exit with
  | left => rfl
  | again => rfl
  | failed code => exact absurd rfl (holds code)

theorem processReceived_dropped (length : loop.length = -1)
    (full : toSizeT word loop.buffer.used = 2048) :
    processReceived word call loop exit =
      ({ loop.buffer with used := 0 },
        ⟨0, call.client, [], loop.received, loop.writes, some exit⟩) := by
  rw [processReceived_holds word call holds]
  exact if_pos ⟨length, full⟩

theorem processReceived_nothing (length : loop.length = -1)
    (room : toSizeT word loop.buffer.used ≠ 2048) :
    processReceived word call loop exit = processNothing call loop exit := by
  have notFull : ¬ (loop.length = -1 ∧ toSizeT word loop.buffer.used = 2048) := fun h => room h.2
  have notFound : ¬ loop.length > 0 := by omega
  rw [processReceived_holds word call holds, if_neg notFull]
  split
  · exact if_neg notFound
  · rfl

theorem processReceived_message {index : Nat} (length : loop.length > 0)
    (found : loop.message = some index) :
    processReceived word call loop exit = processMessage call.client loop exit index := by
  have notFull : ¬ (loop.length = -1 ∧ toSizeT word loop.buffer.used = 2048) := by omega
  rw [processReceived_holds word call holds, if_neg notFull, found]
  exact if_pos length

end Branches

/-- The answers of the connection have been looked through. -/
theorem served_of_ends (word : WordSize) {before : ReceiveBuffer} {call : Call} {loop : Loop}
    {exit : LoopExit} (ends : LoopEnds before loop exit) (hears : call.hears = true)
    (start : 0 ≤ before.used) :
    Served (ended before call (processReceived word call loop exit)) := by
  have upper := ends.collected.upper
  have nonneg : 0 ≤ loop.buffer.used := by
    have := ends.collected.used
    omega
  have unread : before.unread ++ loop.received = loop.buffer.unread := ends.collected.unread.symm
  have full : toSizeT word loop.buffer.used = 2048 ↔ loop.buffer.used = 2048 := by
    rw [toSizeT_of_nonneg word nonneg (by omega)]
    omega
  rcases ends.looked with ⟨none, length⟩ | ⟨m, complete, length, index⟩
  · have incomplete : ∀ {done : ReceiveBuffer × Processed}, done.2.received = loop.received →
        completion (ended before call done) = .none := by
      intro done received
      rw [completion, buffered]
      exact (if_pos hears).trans (by rw [ended, received, unread, none])
    by_cases failed : ∃ code, exit = .failed code
    · obtain ⟨code, rfl⟩ := failed
      exact served_failed word ends.collected (ends.goesOn LoopExit.noConfusion).2
        (fun negative => by omega) (incomplete rfl)
    have holds : ∀ code, exit ≠ .failed code := fun code same => failed ⟨code, same⟩
    by_cases isFull : loop.buffer.used = 2048
    · have left : exit = .left := by
        by_contra notLeft
        have := (ends.goesOn notLeft).2
        omega
      rw [processReceived_dropped word call holds length (full.mpr isFull)]
      exact .dropped (incomplete rfl) start ((congrArg completeMessage unread).trans none)
        (ends.collected.used.symm.trans isFull) rfl rfl rfl ends.collected.writes
        (congrArg some left)
    · rw [processReceived_nothing word call holds length (mt full.mp isFull)]
      exact served_nothing ends.collected (by omega) (fun negative => by omega) (incomplete rfl)
        fun _ => .inr none
  · have two := (isIn_of_completeMessage complete).two_le
    have left : exit = .left := by
      by_contra notLeft
      have := (ends.goesOn notLeft).1
      omega
    rw [left, processReceived_message word call (fun _ => LoopExit.noConfusion) (by omega) index]
    exact served_message ends.collected start complete length hears

/-- A fill count at the start of a call is not the size of the buffer. -/
theorem Bounded.not_full {before : ReceiveBuffer} (bounded : Bounded before) (word : WordSize) :
    toSizeT word before.used ≠ 2048 := by
  obtain ⟨lower, upper⟩ := bounded
  by_cases negative : before.used = -1
  · have large := toSizeT_neg_one word
    rw [negative]
    omega
  · rw [toSizeT_of_nonneg word (by omega) (by omega)]
    omega

/-- Where nothing is heard the call finds nothing, and says why. -/
theorem process_hearsNothing (word : WordSize) {before : ReceiveBuffer} (bounded : Bounded before)
    {call : Call} (nothing : call.hearsNothing = true) :
    ∃ exit, pushStep word before call = processNothing call (.begin before) exit ∧
      (0 ≤ before.used → exit = .again) := by
  have isOpen : call.client.pushCurlHandle ≠ none := by
    intro closed
    simp [Call.hearsNothing, closed] at nothing
  have collected := Collected.begin bounded
  have goesOn := (Loop.begin before).goesOn_iff word collected.lower collected.upper
  have stays : ∀ {exit : LoopExit}, (∀ code, exit ≠ .failed code) →
      processReceived word call (.begin before) exit =
        processNothing call (.begin before) exit := fun holds =>
    processReceived_nothing word call holds rfl (bounded.not_full word)
  rw [pushStep, parseProcessNextPushNotification, if_neg isOpen]
  by_cases more : (Loop.begin before).goesOn word = true
  · refine ⟨.again, ?_, fun _ => rfl⟩
    cases answers : call.answers with
    | nil =>
        rw [receiveLoop_nil more]
        exact stays fun _ => LoopExit.noConfusion
    | cons answer answers =>
        cases answer with
        | ok bytes => simp_all [Call.hearsNothing]
        | again =>
            rw [receiveLoop_again more]
            exact stays fun _ => LoopExit.noConfusion
        | error code => simp_all [Call.hearsNothing]
  · refine ⟨.left, ?_, fun nonneg => absurd (goesOn.mpr ⟨rfl, nonneg, bounded.2⟩) more⟩
    rw [receiveLoop_left more]
    exact stays fun _ => LoopExit.noConfusion

theorem processReceived_received (word : WordSize) (call : Call) (loop : Loop) (exit : LoopExit) :
    (processReceived word call loop exit).2.received = loop.received := by
  by_cases failed : ∃ code, exit = .failed code
  · obtain ⟨code, rfl⟩ := failed
    rfl
  · rw [processReceived_holds word call fun code same => failed ⟨code, same⟩]
    split
    · rfl
    · split
      · split <;> rfl
      · rfl

/-- A call whose connection has no bytes receives none. -/
theorem received_of_deaf (word : WordSize) (before : ReceiveBuffer) {call : Call}
    (deaf : call.hears = false) :
    (parseProcessNextPushNotification word before call).2.received = [] := by
  rw [parseProcessNextPushNotification]
  split
  · rfl
  rename_i isOpen
  obtain ⟨handle, isOpen⟩ := Option.ne_none_iff_exists'.mp isOpen
  have begins : (receiveLoop word call.answers (.begin before)).1.received = [] := by
    by_cases more : (Loop.begin before).goesOn word = true
    · cases answers : call.answers with
      | nil =>
          rw [receiveLoop_nil more]
          rfl
      | cons answer answers' =>
          cases answer with
          | ok bytes => simp [Call.hears, isOpen, answers] at deaf
          | again =>
              rw [receiveLoop_again more]
              rfl
          | error code =>
              rw [receiveLoop_error more]
              rfl
    · rw [receiveLoop_left more]
      rfl
  exact (processReceived_received ..).trans begins

/-- **What one call does.** -/
theorem process_served (word : WordSize) {before : ReceiveBuffer} (bounded : Bounded before)
    (call : Call) : Served (fire (pushStep word) before call) := by
  have collected := Collected.begin bounded
  have room : (Loop.begin before).buffer.used < 2048 := bounded.2
  have unread : before.unread ++ [] = before.unread := List.append_nil _
  by_cases nothing : call.hearsNothing = true
  · obtain ⟨exit, same, -⟩ := process_hearsNothing word bounded nothing
    have deaf : ¬ call.hears = true := by
      simp only [Call.hearsNothing] at nothing
      simp only [Call.hears]
      split at nothing <;> simp_all
    change Served (ended before call (pushStep word before call))
    rw [same]
    exact served_nothing collected room (fun _ => rfl) (if_neg deaf) fun _ => .inl nothing
  change Served (ended before call (parseProcessNextPushNotification word before call))
  rw [parseProcessNextPushNotification]
  by_cases closed : call.client.pushCurlHandle = none
  · rw [if_pos closed]
    have deaf : ¬ call.hears = true := by simp [Call.hears, closed]
    exact .kept (if_neg deaf) unread.symm (by simp [ended]) bounded.2 (fun _ => rfl) rfl rfl
      (fun _ member => absurd member (List.not_mem_nil)) (fun same => by cases same)
  obtain ⟨handle, isOpen⟩ := Option.ne_none_iff_exists'.mp closed
  rw [if_neg closed]
  have goesOn := (Loop.begin before).goesOn_iff word collected.lower collected.upper
  by_cases more : (Loop.begin before).goesOn word = true
  · -- the buffer has room: the first answer decides
    have nonneg := (goesOn.mp more).2.1
    cases answers : call.answers with
    | nil => simp [Call.hearsNothing, isOpen, answers] at nothing
    | cons answer answers' =>
        cases answer with
        | ok bytes =>
            have nonneg' : 0 ≤ ((Loop.begin before).ok bytes).buffer.used := by
              simp only [Loop.ok, PushBuffer.receive]
              omega
            have ends := receiveLoop_ends word before answers' (collected.ok nonneg bytes)
              (.ok collected.upper bytes) nonneg'
            rw [receiveLoop_ok more]
            exact served_of_ends word ends (by simp [Call.hears, answers, isOpen]) nonneg
        | again => simp [Call.hearsNothing, isOpen, answers] at nothing
        | error code =>
            rw [receiveLoop_error more]
            exact served_failed word collected room (fun _ => rfl)
              (if_neg (by simp [ended, Call.hears, answers]))
  · -- the fill count is minus one: nothing is received any more
    have empty : before.unread = [] := by
      have : ¬ (0 ≤ before.used) := fun nonneg => more (goesOn.mpr ⟨rfl, nonneg, bounded.2⟩)
      exact PushBuffer.unread_of_nonpos (by omega)
    rw [receiveLoop_left more]
    change Served (ended before call (processReceived word call (.begin before) .left))
    rw [processReceived_nothing word call (fun _ => LoopExit.noConfusion) rfl
      (bounded.not_full word)]
    refine served_nothing collected room (fun _ => rfl) ?_ (fun same => by cases same)
    have silent : buffered (ended before call (processNothing call (.begin before) .left)) = [] :=
      unread.trans empty
    rw [completion, silent]
    split <;> rfl

/-! ## The fill count over a run -/

theorem length_buffered {t : Transition} (nonneg : 0 ≤ t.before.used)
    (upper : t.before.used < 2048) :
    ((buffered t).length : Int) = t.before.used + t.output.received.length := by
  simp only [buffered, List.length_append]
  rw [PushBuffer.length_unread (by omega)]
  push_cast
  omega

theorem completeMessage_of_completion {t : Transition} {m : Message}
    (complete : completion t = some m) : completeMessage (buffered t) = some m := by
  rw [completion] at complete
  split at complete
  · exact complete
  · cases complete

theorem Served.bounded {t : Transition} (served : Served t) (before : Bounded t.before) :
    Bounded t.after := by
  obtain ⟨lower, upperBefore⟩ := before
  cases served with
  | kept incomplete unread used upper stuck =>
      exact ⟨by omega, upper⟩
  | dropped incomplete _ full used =>
      exact ⟨by omega, by omega⟩
  | served m complete nonneg unread used upper =>
      have isIn := isIn_of_completeMessage (completeMessage_of_completion complete)
      have fits := isIn.inside
      have := isIn.two_le
      have length := length_buffered nonneg upperBefore
      exact ⟨by omega, by omega⟩

/-- The buffer before the first call: nothing has been received. -/
def unfilled (data : Block Byte 2048) : ReceiveBuffer := ⟨data, 0⟩

theorem unfilled_used (data : Block Byte 2048) : (unfilled data).used = 0 := rfl

theorem unfilled_bounded (data : Block Byte 2048) : Bounded (unfilled data) := by
  rw [Bounded, unfilled_used]
  decide

/-- A client with a callback and an open connection. -/
def openClient : ParseClientInternal where
  applicationId := CString.literal "app"
  installationId := none
  lastPushTime := none
  pushCallback := true
  pushCurlHandle := some 0
  lastHearbeat := 0

end ParseEmbedded.Unix
