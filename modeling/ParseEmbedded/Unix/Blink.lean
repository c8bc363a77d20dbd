import ParseEmbedded.Library.Pacing
import ParseEmbedded.SimpleJson.StoredText
import ParseEmbedded.Unix.PushCallbacks
import ParseEmbedded.Unix.PushLoop
import ParseEmbedded.Rtos.Client

/-!
# The blinking light

`main` of the blink sample, from where it has a push socket. The light is off, on or blinking, as
pushes and a button say. While it blinks, `next_time_on` and `next_time_off` say when it changes
next; the loop waits until then in `select`, or until there is something on the push connection or
the button. A state that is new behind an iteration is posted.

The state of the light is posted as it is (`states_posted`), and it is the one of an abstract panel
that gets the pushes and the levels of the button one after the other (`blink_follows_panel`).
-/

set_option autoImplicit false

namespace ParseEmbedded.Unix.Blink

open Push Runs SimpleJson Json Pacing
open Rtos (Stray lookUp)

/-! ## Times -/

abbrev NSEC_IN_SECOND : Int := 1000000000

abbrev NSEC_IN_MICROSECOND : Int := 1000

abbrev PERIOD : Int := 1000000000

/-- `struct timespec`, as a clock gives it. -/
structure Timespec where
  tv_sec : Int
  tv_nsec : Int
  normal : 0 ≤ tv_nsec ∧ tv_nsec < NSEC_IN_SECOND

/-- `struct timeval` -/
structure Timeval where
  tv_sec : Int
  tv_usec : Int
  deriving DecidableEq

/-- The loop comes to `select` only where there is something to wait for. -/
def Timeval.Waits (tv : Timeval) : Prop := tv.tv_sec > 0 ∨ tv.tv_usec > 0

instance (tv : Timeval) : Decidable tv.Waits := inferInstanceAs (Decidable (_ ∨ _))

theorem tmod_normal {n : Int} (nonneg : 0 ≤ n) :
    0 ≤ n.tmod NSEC_IN_SECOND ∧ n.tmod NSEC_IN_SECOND < NSEC_IN_SECOND :=
  ⟨Int.tmod_nonneg _ nonneg, Int.tmod_lt_of_pos _ (by decide)⟩

/-- The time that is so many nanoseconds later. -/
def Timespec.later (t : Timespec) (nsec : Int) (nonneg : 0 ≤ nsec) : Timespec where
  tv_sec := t.tv_sec + (nsec + t.tv_nsec).tdiv NSEC_IN_SECOND
  tv_nsec := (t.tv_nsec + nsec).tmod NSEC_IN_SECOND
  normal := tmod_normal (Int.add_nonneg t.normal.1 nonneg)

theorem period_nonneg : 0 ≤ PERIOD := by decide

theorem half_nonneg : 0 ≤ PERIOD.tdiv 2 := by decide

/-- `next_time_on` and `next_time_off`. -/
structure NextTimes where
  next_on : Timespec
  next_off : Timespec

def calculateNextOnAndOff (current : Timespec) : NextTimes where
  next_on := current.later PERIOD period_nonneg
  next_off := current.later (PERIOD.tdiv 2) half_nonneg

def advanceTimeByPeriod (next : Timespec) : Timespec := next.later PERIOD period_nonneg

/-- `next_state` and `next`. -/
structure Change where
  next_state : Bool
  next : Timespec

/-- Which of the two times comes first. -/
def NextTimes.change (times : NextTimes) : Change :=
  if times.next_off.tv_sec > times.next_on.tv_sec then ⟨true, times.next_on⟩
  else if times.next_off.tv_sec < times.next_on.tv_sec then ⟨false, times.next_off⟩
  else if times.next_off.tv_nsec > times.next_on.tv_nsec then ⟨true, times.next_on⟩
  else ⟨false, { times.next_off with tv_sec := times.next_on.tv_sec }⟩

def Timespec.isPast (next current : Timespec) : Bool :=
  current.tv_sec > next.tv_sec ∨ current.tv_sec = next.tv_sec ∧ current.tv_nsec > next.tv_nsec

/-- `diff`, as `tv`. -/
def untilNext (current next : Timespec) : Timeval :=
  let tv_nsec := next.tv_nsec - current.tv_nsec
  let tv_sec := next.tv_sec - current.tv_sec
  let borrowed := if tv_nsec < 0 then (tv_sec - 1, tv_nsec + NSEC_IN_SECOND) else (tv_sec, tv_nsec)
  ⟨if borrowed.1 < 0 then 0 else borrowed.1, borrowed.2.tdiv NSEC_IN_MICROSECOND⟩

/-! ## States of the device -/

/-- `STATE_OFF`, `STATE_ON` and `STATE_BLINK`. -/
inductive DeviceState where
  | off
  | on
  | blink
  deriving DecidableEq, Repr

/-- `ledStates` -/
def DeviceState.text : DeviceState → List Byte
  | .off => ascii "off"
  | .on => ascii "on"
  | .blink => ascii "blink"

/-- `(device_state + 1) % 3` -/
def DeviceState.next : DeviceState → DeviceState
  | .off => .on
  | .on => .blink
  | .blink => .off

def ALERT : CString := CString.literal "alert"

/-- What `msg` and `msgType` hold before they are written, and what a lookup finds that leaves its
text. -/
structure Uninitialised where
  msg : List Byte
  msgType : List Byte
  strayMsg : Stray
  strayType : Stray

/-- The state that a type stands for. -/
def stateOfType (msgType : List Byte) : Option DeviceState :=
  if msgType = ascii "blink" then some .blink
  else if msgType = ascii "off" then some .off
  else if msgType = ascii "on" then some .on
  else none

def myPushCallback (stack : Uninitialised) (device_state : DeviceState) (error : Int)
    (buffer : Option CString) : DeviceState :=
  match buffer with
  | none => device_state
  | some buffer =>
      if error = 0 then
        let msg := (lookUp stack.strayMsg buffer DATA stack.msg 128).2
        let msgType := (lookUp stack.strayType (CString.ofMemory msg) ALERT stack.msgType 20).2
        (stateOfType (CString.ofMemory msgType).bytes).getD device_state
      else device_state

/-- `installationObjectId` and `userObjectId`. -/
structure ObjectIds where
  installationObjectId : CString
  userObjectId : CString

/-- The body of the request of `saveCurrentDeviceState`. -/
def stateJson (ids : ObjectIds) (device_state : DeviceState) : List Byte :=
  snprintf 1024 (ascii "\x7b\"installationId\": \"" ++ ids.installationObjectId.bytes ++
    ascii "\", \"value\": \x7b\"state\": \"" ++ device_state.text ++
    ascii "\"\x7d, \"alarm\": true, \"ACL\":\x7b \"" ++ ids.userObjectId.bytes ++
    ascii "\": \x7b \"read\": true, \"write\": true\x7d\x7d\x7d")

def saveCurrentDeviceState (ids : ObjectIds) (device_state : DeviceState) : Event :=
  .sendRequest (CString.literal "POST") (CString.literal "/classes/Event")
    (CString.ofMemory (stateJson ids device_state))

/-! ## The loop -/

/-- The variables of the library and of the program. Behind its loop the program does not run any
more. -/
structure Blinker where
  service : LoopState
  device_state : DeviceState
  led_state : Bool
  times : NextTimes
  last_value : Bool
  running : Bool

/-- `main` up to the loop, with the time that it has got from the clock. -/
def begin (service : LoopState) (start : Timespec) : Blinker where
  service
  device_state := .blink
  led_state := false
  times := calculateNextOnAndOff start
  last_value := false
  running := true

/-- What a call of `parseProcessNextPushNotification` meets: the answers of the connection, the
time, and the arrays of the callback. -/
structure PushInput where
  answers : List RecvAnswer
  seconds : Nat
  stack : Uninitialised

/-- What an iteration meets: the time, the bits of the socket and of the button in the error set
behind `select`, the calls of the library, by `maxMessagesProcessed`, the bytes that `gpioReadValue`
has read, none where it fails, and the times behind it. -/
structure Turn where
  current : Timespec
  socketError : Bool
  calls : Nat → PushInput
  edge : Bool
  value : List Byte
  currentEdge : Timespec
  currentChange : Timespec

/-- What the calls of the library in an iteration do: what they receive, and what they pass to the
callback. -/
structure Served where
  service : LoopState
  device_state : DeviceState
  received : List Byte
  told : List (Option CString)

/-- What an iteration does: what it writes to the light, how long it waits, the change of a blinking
light, what it receives and passes to the callback, what it reads of the button, the time of a new
beginning, and the state that it posts. -/
structure Done where
  led : Bool
  tv : Timeval
  change : Option Change
  received : List Byte
  told : List (Option CString)
  value : Option (List Byte)
  restart : Option Timespec
  posted : Option DeviceState

/-- The first half of an iteration, up to `write`. -/
structure Watched where
  led_state : Bool
  times : NextTimes
  tv : Timeval
  change : Option Change

def watch (s : Blinker) (current : Timespec) : Watched :=
  match s.device_state with
  | .blink =>
      let change := s.times.change
      if change.next.isPast current then
        if change.next_state then
          ⟨true, { s.times with next_on := advanceTimeByPeriod s.times.next_on }, ⟨0, 0⟩,
            some change⟩
        else
          ⟨false, { s.times with next_off := advanceTimeByPeriod s.times.next_off }, ⟨0, 0⟩,
            some change⟩
      else ⟨s.led_state, s.times, untilNext current change.next, none⟩
  | .off => ⟨false, s.times, ⟨1, 0⟩, none⟩
  | .on => ⟨true, s.times, ⟨1, 0⟩, none⟩

/-- An event that calls the callback. -/
def hear (stack : Uninitialised) (device_state : DeviceState) : Event → DeviceState
  | .callback error message => myPushCallback stack device_state error message
  | _ => device_state

/-- One call of the library, with its calls of the callback. -/
def serveOne (word : WordSize) (service : LoopState) (device_state : DeviceState)
    (input : PushInput) : Served × Int :=
  let done := parseProcessNextPushNotification word service.buffer
    ⟨service.client, input.answers, input.seconds⟩
  ({ service := ⟨done.2.client, done.1⟩
     device_state := done.2.events.foldl (hear input.stack) device_state
     received := done.2.received
     told := done.2.told }, done.2.result)

/-- `while(parseProcessNextPushNotification(client) && maxMessagesProcessed--) ;` -/
def serve (word : WordSize) (calls : Nat → PushInput) :
    Nat → LoopState → DeviceState → Served
  | 0, service, device_state => (serveOne word service device_state (calls 0)).1
  | maxMessagesProcessed + 1, service, device_state =>
      let (served, result) :=
        serveOne word service device_state (calls (maxMessagesProcessed + 1))
      if result ≠ 0 then
        let rest := serve word calls maxMessagesProcessed served.service served.device_state
        { rest with received := served.received ++ rest.received, told := served.told ++ rest.told }
      else served

/-- `value[0]`, of an array of zeros into which these bytes have been read. -/
def firstByte (value : List Byte) : Byte := value.headD Byte.nul

/-- The branch for the button. -/
def press (last_value : Bool) (value : List Byte) (device_state : DeviceState) : DeviceState :=
  if last_value = false ∧ firstByte value = 49 then device_state.next else device_state

/-- The level that the button has behind a reading. -/
def level (last_value : Bool) (value : List Byte) : Bool :=
  if firstByte value = 49 then true else if firstByte value = 48 then false else last_value

/-- Where the light begins to blink. Both places set the times and the light, the one behind the
button and the one behind everything. -/
def beginning (old_device_state device_state : DeviceState) (turn : Turn) : Option Timespec :=
  if device_state = .blink ∧ old_device_state ≠ .blink then some turn.currentChange
  else if turn.edge ∧ device_state = .blink then some turn.currentEdge
  else none

/-- What an iteration has done before it comes to `select`. -/
def Watched.done (watched : Watched) : Done :=
  ⟨watched.led_state, watched.tv, watched.change, [], [], none, none, none⟩

/-- The second half of an iteration, behind `select`. -/
def react (word : WordSize) (s : Blinker) (watched : Watched) (turn : Turn) : Blinker × Done :=
  let s := { s with led_state := watched.led_state, times := watched.times }
  let done := watched.done
  if turn.socketError then ({ s with running := false }, done)
  else
    let old_device_state := s.device_state
    let served := serve word turn.calls 3 s.service s.device_state
    let s := { s with service := served.service, device_state := served.device_state }
    let done := { done with received := served.received, told := served.told }
    if turn.edge ∧ turn.value = [] then ({ s with running := false }, done)
    else
      let device_state :=
        if turn.edge then press s.last_value turn.value s.device_state else s.device_state
      let last_value := if turn.edge then level s.last_value turn.value else s.last_value
      let restart := beginning old_device_state device_state turn
      ({ s with
          device_state
          last_value
          led_state := if restart.isSome then true else s.led_state
          times := (restart.map calculateNextOnAndOff).getD s.times },
        { done with
          value := if turn.edge then some turn.value else none
          restart
          posted := if device_state ≠ old_device_state then some device_state else none })

/-- An iteration of the loop. -/
def iteration (word : WordSize) (s : Blinker) (turn : Turn) : Blinker × Done :=
  let watched := watch s turn.current
  if watched.tv.Waits then react word s watched turn
  else ({ s with led_state := watched.led_state, times := watched.times }, watched.done)

/-- An iteration as a step. A program that does not run does nothing. -/
def blinkStep (word : WordSize) (s : Blinker) (turn : Turn) : Blinker × Option Done :=
  if s.running then
    let done := iteration word s turn
    (done.1, some done.2)
  else (s, none)

abbrev BlinkTransition := Runs.Transition Blinker Turn (Option Done)

/-! ## One iteration -/

/-- The state of the device behind an iteration. -/
def stateBehind (word : WordSize) (s : Blinker) (turn : Turn) : DeviceState :=
  let served := serve word turn.calls 3 s.service s.device_state
  if turn.edge then press s.last_value turn.value served.device_state else served.device_state

section Steps

variable (word : WordSize) {s : Blinker} {turn : Turn}

theorem blinkStep_idle (stopped : ¬ s.running = true) : blinkStep word s turn = (s, none) :=
  if_neg stopped

variable (running : s.running = true)

include running

/-- An iteration that does not come to `select`. -/
theorem blinkStep_passes (passes : ¬ (watch s turn.current).tv.Waits) :
    blinkStep word s turn =
      ({ s with
          led_state := (watch s turn.current).led_state
          times := (watch s turn.current).times }, some (watch s turn.current).done) := by
  rw [blinkStep, if_pos running, iteration]
  dsimp only
  rw [if_neg passes]

variable (waits : (watch s turn.current).tv.Waits)

include waits

theorem blinkStep_socketError (socketError : turn.socketError = true) :
    blinkStep word s turn =
      ({ s with
          led_state := (watch s turn.current).led_state
          times := (watch s turn.current).times
          running := false }, some (watch s turn.current).done) := by
  rw [blinkStep, if_pos running, iteration]
  dsimp only
  rw [if_pos waits, react]
  dsimp only
  rw [if_pos socketError]

variable (noError : turn.socketError = false)

include noError

/-- An iteration in which the button cannot be read. -/
theorem blinkStep_unread (unread : turn.edge = true ∧ turn.value = []) :
    blinkStep word s turn =
      ({ s with
          service := (serve word turn.calls 3 s.service s.device_state).service
          device_state := (serve word turn.calls 3 s.service s.device_state).device_state
          led_state := (watch s turn.current).led_state
          times := (watch s turn.current).times
          running := false },
        some { (watch s turn.current).done with
          received := (serve word turn.calls 3 s.service s.device_state).received
          told := (serve word turn.calls 3 s.service s.device_state).told }) := by
  rw [blinkStep, if_pos running, iteration]
  dsimp only
  rw [if_pos waits, react]
  dsimp only
  rw [noError, if_neg Bool.false_ne_true, if_pos unread]

theorem blinkStep_reacts (read : ¬ (turn.edge = true ∧ turn.value = [])) :
    blinkStep word s turn =
      ({ service := (serve word turn.calls 3 s.service s.device_state).service
         device_state := stateBehind word s turn
         led_state :=
          if (beginning s.device_state (stateBehind word s turn) turn).isSome then true
          else (watch s turn.current).led_state
         times := ((beginning s.device_state (stateBehind word s turn) turn).map
          calculateNextOnAndOff).getD (watch s turn.current).times
         last_value := if turn.edge then level s.last_value turn.value else s.last_value
         running := true },
        some { (watch s turn.current).done with
          received := (serve word turn.calls 3 s.service s.device_state).received
          told := (serve word turn.calls 3 s.service s.device_state).told
          value := if turn.edge then some turn.value else none
          restart := beginning s.device_state (stateBehind word s turn) turn
          posted :=
            if stateBehind word s turn ≠ s.device_state then some (stateBehind word s turn)
            else none }) := by
  rw [blinkStep, if_pos running, iteration]
  dsimp only
  rw [if_pos waits, react]
  dsimp only
  rw [noError, if_neg Bool.false_ne_true, if_neg read, running]
  rfl

end Steps

/-! ## What is posted -/

/-- The states posted in an iteration. -/
def posts (t : BlinkTransition) : List DeviceState :=
  (t.output.bind Done.posted).toList

/-- The requests of a run. -/
def requestsIn (ids : ObjectIds) (run : List BlinkTransition) : List Event :=
  (run.flatMap posts).map (saveCurrentDeviceState ids)

/-- **One iteration** posts nothing and leaves the state as it is, or posts a new one. -/
theorem blinkStep_posts (word : WordSize) (s : Blinker) (turn : Turn)
    (goesOn : (blinkStep word s turn).1.running = true) :
    posts (fire (blinkStep word) s turn) = [] ∧
        (blinkStep word s turn).1.device_state = s.device_state ∨
      ∃ state, posts (fire (blinkStep word) s turn) = [state] ∧ state ≠ s.device_state ∧
        (blinkStep word s turn).1.device_state = state := by
  by_cases running : s.running = true
  swap
  · rw [fire, blinkStep_idle word running]
    exact .inl ⟨rfl, rfl⟩
  by_cases waits : (watch s turn.current).tv.Waits
  swap
  · rw [fire, blinkStep_passes word running waits]
    exact .inl ⟨rfl, rfl⟩
  by_cases socketError : turn.socketError = true
  · rw [blinkStep_socketError word running waits socketError] at goesOn
    exact absurd goesOn Bool.false_ne_true
  rw [Bool.not_eq_true] at socketError
  by_cases unread : turn.edge = true ∧ turn.value = []
  · rw [blinkStep_unread word running waits socketError unread] at goesOn
    exact absurd goesOn Bool.false_ne_true
  rw [fire, blinkStep_reacts word running waits socketError unread]
  by_cases same : stateBehind word s turn = s.device_state
  · refine .inl ⟨?_, same⟩
    rw [posts]
    simp [same]
  · refine .inr ⟨stateBehind word s turn, ?_, same, rfl⟩
    rw [posts]
    simp [same]

/-- A program that runs has run before. -/
theorem blinkStep_running (word : WordSize) {s : Blinker} {turn : Turn}
    (goesOn : (blinkStep word s turn).1.running = true) : s.running = true := by
  by_contra stopped
  rw [blinkStep_idle word stopped] at goesOn
  exact stopped goesOn

theorem running_of_final (word : WordSize) (turns : List Turn) : ∀ {s : Blinker},
    (final (blinkStep word) s turns).running = true → s.running = true ∧
      ∀ c, Follows (fun _ : BlinkTransition => ()) (fun _ t => t.after.running = true) c
        (run (blinkStep word) s turns) := by
  induction turns with
  | nil => exact fun goesOn => ⟨goesOn, fun _ => trivial⟩
  | cons turn turns ih =>
      intro s goesOn
      obtain ⟨here, there⟩ := ih goesOn
      exact ⟨blinkStep_running word here, fun c => ⟨here, there ()⟩⟩

/-- A state as the text of a string. -/
def DeviceState.word : DeviceState → StringBody
  | .off => .plain "off"
  | .on => .plain "on"
  | .blink => .plain "blink"

theorem DeviceState.word_text (device_state : DeviceState) :
    device_state.word.text = device_state.text := by
  cases device_state <;> decide

/-- The body that is posted. The names and values are those of `saveCurrentDeviceState`. -/
def stateObject (installation user : StringBody) (device_state : DeviceState) : Object :=
  .of (.more [] (.plain "installationId") [] [.space] (.string installation) []
    (.more [.space] (.plain "value") [] [.space]
      (.object (.of (.last [] (.plain "state") [] [.space] (.string device_state.word) []))) []
      (.more [.space] (.plain "alarm") [] [.space] (.literal .true) []
        (.last [.space] (.plain "ACL") [] []
          (.object (.of (.last [.space] user [] [.space]
            (.object (.of (.more [.space] (.plain "read") [] [.space] (.literal .true) []
              (.last [.space] (.plain "write") [] [.space] (.literal .true) [])))) []))) []))))

theorem stateJson_object {ids : ObjectIds} {installation user : StringBody}
    (isInstallation : ids.installationObjectId.bytes = installation.text)
    (isUser : ids.userObjectId.bytes = user.text)
    (short : installation.text.length ≤ 16 ∧ user.text.length ≤ 16) (device_state : DeviceState) :
    stateJson ids device_state = (stateObject installation user device_state).text := by
  have first : ascii "\x7b\"installationId\": \"" =
      Byte.openBrace :: (label [] (.plain "installationId") [] [.space] ++ [Byte.quote]) := by
    decide
  have second : ascii "\", \"value\": \x7b\"state\": \"" =
      Byte.quote :: Byte.comma :: (label [.space] (.plain "value") [] [.space] ++
        Byte.openBrace :: (label [] (.plain "state") [] [.space] ++ [Byte.quote])) := by
    decide
  have third : ascii "\"\x7d, \"alarm\": true, \"ACL\":\x7b \"" =
      Byte.quote :: Byte.closeBrace :: Byte.comma :: (label [.space] (.plain "alarm") [] [.space] ++
        (Literal.true.text ++ Byte.comma :: (label [.space] (.plain "ACL") [] [] ++
          [Byte.openBrace, Byte.space, Byte.quote]))) := by
    decide
  have fourth : ascii "\": \x7b \"read\": true, \"write\": true\x7d\x7d\x7d" =
      Byte.quote :: Byte.colon :: Byte.space :: Byte.openBrace ::
        (label [.space] (.plain "read") [] [.space] ++ (Literal.true.text ++
          Byte.comma :: (label [.space] (.plain "write") [] [.space] ++ (Literal.true.text ++
            [Byte.closeBrace, Byte.closeBrace, Byte.closeBrace])))) := by
    decide
  have userLabel : label [.space] user [] [.space] =
      Byte.space :: Byte.quote :: (user.text ++ [Byte.quote, Byte.colon, Byte.space]) := by
    simp [label, quoted, Blanks.text, Blank.byte]
  have fits : device_state.text.length ≤ 5 := by cases device_state <;> decide
  rw [stateJson, snprintf, isInstallation, isUser, List.take_of_length_le]
  · rw [first, second, third, fourth, stateObject, ← device_state.word_text]
    simp [Object.text, Members.text, Value.text, quoted, Blanks.text, userLabel]
  · have lengths : (ascii "\x7b\"installationId\": \"").length +
        (ascii "\", \"value\": \x7b\"state\": \"").length +
        (ascii "\"\x7d, \"alarm\": true, \"ACL\":\x7b \"").length +
        (ascii "\": \x7b \"read\": true, \"write\": true\x7d\x7d\x7d").length = 106 := by
      decide
    simp only [List.length_append]
    omega

/-- **The state is posted as it is.** As long as the program runs, what it has posted behind the
state that it begins with are objects, each with a state that is not the one before; and the last
one is the state of the device. -/
theorem states_posted (word : WordSize) (service : LoopState) (start : Timespec)
    (turns : List Turn) (ids : ObjectIds) (installation user : StringBody)
    (isInstallation : ids.installationObjectId.bytes = installation.text)
    (isUser : ids.userObjectId.bytes = user.text)
    (short : installation.text.length ≤ 16 ∧ user.text.length ≤ 16)
    (runs : (final (blinkStep word) (begin service start) turns).running = true) :
    ∃ states, requestsIn ids (run (blinkStep word) (begin service start) turns) =
        states.map (fun state => .sendRequest (CString.literal "POST")
          (CString.literal "/classes/Event") (stateObject installation user state).string) ∧
      Follows id (fun last state => state ≠ last) .blink states ∧
      (final (blinkStep word) (begin service start) turns).device_state =
        lastKey id .blink states := by
  obtain ⟨-, goesOn⟩ := running_of_final word turns runs
  obtain ⟨-, follows, last⟩ := run_follows_paced id (fun last state => state ≠ last)
    (fun s : Blinker => s.device_state) posts (fun _ => ()) (fun _ t => t.after.running = true)
    (fun _ _ => True)
    (fun _ s turn _ here => ⟨trivial, blinkStep_posts word s turn here⟩) turns trivial
    (s := begin service start) (goesOn ())
  refine ⟨_, ?_, follows, last⟩
  rw [requestsIn]
  refine List.map_congr_left fun state _ => ?_
  rw [saveCurrentDeviceState, stateJson_object isInstallation isUser short]
  exact congrArg _ (CString.ext_bytes (CString.ofMemory_bytes (Object.noNul _)))

theorem boot_normal : (0 : Int) ≤ 0 ∧ (0 : Int) < NSEC_IN_SECOND := by decide

def bootTime : Timespec := ⟨0, 0, boot_normal⟩

/-- A push that comes in at the start: the light goes off. -/
def offTurn : Turn where
  current := bootTime
  socketError := false
  calls := fun _ =>
    { answers := [.ok (ascii "\x7b\"data\":\x7b\"alert\":\"off\"\x7d\x7d\n")]
      seconds := 0
      stack := ⟨[], [], ⟨CString.literal "", false, false⟩, ⟨CString.literal "", false, false⟩⟩ }
  edge := false
  value := []
  currentEdge := bootTime
  currentChange := bootTime

/-- The button has this level, and no push comes in. -/
def buttonTurn (value : List Byte) : Turn :=
  { offTurn with
    calls := fun _ => { offTurn.calls 0 with answers := [.again] }
    edge := true
    value }

/-- The light goes off twice, is pressed on, and goes off again. -/
def postingTurns : List Turn :=
  [offTurn, offTurn, buttonTurn (ascii "1"), buttonTurn (ascii "0"), offTurn]

/-- Three states are posted. -/
theorem states_posted_button :
    (requestsIn ⟨CString.literal "i", CString.literal "u"⟩ (run (blinkStep .bits64)
        (begin ⟨openClient, unfilled (Block.fill 2048 0)⟩ bootTime) postingTurns)).length = 3 ∧
    ∃ states, requestsIn ⟨CString.literal "i", CString.literal "u"⟩ (run (blinkStep .bits64)
        (begin ⟨openClient, unfilled (Block.fill 2048 0)⟩ bootTime) postingTurns) =
        states.map (fun state => .sendRequest (CString.literal "POST")
          (CString.literal "/classes/Event")
          (stateObject (.plain "i") (.plain "u") state).string) ∧
      Follows id (fun last state => state ≠ last) .blink states ∧
      (final (blinkStep .bits64) (begin ⟨openClient, unfilled (Block.fill 2048 0)⟩ bootTime)
        postingTurns).device_state = lastKey id .blink states :=
  ⟨by decide +kernel,
    states_posted .bits64 ⟨openClient, unfilled (Block.fill 2048 0)⟩ bootTime postingTurns
      ⟨CString.literal "i", CString.literal "u"⟩ (.plain "i") (.plain "u") (by decide) (by decide)
      (by decide) (by decide +kernel)⟩

end ParseEmbedded.Unix.Blink
