import ParseEmbedded.Unix.Blink
import ParseEmbedded.Unix.Listening

/-!
# The light and its panel

What the light does is what an abstract panel does, which knows a state and the level of the button
and gets commands: a state to show, or a level. `blink_follows_panel` says so for every run in which
each message has an alert; without one the callback reads arrays that nothing has been written to.
-/

set_option autoImplicit false

namespace ParseEmbedded.Unix.Blink

open Push Runs SimpleJson Json
open Rtos (Stray lookUp)

/-! ## The panel -/

structure Panel where
  state : DeviceState
  pressed : Bool
  deriving DecidableEq

inductive Command where
  | show (state : DeviceState)
  | level (high : Bool)
  deriving DecidableEq

/-- A command. A level that is high presses the button if it has been low. -/
def Panel.obey (panel : Panel) : Command → Panel
  | .show state => { panel with state }
  | .level true => ⟨if panel.pressed then panel.state else panel.state.next, true⟩
  | .level false => { panel with pressed := false }

/-- What a lookup of the alert finds in what a lookup of the data has kept of a message. -/
def alertOf (text : List Byte) : Option (List Byte) :=
  (storedText DATA.bytes text).bind fun data => storedText ALERT.bytes (data.take 127)

/-- The command of a message. -/
def commandOf (message : Option CString) : Option Command :=
  (message.bind fun text => alertOf text.bytes).bind fun alert =>
    (stateOfType (alert.take 19)).map .show

/-- The command of a reading of the button. -/
def levelOf (value : List Byte) : Option Command :=
  if firstByte value = 49 then some (.level true)
  else if firstByte value = 48 then some (.level false)
  else none

/-- The commands that an iteration has got. -/
def Done.commands (done : Done) : List Command :=
  done.told.filterMap commandOf ++ (done.value.bind levelOf).toList

def commands (t : BlinkTransition) : List Command := (t.output.map Done.commands).getD []

/-- What an iteration has passed to the callback. -/
def told (t : BlinkTransition) : List (Option CString) := (t.output.map Done.told).getD []

/-- The program as a panel. -/
def Blinker.panel (s : Blinker) : Panel := ⟨s.device_state, s.last_value⟩

/-! ## A message -/

/-- A lookup that has something to store stores it, whatever is in the array. -/
theorem lookUp_stores (stray : Stray) {data key : CString} (nonempty : key.bytes ≠ [])
    {stored : List Byte} (stores : storedText key.bytes data.bytes = some stored)
    (array : List Byte) (size : Nat) :
    (CString.ofMemory (lookUp stray data key array size).2).bytes =
      stored.take ((size : Int) - 1).toNat := by
  obtain ⟨result, done⟩ := lookup_stores nonempty stores array size
  rw [Rtos.lookUp_ok stray done]
  exact ofMemory_storeInto array size (storedText_noNul data.noNul stores)

theorem ALERT_nonempty : ALERT.bytes ≠ [] := by decide

/-- **The callback gets the state from the alert**, whatever the arrays hold. -/
theorem myPushCallback_alert (stack : Uninitialised) (device_state : DeviceState)
    {message : CString} {alert : List Byte} (found : alertOf message.bytes = some alert) :
    myPushCallback stack device_state 0 (some message) =
      (stateOfType (alert.take 19)).getD device_state := by
  obtain ⟨data, hasData, hasAlert⟩ := Option.bind_eq_some_iff.mp found
  have msg := lookUp_stores stack.strayMsg data_nonempty hasData stack.msg 128
  have hasAlert : storedText ALERT.bytes
      (CString.ofMemory (lookUp stack.strayMsg message DATA stack.msg 128).2).bytes =
        some alert := by
    rw [msg]
    exact hasAlert
  have msgType := lookUp_stores stack.strayType ALERT_nonempty hasAlert stack.msgType 20
  rw [myPushCallback]
  dsimp only
  rw [if_pos rfl, msgType]
  rfl

/-! ## Calls of the library -/

/-- Each of these messages has an alert. -/
def HaveAlerts (told : List (Option CString)) : Prop :=
  ∀ message, some message ∈ told → (alertOf message.bytes).isSome = true

theorem HaveAlerts.append {first second : List (Option CString)}
    (all : HaveAlerts (first ++ second)) : HaveAlerts first ∧ HaveAlerts second :=
  ⟨fun message member => all message (List.mem_append_left _ member),
    fun message member => all message (List.mem_append_right _ member)⟩

/-- A command of a message is a state to show. -/
theorem obey_commandOf {message : CString} {alert : List Byte}
    (found : alertOf message.bytes = some alert) (panel : Panel) :
    (commandOf (some message)).toList.foldl Panel.obey panel =
      { panel with state := (stateOfType (alert.take 19)).getD panel.state } := by
  have command : commandOf (some message) = (stateOfType (alert.take 19)).map .show := by
    rw [commandOf, Option.bind_some, found, Option.bind_some]
  rw [command]
  cases stateOfType (alert.take 19) <;> rfl

/-- The callback obeys the commands among what it is told. -/
theorem hear_obeys (stack : Uninitialised) (pressed : Bool) (events : List Event) :
    ∀ device_state : DeviceState,
      (∀ error message, Event.callback error (some message) ∈ events → error = 0) →
      HaveAlerts (events.filterMap Event.told) →
      ((events.filterMap Event.told).filterMap commandOf).foldl Panel.obey
          ⟨device_state, pressed⟩ =
        ⟨events.foldl (hear stack) device_state, pressed⟩ := by
  induction events with
  | nil => exact fun _ _ _ => rfl
  | cons event events ih =>
      intro device_state success alerts
      have successes := fun error message member =>
        success error message (List.mem_cons_of_mem event member)
      by_cases silent : event.told = none
      · rw [List.filterMap_cons_none silent] at alerts ⊢
        have same : hear stack device_state event = device_state := by
          cases event with
          | callback error message => exact absurd silent (Option.some_ne_none _)
          | _ => rfl
        rw [List.foldl_cons, same]
        exact ih device_state successes alerts
      · obtain ⟨message, isTold⟩ := Option.ne_none_iff_exists'.mp silent
        rw [List.filterMap_cons_some isTold] at alerts ⊢
        have rest := fun state => ih state successes
          fun message member => alerts message (List.mem_cons_of_mem _ member)
        cases event with
        | callback error about =>
            obtain rfl : about = message := Option.some.inj isTold
            cases about with
            | none => exact rest device_state
            | some message =>
                obtain rfl := success error message (List.mem_cons_self ..)
                obtain ⟨alert, found⟩ :=
                  Option.isSome_iff_exists.mp (alerts message (List.mem_cons_self ..))
                have obeyed := obey_commandOf found ⟨device_state, pressed⟩
                rw [List.foldl_cons, hear, myPushCallback_alert stack device_state found,
                  ← rest ((stateOfType (alert.take 19)).getD device_state)]
                rw [← obeyed, ← List.foldl_append]
                refine congrArg (List.foldl Panel.obey _) ?_
                cases command : commandOf (some message) <;> simp [command]
        | _ => cases isTold

/-- One call of the library, with the messages and the bytes of it. -/
theorem serveOne_obeys (word : WordSize) (service : LoopState) (device_state : DeviceState)
    (pressed : Bool) (input : PushInput)
    (alerts : HaveAlerts (serveOne word service device_state input).1.told) :
    ((serveOne word service device_state input).1.told.filterMap commandOf).foldl Panel.obey
        ⟨device_state, pressed⟩ =
      ⟨(serveOne word service device_state input).1.device_state, pressed⟩ :=
  hear_obeys input.stack pressed _ device_state (process_told word service.buffer _).success alerts

theorem serve_obeys (word : WordSize) (calls : Nat → PushInput) (pressed : Bool) (count : Nat) :
    ∀ (service : LoopState) (device_state : DeviceState),
      HaveAlerts (serve word calls count service device_state).told →
      ((serve word calls count service device_state).told.filterMap commandOf).foldl Panel.obey
          ⟨device_state, pressed⟩ =
        ⟨(serve word calls count service device_state).device_state, pressed⟩ := by
  induction count with
  | zero => exact fun service device_state => serveOne_obeys word service device_state pressed _
  | succ count ih =>
      intro service device_state alerts
      rw [serve] at alerts ⊢
      dsimp only at alerts ⊢
      split at alerts
      · rename_i more
        rw [if_pos more]
        obtain ⟨here, there⟩ := alerts.append
        rw [List.filterMap_append, List.foldl_append,
          serveOne_obeys word service device_state pressed _ here]
        exact ih _ _ there
      · rename_i done
        rw [if_neg done]
        exact serveOne_obeys word service device_state pressed _ alerts

/-- The calls of an iteration listen to the push service. -/
theorem serve_hears (word : WordSize) (calls : Nat → PushInput) (count : Nat) :
    ∀ (service : LoopState) (device_state : DeviceState), service.client.pushCallback = true →
      Hears word service.buffer (serve word calls count service device_state).received
        (serve word calls count service device_state).told
        (serve word calls count service device_state).service.buffer ∧
      (serve word calls count service device_state).service.client.pushCallback = true := by
  have one : ∀ (service : LoopState) (device_state : DeviceState) (input : PushInput),
      service.client.pushCallback = true →
        Hears word service.buffer (serveOne word service device_state input).1.received
          (serveOne word service device_state input).1.told
          (serveOne word service device_state input).1.service.buffer ∧
        (serveOne word service device_state input).1.service.client.pushCallback = true := by
    intro service device_state input callback
    exact ⟨.call word service.buffer ⟨service.client, input.answers, input.seconds⟩
      callback, (parseProcessNextPushNotification_callback word service.buffer _).trans callback⟩
  induction count with
  | zero => exact fun service device_state => one service device_state _
  | succ count ih =>
      intro service device_state callback
      obtain ⟨here, still⟩ := one service device_state (calls (count + 1)) callback
      rw [serve]
      dsimp only
      split
      · obtain ⟨there, last⟩ := ih _ (serveOne word service device_state
          (calls (count + 1))).1.device_state still
        exact ⟨here.append there, last⟩
      · exact ⟨here, still⟩

/-! ## Runs -/

/-- What a run has received on the push connection. -/
def receivedIn (run : List BlinkTransition) : List Byte :=
  run.flatMap fun t => (t.output.map Done.received).getD []

def toldIn (run : List BlinkTransition) : List (Option CString) := run.flatMap told

def commandsIn (run : List BlinkTransition) : List Command := run.flatMap commands

/-- A reading of the button as a command. -/
theorem obey_levelOf (last_value : Bool) (value : List Byte) (device_state : DeviceState) :
    (levelOf value).toList.foldl Panel.obey ⟨device_state, last_value⟩ =
      ⟨press last_value value device_state, level last_value value⟩ := by
  rw [levelOf, press, level]
  by_cases high : firstByte value = 49
  · cases last_value <;> simp [high, Panel.obey]
  · by_cases low : firstByte value = 48
    · simp [low, Panel.obey]
    · simp [high, low]

/-- **One iteration obeys its commands.** -/
theorem blinkStep_obeys (word : WordSize) (s : Blinker) (turn : Turn)
    (alerts : HaveAlerts (told (fire (blinkStep word) s turn))) :
    (commands (fire (blinkStep word) s turn)).foldl Panel.obey s.panel =
      (blinkStep word s turn).1.panel := by
  by_cases running : s.running = true
  swap
  · rw [fire, blinkStep_idle word running]
    rfl
  by_cases waits : (watch s turn.current).tv.Waits
  swap
  · rw [fire, blinkStep_passes word running waits]
    rfl
  by_cases socketError : turn.socketError = true
  · rw [fire, blinkStep_socketError word running waits socketError]
    rfl
  rw [Bool.not_eq_true] at socketError
  by_cases unread : turn.edge = true ∧ turn.value = []
  · rw [fire, blinkStep_unread word running waits socketError unread] at alerts ⊢
    refine Eq.trans ?_ (serve_obeys word turn.calls s.last_value 3 s.service s.device_state alerts)
    exact congrArg (List.foldl Panel.obey _) (List.append_nil _)
  rw [fire, blinkStep_reacts word running waits socketError unread] at alerts ⊢
  have served := serve_obeys word turn.calls s.last_value 3 s.service s.device_state alerts
  change ((serve word turn.calls 3 s.service s.device_state).told.filterMap commandOf ++
    ((if turn.edge then some turn.value else none).bind levelOf).toList).foldl Panel.obey
      ⟨s.device_state, s.last_value⟩ = ⟨stateBehind word s turn, _⟩
  rw [List.foldl_append, served, stateBehind]
  by_cases edge : turn.edge = true
  · rw [if_pos edge, if_pos edge, if_pos edge]
    exact obey_levelOf s.last_value turn.value _
  · rw [if_neg edge, if_neg edge, if_neg edge]
    rfl

theorem run_obeys (word : WordSize) (turns : List Turn) : ∀ {s : Blinker},
    HaveAlerts (toldIn (run (blinkStep word) s turns)) →
      (commandsIn (run (blinkStep word) s turns)).foldl Panel.obey s.panel =
        (final (blinkStep word) s turns).panel := by
  induction turns with
  | nil => exact fun _ => rfl
  | cons turn turns ih =>
      intro s alerts
      rw [run_cons, toldIn, List.flatMap_cons] at alerts
      obtain ⟨here, there⟩ := alerts.append
      rw [run_cons, commandsIn, List.flatMap_cons, List.foldl_append,
        blinkStep_obeys word s turn here]
      exact ih there

/-- An iteration listens to the push service. -/
theorem blinkStep_hears (word : WordSize) (s : Blinker) (turn : Turn)
    (callback : s.service.client.pushCallback = true) :
    Hears word s.service.buffer (receivedIn [fire (blinkStep word) s turn])
        (toldIn [fire (blinkStep word) s turn]) (blinkStep word s turn).1.service.buffer ∧
      (blinkStep word s turn).1.service.client.pushCallback = true := by
  rw [receivedIn, toldIn, List.flatMap_singleton, List.flatMap_singleton]
  have silent := Hears.nothing word s.service.buffer
  by_cases running : s.running = true
  swap
  · rw [fire, blinkStep_idle word running]
    exact ⟨silent, callback⟩
  by_cases waits : (watch s turn.current).tv.Waits
  swap
  · rw [fire, blinkStep_passes word running waits]
    exact ⟨silent, callback⟩
  by_cases socketError : turn.socketError = true
  · rw [fire, blinkStep_socketError word running waits socketError]
    exact ⟨silent, callback⟩
  rw [Bool.not_eq_true] at socketError
  have served := serve_hears word turn.calls 3 s.service s.device_state callback
  by_cases unread : turn.edge = true ∧ turn.value = []
  · rw [fire, blinkStep_unread word running waits socketError unread]
    exact served
  · rw [fire, blinkStep_reacts word running waits socketError unread]
    exact served

theorem run_hears (word : WordSize) (turns : List Turn) : ∀ {s : Blinker},
    s.service.client.pushCallback = true →
      Hears word s.service.buffer (receivedIn (run (blinkStep word) s turns))
        (toldIn (run (blinkStep word) s turns))
        (final (blinkStep word) s turns).service.buffer := by
  induction turns with
  | nil => exact fun _ => .nothing word _
  | cons turn turns ih =>
      intro s callback
      obtain ⟨here, still⟩ := blinkStep_hears word s turn callback
      have all := here.append (ih still)
      rw [receivedIn, receivedIn, ← List.flatMap_append, toldIn, toldIn,
        ← List.flatMap_append] at all
      exact all

/-- **The light follows its panel.** In every run of the program on a connection on which the server
sends objects that fit the buffer on lines of their own, each with an alert or a heartbeat: the
messages that have come to the callback, and those that are still to come, are the objects sent that
are no heartbeats; and the state of the device and the level of the button are those of the panel,
which has got the states that the alerts name and the levels of the button, in the order in which
the program has met them. -/
theorem blink_follows_panel (word : WordSize) (data : Block Byte 2048)
    (client : ParseClientInternal) (start : Timespec) (turns : List Turn) (lines : List Line)
    (todo : List Byte) (callback : client.pushCallback = true)
    (stream : receivedIn (run (blinkStep word) (begin ⟨client, unfilled data⟩ start) turns) ++
      todo = streamText lines)
    (lineFeeds : LineFeeds lines) (fits : ∀ line ∈ lines, line.object.text.length ≤ 2048)
    (alerts : ∀ line ∈ lines, isBeat line.object.text = false →
      (alertOf line.object.text).isSome = true) :
    textsOf (toldIn (run (blinkStep word) (begin ⟨client, unfilled data⟩ start) turns)) ++
        withoutBeats (messages ((final (blinkStep word) (begin ⟨client, unfilled data⟩ start)
          turns).service.buffer.unread ++ todo)) =
        withoutBeats (lines.map fun line => line.object.text) ∧
      (final (blinkStep word) (begin ⟨client, unfilled data⟩ start) turns).panel =
        (commandsIn (run (blinkStep word) (begin ⟨client, unfilled data⟩ start) turns)).foldl
          Panel.obey ⟨.blink, false⟩ := by
  have heard := (run_hears word turns (s := begin ⟨client, unfilled data⟩ start) callback).stream
    stream lineFeeds fits
  refine ⟨heard, (run_obeys word turns fun message member => ?_).symm⟩
  obtain ⟨line, isLine, rfl, noBeat⟩ := isObject_of_told heard member
  exact alerts line isLine noBeat

/-- A push with an alert on a line of its own. -/
def alertLine (alert : String) : Line where
  object := .of (.last [] (.plain "data") [] []
    (.object (.of (.last [] (.plain "alert") [] [] (.string (.plain alert)) []))) [])
  ending := .lineFeed

def alertLines : List Line := [alertLine "off", ⟨.empty [], .lineFeed⟩, alertLine "on"]

/-- These bytes come in with the first call of the library, and none with the others. -/
def pushTurn (bytes : List Byte) : Turn :=
  { offTurn with
    calls := fun n =>
      { offTurn.calls 0 with answers := if n = 3 then [.ok bytes] else [.ok []] } }

/-- The first push comes in with two pieces, the second of which ends inside the last push. In front
of its rest the button is pressed. -/
def alertTurns : List Turn :=
  let bytes := streamText alertLines
  [pushTurn (bytes.take 10), pushTurn ((bytes.drop 10).take 30), buttonTurn (ascii "1"),
    pushTurn (bytes.drop 40)]

theorem blink_follows_panel_alerts :
    (toldIn (run (blinkStep .bits64) (begin ⟨openClient, unfilled (Block.fill 2048 0)⟩ bootTime)
        alertTurns)).length = 2 ∧
      (final (blinkStep .bits64) (begin ⟨openClient, unfilled (Block.fill 2048 0)⟩ bootTime)
        alertTurns).panel = ⟨.on, true⟩ :=
  ⟨by decide +kernel,
    (blink_follows_panel .bits64 (Block.fill 2048 0) openClient bootTime alertTurns alertLines []
      rfl (by decide +kernel) (show ∀ line ∈ alertLines, line.ending = .lineFeed by decide)
      (by decide) (by decide +kernel)).2.trans (by decide +kernel)⟩

end ParseEmbedded.Unix.Blink
