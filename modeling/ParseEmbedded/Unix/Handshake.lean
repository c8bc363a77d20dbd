import ParseEmbedded.Push.CutObjects
import ParseEmbedded.Unix.Heartbeats

/-!
# The handshake on Unix

`parseStartPushService` puts its handshake together in `char push[256]`. As long as it fits, it is a
line with an object. A longer one is cut off without its closing brace, and the heartbeats behind it
do not end it either: whatever number of them is sent, nothing of it is a message
(`handshake_read`).
-/

set_option autoImplicit false

namespace ParseEmbedded.Unix

open Json SimpleJson Push Runs

/-! ## The text of a handshake -/

/-- The handshake for these strings. -/
def handshakeText (id applicationId : List Byte) (last : Option (List Byte)) : List Byte :=
  snprintf 256 (ascii "\x7b\"installation_id\":\"" ++ id ++ ascii "\", \"oauth_key\":\"" ++
    applicationId ++ ascii "\", \"v\":\"e1.0.0\", \"last\":" ++
    last.elim (ascii "null") (fun time => ascii "\"" ++ time ++ ascii "\"") ++
    [Byte.closeBrace, Byte.lineFeed])

theorem handshake_eq (client : ParseClientInternal) :
    handshake client = handshakeText ((client.installationId.map CString.bytes).getD [])
      client.applicationId.bytes (client.lastPushTime.map CString.bytes) := by
  rw [handshake]
  cases client.lastPushTime <;> rfl

/-- The object of a handshake. -/
def handshakeObject (id applicationId : StringBody) (last : Option StringBody) : Object :=
  .of (.more [] (StringBody.plain "installation_id") [] [] (.string id) []
    (.more [.space] (StringBody.plain "oauth_key") [] [] (.string applicationId) []
      (.more [.space] (StringBody.plain "v") [] [] (.string (StringBody.plain "e1.0.0")) []
        (.last [.space] (StringBody.plain "last") [] []
          (last.elim (.literal .null) .string) []))))

/-- **A handshake is the line of an object**, as much of it as there is room for. -/
theorem handshakeText_eq (id applicationId : StringBody) (last : Option StringBody) :
    handshakeText id.text applicationId.text (last.map StringBody.text) =
      ((handshakeObject id applicationId last).text ++ [Byte.lineFeed]).take 255 := by
  have first : ascii "\x7b\"installation_id\":\"" =
      Byte.openBrace :: (label [] (StringBody.plain "installation_id") [] [] ++ [Byte.quote]) := by
    decide
  have second : ascii "\", \"oauth_key\":\"" =
      Byte.quote :: Byte.comma :: (label [.space] (StringBody.plain "oauth_key") [] [] ++
        [Byte.quote]) := by
    decide
  have third : ascii "\", \"v\":\"e1.0.0\", \"last\":" =
      Byte.quote :: Byte.comma :: (label [.space] (StringBody.plain "v") [] [] ++
        (quoted (StringBody.plain "e1.0.0") ++
          Byte.comma :: label [.space] (StringBody.plain "last") [] [])) := by
    decide
  have quote : ascii "\"" = [Byte.quote] := by decide
  rw [handshakeText, handshakeObject, first, second, third, quote, snprintf]
  cases last with
  | none =>
      have null : ascii "null" = Literal.null.text := rfl
      simp [Object.text, Members.text, Value.text, quoted, Blanks.text, null]
  | some time => simp [Object.text, Members.text, Value.text, quoted, Blanks.text]

/-- The installation id that the handshake has. -/
def startId (client : ParseClientInternal) (around : Surroundings) : CString :=
  client.installationId.getD (if around.storedId.bytes = [] then around.uuid else around.storedId)

theorem handshake_start (client : ParseClientInternal) (around : Surroundings) :
    handshake (parseCreateInstallationIdIfNeeded client around).1 =
      handshakeText (startId client around).bytes client.applicationId.bytes
        (client.lastPushTime.map CString.bytes) := by
  rw [handshake_eq, parseCreateInstallationIdIfNeeded, startId]
  cases id : client.installationId with
  | none => rfl
  | some id' =>
      dsimp only
      rw [id]
      rfl

/-- What is sent where the service is started on a connection. -/
theorem start_sends {client : ParseClientInternal} (idle : ¬ client.Started)
    {around : Surroundings} (connects : around.Connects) :
    (parseStartPushService client around).events =
      (parseCreateInstallationIdIfNeeded client around).2 ++
        [.send (handshake (parseCreateInstallationIdIfNeeded client around).1), .send ping] := by
  obtain ⟨curl, handle⟩ := Option.ne_none_iff_exists'.mp connects.1
  obtain ⟨-, connectOnly, useSsl, url, perform⟩ := connects
  rw [ParseClientInternal.Started] at idle
  rw [parseStartPushService, if_neg idle]
  dsimp only
  rw [handle]
  dsimp only
  rw [if_neg (not_not.mpr connectOnly), if_neg (not_not.mpr useSsl), if_neg (not_not.mpr url),
    if_neg (not_not.mpr perform)]

/-! ## What is sent in a run -/

/-- Calls of `parseProcessNextPushNotification`, with what the connection answers and the time. -/
abbrev ProcessInputs := List (List RecvAnswer × Nat)

def processCalls (inputs : ProcessInputs) : List PushCall :=
  inputs.map fun input => .process input.1 input.2

/-- Everything that is sent on the connection in a run. -/
def sentBytes (run : List ServiceTransition) : List Byte :=
  run.flatMap fun t => (sent t.output).flatten

/-- Behind the start only empty objects are sent. -/
theorem sentBytes_process (word : WordSize) (inputs : ProcessInputs) : ∀ s : LoopState,
    ∃ count, sentBytes (run (serviceStep word) s (processCalls inputs)) =
      (List.replicate count ping).flatten := by
  induction inputs with
  | nil => exact fun s => ⟨0, rfl⟩
  | cons input inputs ih =>
      intro s
      obtain ⟨count, others⟩ := ih (serviceStep word s (.process input.1 input.2)).1
      have here : sentBytes (run (serviceStep word) s (processCalls (input :: inputs))) =
          (sent (serviceStep word s (.process input.1 input.2)).2).flatten ++
            sentBytes (run (serviceStep word) (serviceStep word s (.process input.1 input.2)).1
              (processCalls inputs)) := rfl
      rw [here, others]
      rcases (process_pings word s.buffer ⟨s.client, input.1, input.2⟩).cases with
        ⟨none, -⟩ | ⟨one, -⟩
      · refine ⟨count, ?_⟩
        change (sent (parseProcessNextPushNotification _ _ _).2.events).flatten ++ _ = _
        rw [none]
        rfl
      · refine ⟨count + 1, ?_⟩
        change (sent (parseProcessNextPushNotification _ _ _).2.events).flatten ++ _ = _
        rw [one]
        rfl

/-- **What a handshake says.** In every run that starts the push service on a connection and then
processes its messages, whatever the connection answers: the first message in all of what is sent is
the object of the handshake, and it stands in front, if it has at most 255 bytes, and otherwise no
message is in it. -/
theorem handshake_read (word : WordSize) (s : LoopState) (around : Surroundings)
    (inputs : ProcessInputs) (id applicationId : StringBody) (last : Option StringBody)
    (idle : ¬ s.client.Started) (connects : around.Connects)
    (hasId : (startId s.client around).bytes = id.text)
    (hasApplication : s.client.applicationId.bytes = applicationId.text)
    (hasTime : s.client.lastPushTime.map CString.bytes = last.map StringBody.text) :
    if (handshakeObject id applicationId last).text.length ≤ 255 then
      completeMessage (sentBytes (run (serviceStep word) s
          (.service (.start around) :: processCalls inputs))) =
        some ⟨0, (handshakeObject id applicationId last).text.length⟩ ∧
      (handshakeObject id applicationId last).text <+: sentBytes (run (serviceStep word) s
        (.service (.start around) :: processCalls inputs))
    else completeMessage (sentBytes (run (serviceStep word) s
      (.service (.start around) :: processCalls inputs))) = none := by
  have isHandshake : handshake (parseCreateInstallationIdIfNeeded s.client around).1 =
      ((handshakeObject id applicationId last).text ++ [Byte.lineFeed]).take 255 := by
    rw [handshake_start, hasId, hasApplication, hasTime, handshakeText_eq]
  generalize handshakeObject id applicationId last = object at isHandshake ⊢
  obtain ⟨count, behind⟩ := sentBytes_process word inputs
    (serviceStep word s (.service (.start around))).1
  have sentText : sentBytes (run (serviceStep word) s
      (.service (.start around) :: processCalls inputs)) =
        (object.text ++ [Byte.lineFeed]).take 255 ++
          (List.replicate (count + 1) ping).flatten := by
    have start : sent (serviceStep word s (.service (.start around))).2 =
        [handshake (parseCreateInstallationIdIfNeeded s.client around).1, ping] := by
      change sent (parseStartPushService s.client around).events = _
      rw [start_sends idle connects, sent_append,
        (parseCreateInstallationIdIfNeeded_sent s.client around).1]
      rfl
    change (sent (serviceStep word s (.service (.start around))).2).flatten ++
      sentBytes (run (serviceStep word) _ (processCalls inputs)) = _
    rw [start, behind, isHandshake, List.replicate_succ]
    simp
  rw [sentText]
  by_cases fits : object.text.length ≤ 255
  · rw [if_pos fits, List.take_append, List.take_of_length_le fits, List.append_assoc]
    exact ⟨completeMessage_object Separator.none object _, List.prefix_append ..⟩
  · rw [if_neg fits, List.take_append_of_le_length (by omega)]
    have nested : Nested ping := .emptyObject (forall_of_all (by decide))
    refine completeMessage_cut_off (List.take_prefix 255 object.text) ?_ ?_
      (nested.replicate (count + 1))
    · intro empty
      have := congrArg List.length empty
      simp only [List.length_take, List.length_nil] at this
      omega
    · intro whole
      have := congrArg List.length whole
      simp only [List.length_take] at this
      omega

/-- A client with an installation, without a connection. -/
def idleClient : ParseClientInternal :=
  { openClient with installationId := some (CString.literal "id"), pushCurlHandle := none }

/-- A start that gets a connection. -/
def starting : Surroundings where
  storedId := CString.literal ""
  uuid := CString.literal ""
  curl := some 1
  connectOnly := CURLE_OK
  useSsl := CURLE_OK
  url := CURLE_OK
  perform := CURLE_OK
  seconds := 0

theorem starting_connects : starting.Connects :=
  ⟨Option.some_ne_none 1, rfl, rfl, rfl, rfl⟩

/-- The client takes the id that is stored, and sends a heartbeat behind its handshake. -/
theorem handshake_read_example :
    completeMessage (sentBytes (run (serviceStep .bits64)
        ⟨{ idleClient with installationId := none }, unfilled (Block.fill 2048 0)⟩
        (.service (.start { starting with storedId := CString.literal "id" }) ::
          processCalls [([.again], 900)]))) = some ⟨0, 70⟩ ∧
      (handshakeObject (.plain "id") (.plain "app") none).text <+: sentBytes
        (run (serviceStep .bits64)
          ⟨{ idleClient with installationId := none }, unfilled (Block.fill 2048 0)⟩
          (.service (.start { starting with storedId := CString.literal "id" }) ::
            processCalls [([.again], 900)])) := by
  have read := handshake_read .bits64
    ⟨{ idleClient with installationId := none }, unfilled (Block.fill 2048 0)⟩
    { starting with storedId := CString.literal "id" } [([.again], 900)] (.plain "id")
    (.plain "app") none (not_not.mpr rfl) ⟨Option.some_ne_none 1, rfl, rfl, rfl, rfl⟩ (by decide)
    (by decide) rfl
  have length : (handshakeObject (.plain "id") (.plain "app") none).text.length = 70 := by decide
  rw [length, if_pos (by decide)] at read
  exact read

end ParseEmbedded.Unix
