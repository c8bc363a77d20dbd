import ParseEmbedded.Rtos.Session

/-!
# The arrays of the client along every run

`api_arrays_hold_strings`: after `parseInitialize`, and after every call behind it, each `char`
array of the client has the size it was made with, so that no store has gone past its end, and
holds a zero. What carries the proof is the stronger `Client.WellFormed`, that the last byte of
each array is zero, together with the same for what the files have been written from.
-/

set_option autoImplicit false

namespace ParseEmbedded.Rtos

open SimpleJson Push Runs

/-- Every array of the client is as long as it was made, and holds a zero. -/
structure Client.ArraysHold (client : Client) : Prop where
  applicationId : HoldsString APPLICATION_ID_MAX_LEN client.applicationId
  clientKey : HoldsString CLIENT_KEY_MAX_LEN client.clientKey
  installationObjectId : HoldsString OBJECT_ID_MAX_LEN client.installationObjectId
  installationId : HoldsString INSTALLATION_ID_MAX_LEN client.installationId
  sessionToken : HoldsString SESSION_TOKEN_MAX_LEN client.sessionToken
  lastPushTime : HoldsString PUSH_TIME_MAX_LEN.toNat client.lastPushTime
  osVersion : HoldsString OS_VERSION_MAX_LEN client.osVersion
  deviceClientVersion : HoldsString CLIENT_VERSION_MAX_LEN client.deviceClientVersion

theorem Client.WellFormed.arraysHold {client : Client} (wellFormed : client.WellFormed) :
    client.ArraysHold where
  applicationId := wellFormed.applicationId.holdsString
  clientKey := wellFormed.clientKey.holdsString
  installationObjectId := wellFormed.installationObjectId.holdsString
  installationId := wellFormed.installationId.holdsString
  sessionToken := wellFormed.sessionToken.holdsString
  lastPushTime := wellFormed.lastPushTime.holdsString
  osVersion := wellFormed.osVersion.holdsString
  deviceClientVersion := wellFormed.deviceClientVersion.holdsString

/-! ## Files -/

/-- The file has been written from a client, up to some byte. -/
def WrittenFrom (client : Client) (file : List Byte) : Prop :=
  ∃ k, file = client.stateBytes.take k

/-- Every file has been written from a client whose arrays end with a zero. -/
def FilesWritten (flash : Flash) : Prop :=
  ∀ name file, flash name = some file → ∃ client : Client, client.WellFormed ∧
    WrittenFrom client file

theorem FilesWritten.save {flash : Flash} (written : FilesWritten flash) (course : Course)
    {client : Client} (wellFormed : client.WellFormed) :
    FilesWritten (saveClientState course flash client) := by
  intro name file found
  rw [saveClientState, Function.update_apply] at found
  split at found
  · rename_i same
    have left := saveFile_left course client (flash (clientStateFileName client))
    rw [found] at left
    generalize course.surviving client = survives at left
    generalize before : flash (clientStateFileName client) = old at left
    cases left with
    | old => exact written _ file before
    | new k => exact ⟨client, wellFormed, k, rfl⟩
  · exact written name file found

/-- Bytes of such an array, read over zeros, leave the zero at the end. -/
theorem Terminated.overwrite_take {n : Nat} {array fresh : List Byte} (k : Nat)
    (terminated : Terminated n array) (zero : Terminated n fresh) :
    Terminated n (SimpleJson.overwrite fresh (array.take k)) := by
  rcases Nat.lt_or_ge n k with whole | cut
  · have all : array.take k = array := by
      rw [List.take_of_length_le]
      rw [terminated.holdsString.length]
      exact whole
    have same : SimpleJson.overwrite fresh array = array := by
      refine overwrite_all ?_
      rw [zero.holdsString.length, terminated.holdsString.length]
    rw [all, same]
    exact terminated
  · exact zero.overwrite (Nat.le_trans (List.length_take_le ..) cut)

theorem Client.WellFormed.readClientState {client fresh : Client}
    (wellFormed : client.WellFormed) (freshWellFormed : fresh.WellFormed) (k : Nat) :
    (readClientState (client.stateBytes.take k) fresh).WellFormed := by
  rw [readClientState_take wellFormed.saveable.sized]
  exact { freshWellFormed with
    installationId := wellFormed.installationId.overwrite_take _ freshWellFormed.installationId
    sessionToken := wellFormed.sessionToken.overwrite_take _ freshWellFormed.sessionToken
    lastPushTime := wellFormed.lastPushTime.overwrite_take _ freshWellFormed.lastPushTime }

theorem newClient_wellFormed (applicationId clientKey : CString)
    (osVersion : Option (List Byte)) :
    (newClient applicationId clientKey osVersion).WellFormed where
  applicationId := (zeros_terminated APPLICATION_ID_MAX_LEN).strncpy applicationId
  clientKey := (zeros_terminated CLIENT_KEY_MAX_LEN).strncpy clientKey
  installationObjectId := zeros_terminated OBJECT_ID_MAX_LEN
  installationId := zeros_terminated INSTALLATION_ID_MAX_LEN
  sessionToken := zeros_terminated SESSION_TOKEN_MAX_LEN
  lastPushTime := zeros_terminated PUSH_TIME_MAX_LEN.toNat
  osVersion := by
    cases osVersion with
    | none => exact zeros_terminated OS_VERSION_MAX_LEN
    | some version =>
        exact (zeros_terminated OS_VERSION_MAX_LEN).snprintfTo version (Nat.le_succ _)
  deviceClientVersion := (zeros_terminated CLIENT_VERSION_MAX_LEN).strncpy CLIENT_VERSION

/-! ## Calls -/

/-- What every call keeps. -/
structure Device.WellFormed (device : Device) : Prop where
  client : device.client.WellFormed
  files : FilesWritten device.flash

theorem parseInitialize_wellFormed {flash : Flash} (written : FilesWritten flash)
    (applicationId clientKey : CString) (osVersion : Option (List Byte)) :
    (parseInitialize flash applicationId clientKey osVersion).WellFormed := by
  have fresh := newClient_wellFormed applicationId clientKey osVersion
  refine ⟨?_, written⟩
  rw [parseInitialize, loadClientState]
  cases found : flash (clientStateFileName (newClient applicationId clientKey osVersion)) with
  | none => exact fresh
  | some file =>
      obtain ⟨client, wellFormed, k, rfl⟩ := written _ file found
      exact wellFormed.readClientState fresh k

namespace Device.WellFormed

variable {device : Device} (wellFormed : device.WellFormed)

include wellFormed

theorem saved (course : Course) {client : Client} (client' : client.WellFormed) :
    (device.saved course client).WellFormed :=
  ⟨client', wellFormed.files.save course client'⟩

/-- A call of the push service that leaves the time alone. -/
theorem withInternal {internal : ParseClientInternal}
    (time : internal.lastPushTime = device.client.lastPushTime) :
    (device.client.withInternal internal).WellFormed :=
  { wellFormed.client with
    lastPushTime := by
      change Terminated _ internal.lastPushTime
      rw [time]
      exact wellFormed.client.lastPushTime }

theorem setInstallationId (outside : Outside) (installationId : Option CString) :
    (device.setInstallationId outside installationId).1.WellFormed := by
  rw [Device.setInstallationId]
  dsimp only
  split
  · rename_i id _
    split
    · exact wellFormed
    · refine wellFormed.saved _ (Client.WellFormed.getInstallation ?_ outside)
      exact { wellFormed.client with
        installationId := (wellFormed.client.installationId.strncpy id).map_tolower }
  · split
    · exact wellFormed
    · refine wellFormed.saved _ { wellFormed.client with installationId := ?_ }
      rw [wellFormed.client.installationId.memset]
      exact zeros_terminated INSTALLATION_ID_MAX_LEN

theorem setSessionToken (outside : Outside) (sessionToken : Option CString) :
    (device.setSessionToken outside sessionToken).1.WellFormed := by
  rw [Device.setSessionToken]
  dsimp only
  split
  · rename_i token _
    split
    · exact wellFormed
    · refine wellFormed.saved _ (Client.WellFormed.getInstallation ?_ outside)
      exact { wellFormed.client with
        sessionToken := wellFormed.client.sessionToken.strncpy token }
  · split
    · exact wellFormed
    · refine wellFormed.saved _ { wellFormed.client with sessionToken := ?_ }
      rw [wellFormed.client.sessionToken.memset]
      exact zeros_terminated SESSION_TOKEN_MAX_LEN

theorem sendRequest (outside : Outside) (httpVerb httpPath : CString)
    (httpRequestBody : Option CString) :
    (device.sendRequest outside httpVerb httpPath httpRequestBody).1.WellFormed :=
  ⟨wellFormed.client.getInstallation outside, wellFormed.files⟩

theorem startPushService (outside : Outside) (socketHandle send : Int) :
    (device.startPushService outside socketHandle send).1.WellFormed := by
  have got : Device.WellFormed ⟨(getInstallation outside device.client).1, device.flash,
      device.buffer⟩ :=
    ⟨wellFormed.client.getInstallation outside, wellFormed.files⟩
  exact ⟨got.withInternal (parseStartPushService_time ..), wellFormed.files⟩

theorem processNextPushNotification (stray : Stray) (reads : List (List SocketRound))
    (isPingTime : Bool) (send : Int) (save : Course) :
    (device.processNextPushNotification stray reads isPingTime send save).WellFormed := by
  have agrees := process_pushMessage device.buffer
    ⟨device.client.internal, reads, isPingTime, send⟩
  rw [Device.processNextPushNotification]
  dsimp only
  generalize parseProcessNextPushNotification device.buffer
    ⟨device.client.internal, reads, isPingTime, send⟩ = processed at *
  split
  · rename_i message found
    have client : ((device.client.withInternal processed.2.client).withTime
        (lookUpTime stray message device.client.lastPushTime).2).WellFormed :=
      { wellFormed.client with
        lastPushTime := wellFormed.client.lastPushTime.lookUp stray message _ (by decide)
          (by decide) }
    have next : Device.WellFormed ⟨_, device.flash, processed.1⟩ := ⟨client, wellFormed.files⟩
    split
    · exact next.saved save client
    · exact next
  · rename_i nothing
    rw [nothing] at agrees
    exact ⟨wellFormed.withInternal agrees.1, wellFormed.files⟩

end Device.WellFormed

/-- **Every call keeps the zeros at the ends of the arrays.** -/
theorem apiStep_wellFormed {device : Device} (wellFormed : device.WellFormed) (call : ApiCall) :
    (apiStep device call).1.WellFormed := by
  cases call with
  | parseInitialize applicationId clientKey osVersion =>
      exact parseInitialize_wellFormed wellFormed.files applicationId clientKey osVersion
  | setInstallationId outside installationId =>
      exact wellFormed.setInstallationId outside installationId
  | setSessionToken outside sessionToken => exact wellFormed.setSessionToken outside sessionToken
  | sendRequest outside httpVerb httpPath httpRequestBody =>
      exact wellFormed.sendRequest outside httpVerb httpPath httpRequestBody
  | startPushService outside socketHandle send =>
      exact wellFormed.startPushService outside socketHandle send
  | stopPushService => exact ⟨wellFormed.withInternal rfl, wellFormed.files⟩
  | setPushCallback callback => exact ⟨wellFormed.withInternal rfl, wellFormed.files⟩
  | processNextPushNotification stray reads isPingTime send save =>
      exact wellFormed.processNextPushNotification stray reads isPingTime send save

/-- Along a run the device stays well-formed. -/
theorem run_wellFormed {device : Device} (wellFormed : device.WellFormed) (calls : List ApiCall) :
    (∀ t ∈ run apiStep device calls, t.before.WellFormed ∧ t.after.WellFormed) ∧
      (final apiStep device calls).WellFormed :=
  run_always apiStep Device.WellFormed (fun _ call wellFormed => apiStep_wellFormed wellFormed call)
    wellFormed calls

/-- **The arrays of the client always hold strings.** On files that saves have written, as far as
they went, the arrays of a new client and those of the client after every call of every run are
as long as they were made, and hold a zero. -/
theorem api_arrays_hold_strings {flash : Flash} (written : FilesWritten flash)
    (applicationId clientKey : CString) (osVersion : Option (List Byte))
    (calls : List ApiCall) :
    (parseInitialize flash applicationId clientKey osVersion).client.ArraysHold ∧
      ∀ t ∈ run apiStep (parseInitialize flash applicationId clientKey osVersion) calls,
        t.after.client.ArraysHold := by
  have first := parseInitialize_wellFormed written applicationId clientKey osVersion
  refine ⟨first.client.arraysHold, ?_⟩
  intro t member
  exact ((run_wellFormed first calls).1 t member).2.client.arraysHold

section Example

theorem noFiles_written : FilesWritten fun _ => none :=
  fun _ file found => absurd found.symm (Option.some_ne_none file)

/-- What a device leaves in its flash that has got an id. -/
def savedFlash : Flash :=
  (final apiStep exampleStart [setting (CString.literal "a") unanswered unanswered]).flash

theorem savedFlash_written : FilesWritten savedFlash :=
  (run_wellFormed (parseInitialize_wellFormed noFiles_written _ _ _) _).2.files

/-- A token as long as its array is set, a request follows, and a push with a time comes in. -/
def savedRun : List ApiCall :=
  [.setSessionToken (meeting unanswered unanswered)
      (some (CString.ofMemory (List.replicate SESSION_TOKEN_MAX_LEN 116))),
    posting unanswered,
    .startPushService (meeting unanswered unanswered) 1 1,
    .processNextPushNotification noStray [[⟨1, 0, .bytes (ascii "\x7b\"time\":\"noon\"\x7d\n")⟩]]
      false 1 Course.success,
    .setInstallationId (meeting unanswered unanswered) none]

/-- A device finds its state again, and goes on with it. -/
theorem api_arrays_hold_strings_example :
    stringOf (parseInitialize savedFlash (CString.literal "a") (CString.literal "k")
        (some (ascii "1.2.3.4"))).client.installationId = ascii "a" ∧
      (parseInitialize savedFlash (CString.literal "a") (CString.literal "k")
        (some (ascii "1.2.3.4"))).client.ArraysHold ∧
      ∀ t ∈ run apiStep (parseInitialize savedFlash (CString.literal "a") (CString.literal "k")
          (some (ascii "1.2.3.4"))) savedRun,
        t.after.client.ArraysHold :=
  ⟨by decide +kernel, api_arrays_hold_strings savedFlash_written _ _ _ savedRun⟩

end Example

end ParseEmbedded.Rtos
