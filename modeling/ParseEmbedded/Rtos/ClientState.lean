import Mathlib.Data.List.Induction
import ParseEmbedded.Rtos.Client

/-!
# The client state file of the CC3200

`loadClientState` and `saveClientState` of `client_state.c`. Each application has one file, which
holds the installation id, the session token and the time of the last push, each as the whole
array. The flash is a map from names to files; a read takes what is left of the file, and
returns how much it was.

A save deletes the file, creates it again, opens it for writing and writes the three arrays. How
each of these operations ends is an input, a `Course`. `Course.surviving` says what a course
leaves: the file that was there, or so many bytes of the new one.
-/

set_option autoImplicit false

namespace ParseEmbedded.Rtos

open SimpleJson

/-- The files, by name. -/
abbrev Flash := List Byte → Option (List Byte)

abbrev CLIENT_STATE_FILENAME_LEN : Nat := APPLICATION_ID_MAX_LEN + 10

/-- The name that is built in `clientStateFileName`. -/
def clientStateFileName (client : Client) : List Byte :=
  snprintf CLIENT_STATE_FILENAME_LEN
    (ascii "/parse/" ++ (CString.ofMemory client.applicationId).bytes)

/-! ## Loading -/

/-- `sl_FsRead`: the bytes from the offset on, at most as many as asked for. -/
def sl_FsRead (file : List Byte) (readOffset count : Nat) : List Byte :=
  (file.drop readOffset).take count

/-- The reads of `loadClientState`: each goes on where the one before has stopped. -/
def readClientState (file : List Byte) (client : Client) : Client :=
  let installationId := sl_FsRead file 0 (INSTALLATION_ID_MAX_LEN + 1)
  let readOffset := installationId.length
  let sessionToken := sl_FsRead file readOffset (SESSION_TOKEN_MAX_LEN + 1)
  let readOffset := readOffset + sessionToken.length
  let lastPushTime := sl_FsRead file readOffset (PUSH_TIME_MAX_LEN.toNat + 1)
  { client with
    installationId := overwrite client.installationId installationId
    sessionToken := overwrite client.sessionToken sessionToken
    lastPushTime := overwrite client.lastPushTime lastPushTime }

/-- Without a file nothing is read. -/
def loadClientState (flash : Flash) (client : Client) : Client :=
  match flash (clientStateFileName client) with
  | some file => readClientState file client
  | none => client

/-! ## Saving -/

/-- How an operation of the flash ends. -/
inductive Ending where
  | done
  | failed
  | powerLost
  deriving DecidableEq

/-- A deletion or a creation: whether it has taken effect, and how it ends. -/
structure Deed where
  taken : Bool
  ending : Ending
  holds : ending = .done → taken = true

/-- A write: how many of its bytes have been stored if it does not succeed, and how it ends. -/
structure Writing where
  stored : Nat
  ending : Ending

/-- The course of a save: its operations, and how many of the bytes stored the file keeps if the
power is lost before it is closed. -/
structure Course where
  delete : Deed
  create : Deed
  reopen : Ending
  installationId : Writing
  sessionToken : Writing
  lastPushTime : Writing
  kept : Nat

/-- Every operation succeeds. -/
def Course.success : Course :=
  ⟨⟨true, .done, fun _ => rfl⟩, ⟨true, .done, fun _ => rfl⟩, .done, ⟨0, .done⟩, ⟨0, .done⟩,
    ⟨0, .done⟩, 0⟩

/-- The writes of an opened file, each of an array at the offset behind the one before: what the
file holds in the end. -/
def writeArrays (kept : Nat) : List Byte → List (List Byte × Writing) → List Byte
  | file, [] => file
  | file, (array, writing) :: rest =>
      match writing.ending with
      | .done => writeArrays kept (file ++ array) rest
      | .failed => file ++ array.take writing.stored
      | .powerLost => (file ++ array.take writing.stored).take kept

/-- What becomes of the file in `saveClientState`. A deletion that fails is not looked at. -/
def saveFile (course : Course) (client : Client) (file : Option (List Byte)) :
    Option (List Byte) :=
  let file := if course.delete.taken then none else file
  if course.delete.ending = .powerLost then file
  else
    let file := if course.create.taken then some [] else file
    if course.create.ending ≠ .done ∨ course.reopen ≠ .done then file
    else
      some (writeArrays course.kept []
        [(client.installationId, course.installationId),
          (client.sessionToken, course.sessionToken),
          (client.lastPushTime, course.lastPushTime)])

def saveClientState (course : Course) (flash : Flash) (client : Client) : Flash :=
  Function.update flash (clientStateFileName client)
    (saveFile course client (flash (clientStateFileName client)))

/-! ## Names -/

/-- The name of the file holds the application id as a whole. -/
theorem clientStateFileName_eq {client : Client}
    (applicationId : HoldsString APPLICATION_ID_MAX_LEN client.applicationId) :
    clientStateFileName client =
      ascii "/parse/" ++ (CString.ofMemory client.applicationId).bytes := by
  have short : (CString.ofMemory client.applicationId).bytes.length ≤ 40 :=
    applicationId.string_length
  have directory : (ascii "/parse/").length = 7 := by decide
  rw [clientStateFileName, snprintf]
  apply List.take_of_length_le
  rw [List.length_append, directory]
  exact Nat.add_le_add_left short 7 |>.trans (by decide)

/-- Different applications have different files. -/
theorem clientStateFileName_injective {client client' : Client}
    (applicationId : HoldsString APPLICATION_ID_MAX_LEN client.applicationId)
    (applicationId' : HoldsString APPLICATION_ID_MAX_LEN client'.applicationId)
    (same : clientStateFileName client = clientStateFileName client') :
    CString.ofMemory client.applicationId = CString.ofMemory client'.applicationId := by
  rw [clientStateFileName_eq applicationId, clientStateFileName_eq applicationId'] at same
  exact CString.ext_bytes (List.append_cancel_left same)

/-! ## Loading what was saved -/

/-- The bytes of a state file. -/
def Client.stateBytes (client : Client) : List Byte :=
  client.installationId ++ (client.sessionToken ++ client.lastPushTime)

/-- The arrays of the state file have their sizes. -/
structure Client.StateSized (client : Client) : Prop where
  installationId : client.installationId.length = INSTALLATION_ID_MAX_LEN + 1
  sessionToken : client.sessionToken.length = SESSION_TOKEN_MAX_LEN + 1
  lastPushTime : client.lastPushTime.length = PUSH_TIME_MAX_LEN.toNat + 1

/-- Both clients have the same three arrays. -/
structure SameState (client client' : Client) : Prop where
  installationId : client.installationId = client'.installationId
  sessionToken : client.sessionToken = client'.sessionToken
  lastPushTime : client.lastPushTime = client'.lastPushTime

theorem saveFile_success (client : Client) (file : Option (List Byte)) :
    saveFile .success client file = some client.stateBytes := by
  change some (([] ++ client.installationId ++ client.sessionToken) ++ client.lastPushTime) = _
  rw [List.nil_append, List.append_assoc, Client.stateBytes]

/-- What a read of a whole array leaves in an array of the same size. -/
theorem overwrite_all {array bytes : List Byte} (size : array.length = bytes.length) :
    overwrite array bytes = bytes := by
  rw [overwrite, List.drop_eq_nil_of_le (Nat.le_of_eq size), List.append_nil]

theorem readClientState_stateBytes {client fresh : Client} (sized : client.StateSized)
    (freshSized : fresh.StateSized) :
    SameState (readClientState client.stateBytes fresh) client := by
  obtain ⟨id, token, time⟩ := sized
  obtain ⟨freshId, freshToken, freshTime⟩ := freshSized
  have first : sl_FsRead client.stateBytes 0 (INSTALLATION_ID_MAX_LEN + 1) =
      client.installationId := by
    rw [sl_FsRead, List.drop_zero, Client.stateBytes, ← id]
    exact List.take_left
  have second : sl_FsRead client.stateBytes client.installationId.length
      (SESSION_TOKEN_MAX_LEN + 1) = client.sessionToken := by
    rw [sl_FsRead, Client.stateBytes, List.drop_left, ← token]
    exact List.take_left
  have third : sl_FsRead client.stateBytes
      (client.installationId.length + client.sessionToken.length)
      (PUSH_TIME_MAX_LEN.toNat + 1) = client.lastPushTime := by
    rw [sl_FsRead, Client.stateBytes, ← List.drop_drop, List.drop_left, List.drop_left, ← time]
    exact List.take_length
  simp only [readClientState]
  rw [first, second, third]
  exact ⟨overwrite_all (freshId.trans id.symm), overwrite_all (freshToken.trans token.symm),
    overwrite_all (freshTime.trans time.symm)⟩

/-- A client whose state can be saved and found again. -/
structure Client.Saveable (client : Client) : Prop where
  applicationId : HoldsString APPLICATION_ID_MAX_LEN client.applicationId
  sized : client.StateSized

theorem Client.WellFormed.saveable {client : Client} (wellFormed : client.WellFormed) :
    client.Saveable where
  applicationId := wellFormed.applicationId.holdsString
  sized :=
    ⟨wellFormed.installationId.holdsString.length, wellFormed.sessionToken.holdsString.length,
      wellFormed.lastPushTime.holdsString.length⟩

/-- Two clients of one application. -/
def SameApplication (client client' : Client) : Prop :=
  CString.ofMemory client.applicationId = CString.ofMemory client'.applicationId

instance (client client' : Client) : Decidable (SameApplication client client') :=
  inferInstanceAs (Decidable (_ = _))

theorem SameApplication.name {client client' : Client} (same : SameApplication client client') :
    clientStateFileName client = clientStateFileName client' := by
  rw [clientStateFileName, clientStateFileName, same]

section Flash

variable {flash : Flash} {client fresh : Client}

/-- What has been saved is loaded, by any client of the application. -/
theorem load_save (same : SameApplication client fresh) (sized : client.StateSized)
    (freshSized : fresh.StateSized) :
    SameState (loadClientState (saveClientState .success flash client) fresh) client := by
  have stored : saveClientState .success flash client (clientStateFileName fresh) =
      some client.stateBytes := by
    rw [saveClientState, same.name, Function.update_self, saveFile_success]
  rw [loadClientState, stored]
  exact readClientState_stateBytes sized freshSized

/-- A save for another application, of whatever course, changes nothing that is loaded. -/
theorem load_save_other (course : Course) (saveable : client.Saveable)
    (freshSaveable : fresh.Saveable) (other : ¬ SameApplication client fresh) :
    loadClientState (saveClientState course flash client) fresh = loadClientState flash fresh := by
  have different : clientStateFileName fresh ≠ clientStateFileName client := by
    intro same
    exact other (clientStateFileName_injective saveable.applicationId freshSaveable.applicationId
      same.symm)
  rw [loadClientState, loadClientState, saveClientState, Function.update_of_ne different]

end Flash

/-- The last save for the application of a client. -/
def lastSave (saves : List Client) (client : Client) : Option Client :=
  (saves.filter fun saved => SameApplication saved client).getLast?

/-- **A client loads the last state that was saved for its application.** After any saves for any
applications the three arrays are those of the last save for the application of the client, and
a save for another application never changes what it loads. -/
theorem client_state_round_trip (flash : Flash) (saves : List Client)
    (saveable : ∀ client ∈ saves, client.Saveable) (fresh : Client)
    (freshSaveable : fresh.Saveable) :
    (∀ saved, lastSave saves fresh = some saved →
      SameState (loadClientState (saves.foldl (saveClientState .success) flash) fresh) saved) ∧
    ∀ other : Client, other.Saveable → ¬ SameApplication other fresh →
      loadClientState ((saves ++ [other]).foldl (saveClientState .success) flash) fresh =
        loadClientState (saves.foldl (saveClientState .success) flash) fresh := by
  refine ⟨?_, ?_⟩
  · induction saves using List.reverseRecOn with
    | nil =>
        intro saved last
        cases last
    | append_singleton saves client ih =>
        intro saved last
        have before : ∀ client ∈ saves, client.Saveable := fun client member =>
          saveable client (List.mem_append_left _ member)
        have here : client.Saveable :=
          saveable client (List.mem_append_right _ (List.mem_singleton_self client))
        rw [List.foldl_append, List.foldl_cons, List.foldl_nil]
        by_cases same : SameApplication client fresh
        · have found : lastSave (saves ++ [client]) fresh = some client := by
            rw [lastSave, List.filter_append, List.filter_cons_of_pos (by simpa using same)]
            exact List.getLast?_concat
          obtain rfl := Option.some.inj (found.symm.trans last)
          exact load_save same here.sized freshSaveable.sized
        · have found : lastSave (saves ++ [client]) fresh = lastSave saves fresh := by
            rw [lastSave, List.filter_append, List.filter_cons_of_neg (by simpa using same)]
            exact congrArg List.getLast? (List.append_nil _)
          rw [load_save_other .success here freshSaveable same]
          exact ih before saved (found.symm.trans last)
  · intro other otherSaveable different
    rw [List.foldl_append, List.foldl_cons, List.foldl_nil]
    exact load_save_other .success otherSaveable freshSaveable different

section Example

def exampleFresh : Client :=
  exampleClient (CString.literal "a") (CString.literal "") (CString.literal "")

def exampleSaves : List Client :=
  [exampleClient (CString.literal "a") (CString.literal "one") (CString.literal "token"),
    exampleClient (CString.literal "a") (CString.literal "two") (CString.literal "other"),
    exampleClient (CString.literal "b") (CString.literal "three") (CString.literal "third")]

theorem exampleSaves_saveable : ∀ client ∈ exampleSaves, client.Saveable := by
  simp only [exampleSaves, List.forall_mem_cons]
  exact ⟨(exampleClient_wellFormed ..).saveable, (exampleClient_wellFormed ..).saveable,
    (exampleClient_wellFormed ..).saveable, fun _ member => absurd member List.not_mem_nil⟩

theorem client_state_round_trip_example :
    (∀ client ∈ exampleSaves, client.Saveable) ∧ exampleFresh.Saveable ∧
      lastSave exampleSaves exampleFresh =
        some (exampleClient (CString.literal "a") (CString.literal "two")
          (CString.literal "other")) ∧
      SameState
        (loadClientState (exampleSaves.foldl (saveClientState .success) fun _ => none)
          exampleFresh)
        (exampleClient (CString.literal "a") (CString.literal "two")
          (CString.literal "other")) := by
  have fresh : exampleFresh.Saveable := (exampleClient_wellFormed ..).saveable
  have last : lastSave exampleSaves exampleFresh =
      some (exampleClient (CString.literal "a") (CString.literal "two")
        (CString.literal "other")) := by
    decide +kernel
  exact ⟨exampleSaves_saveable, fresh, last,
    (client_state_round_trip (fun _ => none) exampleSaves exampleSaves_saveable exampleFresh
      fresh).1 _ last⟩

end Example

/-! ## What an interrupted save leaves -/

/-- How many bytes of the new file are there after these writes. -/
def survivingBytes (kept : Nat) : Nat → List (List Byte × Writing) → Nat
  | place, [] => place
  | place, (array, writing) :: rest =>
      match writing.ending with
      | .done => survivingBytes kept (place + array.length) rest
      | .failed => place + min writing.stored array.length
      | .powerLost => min kept (place + min writing.stored array.length)

/-- What a save of this course leaves: the old file, or so many bytes of the new one. -/
def Course.surviving (course : Course) (client : Client) : Option Nat :=
  if course.delete.ending = .powerLost then if course.delete.taken then some 0 else none
  else if course.create.ending ≠ .done then
    if course.delete.taken ∨ course.create.taken then some 0 else none
  else if course.reopen ≠ .done then some 0
  else
    some (survivingBytes course.kept 0
      [(client.installationId, course.installationId),
        (client.sessionToken, course.sessionToken),
        (client.lastPushTime, course.lastPushTime)])

theorem writeArrays_eq (kept : Nat) (arrays : List (List Byte × Writing)) : ∀ file : List Byte,
    writeArrays kept file arrays =
      (file ++ (arrays.map Prod.fst).flatten).take (survivingBytes kept file.length arrays) := by
  induction arrays with
  | nil =>
      intro file
      simp [writeArrays, survivingBytes]
  | cons first rest ih =>
      intro file
      obtain ⟨array, writing⟩ := first
      have cut : file ++ array.take writing.stored =
          (file ++ (array ++ (rest.map Prod.fst).flatten)).take
            (file.length + min writing.stored array.length) := by
        rw [List.take_length_add_append, List.take_append_of_le_length (Nat.min_le_right ..),
          List.take_eq_take_min]
      rw [writeArrays, survivingBytes, List.map_cons, List.flatten_cons]
      cases writing.ending with
      | done =>
          dsimp only
          rw [ih, List.length_append, List.append_assoc]
      | failed =>
          dsimp only
          exact cut
      | powerLost =>
          dsimp only
          rw [cut, List.take_take]

/-- What a save of a course leaves of the file: the file that was there, or so many bytes of the
new one. With no byte of it the new file may be missing as well. -/
inductive Left (client : Client) (file : Option (List Byte)) :
    Option Nat → Option (List Byte) → Prop where
  | old : Left client file none file
  | new (k : Nat) : Left client file (some k) (some (client.stateBytes.take k))
  | gone : Left client file (some 0) none

/-- **What an interrupted save leaves.** -/
theorem saveFile_left (course : Course) (client : Client) (file : Option (List Byte)) :
    Left client file (course.surviving client) (saveFile course client file) := by
  have nothing : some [] = some (client.stateBytes.take 0) := rfl
  rw [saveFile, Course.surviving]
  dsimp only
  by_cases stopped : course.delete.ending = .powerLost
  · rw [if_pos stopped, if_pos stopped]
    split_ifs
    · exact .gone
    · exact .old
  · rw [if_neg stopped, if_neg stopped]
    by_cases created : course.create.ending = .done
    · have taken : course.create.taken = true := course.create.holds created
      rw [if_neg (not_not.mpr created), if_pos taken, nothing]
      by_cases reopened : course.reopen = .done
      · have written := writeArrays_eq course.kept
          [(client.installationId, course.installationId),
            (client.sessionToken, course.sessionToken),
            (client.lastPushTime, course.lastPushTime)] []
        have bytes : [] ++ ([(client.installationId, course.installationId),
            (client.sessionToken, course.sessionToken),
            (client.lastPushTime, course.lastPushTime)].map Prod.fst).flatten =
            client.stateBytes := by
          simp [Client.stateBytes]
        have ended : ¬ (course.create.ending ≠ .done ∨ course.reopen ≠ .done) :=
          not_or.mpr ⟨not_not.mpr created, not_not.mpr reopened⟩
        rw [if_neg ended, if_neg (not_not.mpr reopened), written, bytes]
        exact .new _
      · rw [if_pos (Or.inr reopened), if_pos reopened]
        exact .new 0
    · rw [if_pos (Or.inl created), if_pos created]
      by_cases taken : course.create.taken = true
      · rw [if_pos taken, if_pos (Or.inr taken), nothing]
        exact .new 0
      · rw [if_neg taken]
        by_cases deleted : course.delete.taken = true
        · rw [if_pos deleted, if_pos (Or.inl deleted)]
          exact .gone
        · rw [if_neg deleted, if_neg (not_or.mpr ⟨deleted, taken⟩)]
          exact .old

/-! ## What is loaded behind an interrupted save -/

/-- A string is cut off by cutting off the array, in an array of zeros. -/
theorem string_take (array : List Byte) (n k : Nat) :
    (CString.ofMemory (overwrite (zeros n) (array.take k))).bytes =
      (CString.ofMemory array).bytes.take k := by
  have zeros : ∀ m, (List.replicate m Byte.nul).takeWhile (· ≠ Byte.nul) = [] := by
    intro m
    cases m <;> simp [List.replicate_succ]
  have padded : ∀ (l : List Byte) (m : Nat),
      (l ++ List.replicate m Byte.nul).takeWhile (· ≠ Byte.nul) =
        l.takeWhile (· ≠ Byte.nul) := by
    intro l m
    rw [List.takeWhile_append]
    split
    · rename_i all
      rw [zeros, List.append_nil]
      exact ((List.takeWhile_prefix _).eq_of_length all).symm
    · rfl
  change (overwrite (Rtos.zeros n) (array.take k)).takeWhile (· ≠ Byte.nul) =
    (array.takeWhile (· ≠ Byte.nul)).take k
  rw [overwrite, Rtos.zeros, List.drop_replicate, padded]
  induction array generalizing k with
  | nil => simp
  | cons c array ih =>
      cases k with
      | zero => simp
      | succ k =>
          rw [List.take_succ_cons, List.takeWhile_cons, List.takeWhile_cons]
          split
          · rw [ih k, List.take_succ_cons]
          · rw [List.take_nil]

/-- A client before its state is loaded. -/
structure Client.Fresh (client : Client) : Prop where
  installationId : client.installationId = zeros INSTALLATION_ID_MAX_LEN
  sessionToken : client.sessionToken = zeros SESSION_TOKEN_MAX_LEN
  lastPushTime : client.lastPushTime = zeros PUSH_TIME_MAX_LEN.toNat

/-- The three strings of the client, of `k` bytes of its state, are those of another client. -/
structure CutsTo (k : Nat) (client client' : Client) : Prop where
  installationId : (CString.ofMemory client.installationId).bytes.take k =
    (CString.ofMemory client'.installationId).bytes
  sessionToken : (CString.ofMemory client.sessionToken).bytes.take (k - 37) =
    (CString.ofMemory client'.sessionToken).bytes
  lastPushTime : (CString.ofMemory client.lastPushTime).bytes.take (k - 78) =
    (CString.ofMemory client'.lastPushTime).bytes

/-- Both clients have the same three strings. -/
structure SameStrings (client client' : Client) : Prop where
  installationId : CString.ofMemory client.installationId =
    CString.ofMemory client'.installationId
  sessionToken : CString.ofMemory client.sessionToken = CString.ofMemory client'.sessionToken
  lastPushTime : CString.ofMemory client.lastPushTime = CString.ofMemory client'.lastPushTime

/-- A read of an array in a file that is cut off. -/
theorem sl_FsRead_take (front array back : List Byte) (k : Nat) :
    sl_FsRead ((front ++ (array ++ back)).take k) (min k front.length) array.length =
      array.take (k - front.length) := by
  rw [sl_FsRead]
  rcases Nat.le_total k front.length with cut | whole
  · rw [Nat.min_eq_left cut, List.drop_take_self, List.take_nil, Nat.sub_eq_zero_of_le cut,
      List.take_zero]
  · have rest : ((front ++ (array ++ back)).take k).drop front.length =
        (array ++ back).take (k - front.length) := by
      rw [List.drop_take, List.drop_left]
    rw [Nat.min_eq_right whole, rest, List.take_take]
    rcases Nat.le_total (k - front.length) array.length with inside | outside
    · rw [Nat.min_eq_right inside, List.take_append_of_le_length inside]
    · rw [Nat.min_eq_left outside, List.take_left, List.take_of_length_le outside]

/-- The arrays that are read from so many bytes of a state. -/
theorem readClientState_take {client : Client} (sized : client.StateSized) (k : Nat)
    (fresh : Client) :
    readClientState (client.stateBytes.take k) fresh =
      { fresh with
        installationId := overwrite fresh.installationId (client.installationId.take k)
        sessionToken := overwrite fresh.sessionToken (client.sessionToken.take (k - 37))
        lastPushTime := overwrite fresh.lastPushTime (client.lastPushTime.take (k - 78)) } := by
  have id : client.installationId.length = 37 := sized.installationId
  have token : client.sessionToken.length = 41 := sized.sessionToken
  have time : client.lastPushTime.length = 41 := sized.lastPushTime
  have first := sl_FsRead_take [] client.installationId
    (client.sessionToken ++ client.lastPushTime) k
  have second := sl_FsRead_take client.installationId client.sessionToken client.lastPushTime k
  have third := sl_FsRead_take (client.installationId ++ client.sessionToken)
    client.lastPushTime [] k
  rw [List.nil_append, ← Client.stateBytes, id, List.length_nil, Nat.min_zero, Nat.sub_zero]
    at first
  rw [← Client.stateBytes, id, token] at second
  rw [List.append_nil, List.append_assoc, ← Client.stateBytes, List.length_append, id, token,
    time] at third
  have offset : (client.installationId.take k).length = min k 37 := by
    rw [List.length_take, id]
  have offset' : min k 37 + (client.sessionToken.take (k - 37)).length = min k (37 + 41) := by
    rw [List.length_take, token]
    omega
  change { fresh with
    installationId := overwrite fresh.installationId (sl_FsRead _ 0 37)
    sessionToken := overwrite fresh.sessionToken
      (sl_FsRead _ (sl_FsRead _ 0 37).length 41)
    lastPushTime := overwrite fresh.lastPushTime
      (sl_FsRead _ ((sl_FsRead _ 0 37).length +
        (sl_FsRead _ (sl_FsRead _ 0 37).length 41).length) 41) } = _
  rw [first, offset, second, offset', third]

/-- What a fresh client reads from so many bytes of a state. -/
theorem sameStrings_cut_iff {client fresh : Client} (sized : client.StateSized)
    (isFresh : fresh.Fresh) (k : Nat) (other : Client) :
    SameStrings (readClientState (client.stateBytes.take k) fresh) other ↔
      CutsTo k client other := by
  rw [readClientState_take sized, isFresh.installationId, isFresh.sessionToken,
    isFresh.lastPushTime]
  constructor
  · rintro ⟨id, token, time⟩
    refine ⟨?_, ?_, ?_⟩
    · rw [← string_take, id]
    · rw [← string_take, token]
    · rw [← string_take, time]
  · rintro ⟨id, token, time⟩
    refine ⟨?_, ?_, ?_⟩
    · exact CString.ext_bytes ((string_take ..).trans id)
    · exact CString.ext_bytes ((string_take ..).trans token)
    · exact CString.ext_bytes ((string_take ..).trans time)

theorem Client.Fresh.sized {client : Client} (fresh : client.Fresh) : client.StateSized where
  installationId := fresh.installationId ▸ List.length_replicate
  sessionToken := fresh.sessionToken ▸ List.length_replicate
  lastPushTime := fresh.lastPushTime ▸ List.length_replicate

theorem SameState.sameStrings {client client' : Client} (same : SameState client client') :
    SameStrings client client' where
  installationId := congrArg CString.ofMemory same.installationId
  sessionToken := congrArg CString.ofMemory same.sessionToken
  lastPushTime := congrArg CString.ofMemory same.lastPushTime

/-- **A save is atomic exactly where it leaves the old file, or all of the new strings.** Behind
an interrupted save a fresh client loads the three old strings or the three new ones exactly if
the old file is still there, or the bytes of the new file that are there hold the new strings as
far as they go, or these happen to be the old strings. -/
theorem interrupted_save_iff {old new fresh : Client} (oldSized : old.StateSized)
    (newSized : new.StateSized) (isFresh : fresh.Fresh) (sameOld : SameApplication old fresh)
    (sameNew : SameApplication new fresh) (flash : Flash) (course : Course) :
    let loaded :=
      loadClientState (saveClientState course (saveClientState .success flash old) new) fresh
    (SameStrings loaded old ∨ SameStrings loaded new) ↔
      ∀ k, course.surviving new = some k → CutsTo k new old ∨ CutsTo k new new := by
  have stored : saveClientState course (saveClientState .success flash old) new
      (clientStateFileName fresh) = saveFile course new (some old.stateBytes) := by
    rw [saveClientState, sameNew.name, Function.update_self, saveClientState, sameOld.name,
      Function.update_self, saveFile_success]
  have left := saveFile_left course new (some old.stateBytes)
  rw [loadClientState, stored]
  generalize saveFile course new (some old.stateBytes) = file at left
  generalize course.surviving new = survives at left
  have cut : ∀ k, (SameStrings (readClientState (new.stateBytes.take k) fresh) old ∨
      SameStrings (readClientState (new.stateBytes.take k) fresh) new) ↔
      ∀ k', some k = some k' → CutsTo k' new old ∨ CutsTo k' new new := by
    intro k
    rw [sameStrings_cut_iff newSized isFresh, sameStrings_cut_iff newSized isFresh]
    constructor
    · intro cuts k' same
      rw [← Option.some.inj same]
      exact cuts
    · intro cuts
      exact cuts k rfl
  cases left with
  | old =>
      refine iff_of_true (Or.inl ?_) (fun k none => absurd none.symm (Option.some_ne_none k))
      exact (readClientState_stateBytes oldSized isFresh.sized).sameStrings
  | new k => exact cut k
  | gone => exact cut 0

section Example

def exampleOld : Client :=
  exampleClient (CString.literal "a") (CString.literal "one") (CString.literal "token")

def exampleNew : Client :=
  exampleClient (CString.literal "a") (CString.literal "two") (CString.literal "other")

theorem exampleFresh_fresh : exampleFresh.Fresh := ⟨by decide, by decide, by decide⟩

/-- The power is lost behind the deletion. -/
def lostBehindDelete : Course :=
  { Course.success with delete := ⟨true, .powerLost, fun _ => rfl⟩ }

/-- The second write fails at once. -/
def failedWrite : Course := { Course.success with sessionToken := ⟨0, .failed⟩ }

/-- The last write fails, behind the end of the last string. -/
def failedPadding : Course := { Course.success with lastPushTime := ⟨1, .failed⟩ }

theorem interrupted_save_example :
    let loaded := loadClientState (saveClientState failedPadding
      (saveClientState .success (fun _ => none) exampleOld) exampleNew) exampleFresh
    (SameStrings loaded exampleOld ∨ SameStrings loaded exampleNew) ↔
      ∀ k, failedPadding.surviving exampleNew = some k →
        CutsTo k exampleNew exampleOld ∨ CutsTo k exampleNew exampleNew :=
  interrupted_save_iff (exampleClient_wellFormed ..).saveable.sized
    (exampleClient_wellFormed ..).saveable.sized exampleFresh_fresh (by decide) (by decide)
    (fun _ => none) failedPadding

/-- What is loaded of the state that was saved, behind an interrupted save. -/
def loadedBehind (course : Course) : Client :=
  loadClientState (saveClientState course
    (saveClientState .success (fun _ => none) exampleOld) exampleNew) exampleFresh

theorem interrupted_save_counterexample :
    ¬ (SameStrings (loadedBehind lostBehindDelete) exampleOld ∨
        SameStrings (loadedBehind lostBehindDelete) exampleNew) ∧
      ¬ (SameStrings (loadedBehind failedWrite) exampleOld ∨
        SameStrings (loadedBehind failedWrite) exampleNew) := by
  have lost : CString.ofMemory (loadedBehind lostBehindDelete).sessionToken ≠
        CString.ofMemory exampleOld.sessionToken ∧
      CString.ofMemory (loadedBehind lostBehindDelete).sessionToken ≠
        CString.ofMemory exampleNew.sessionToken := by
    decide +kernel
  have failed : CString.ofMemory (loadedBehind failedWrite).sessionToken ≠
        CString.ofMemory exampleOld.sessionToken ∧
      CString.ofMemory (loadedBehind failedWrite).sessionToken ≠
        CString.ofMemory exampleNew.sessionToken := by
    decide +kernel
  refine ⟨?_, ?_⟩
  · rintro (same | same)
    · exact lost.1 same.sessionToken
    · exact lost.2 same.sessionToken
  · rintro (same | same)
    · exact failed.1 same.sessionToken
    · exact failed.2 same.sessionToken

end Example

end ParseEmbedded.Rtos
