import ParseEmbedded.Rtos.Arrays

/-!
# Restarts on an RTOS

A client is durable if a client that is started anew loads its installation id, its session token
and its time of the last push. `parseSetInstallationId`, `parseSetSessionToken` and a push with a
time save them. `parseSendRequest` and `parseStartPushService` do not, although the request for
the installation can make up an installation id or take another one, and neither does a push
whose time breaks off. `state_is_durable_iff` says that these are the only ways to lose
something, where all operations of the flash succeed.
-/

set_option autoImplicit false

namespace ParseEmbedded.Rtos

open SimpleJson Push Runs

/-! ## What a restart loads -/

/-- The client in front of the loading of its state. -/
def Client.cleared (client : Client) : Client :=
  { client with
    installationId := zeros INSTALLATION_ID_MAX_LEN
    sessionToken := zeros SESSION_TOKEN_MAX_LEN
    lastPushTime := zeros PUSH_TIME_MAX_LEN.toNat }

/-- The file of the application holds the three strings of the client. -/
def Device.Durable (device : Device) : Prop :=
  SameStrings (loadClientState device.flash device.client.cleared) device.client

instance (client client' : Client) : Decidable (SameStrings client client') :=
  decidable_of_iff (CString.ofMemory client.installationId =
        CString.ofMemory client'.installationId ∧
      CString.ofMemory client.sessionToken = CString.ofMemory client'.sessionToken ∧
      CString.ofMemory client.lastPushTime = CString.ofMemory client'.lastPushTime)
    ⟨fun ⟨id, token, time⟩ => ⟨id, token, time⟩, fun ⟨id, token, time⟩ => ⟨id, token, time⟩⟩

instance (device : Device) : Decidable device.Durable :=
  inferInstanceAs (Decidable (SameStrings _ _))

/-- The three strings that are loaded depend on the application only. -/
theorem loadClientState_fresh (flash : Flash) {fresh fresh' : Client}
    (isFresh : fresh.Fresh) (isFresh' : fresh'.Fresh) (same : SameApplication fresh fresh') :
    SameState (loadClientState flash fresh) (loadClientState flash fresh') := by
  obtain ⟨id, token, time⟩ := isFresh
  obtain ⟨id', token', time'⟩ := isFresh'
  rw [loadClientState, loadClientState, same.name]
  split
  · simp only [readClientState, id, token, time, id', token', time']
    exact ⟨rfl, rfl, rfl⟩
  · exact ⟨id.trans id'.symm, token.trans token'.symm, time.trans time'.symm⟩

theorem cleared_fresh (client : Client) : client.cleared.Fresh := ⟨rfl, rfl, rfl⟩

theorem newClient_fresh (applicationId clientKey : CString) (osVersion : Option (List Byte)) :
    (newClient applicationId clientKey osVersion).Fresh := ⟨rfl, rfl, rfl⟩

theorem loadClientState_applicationId (flash : Flash) (client : Client) :
    (loadClientState flash client).applicationId = client.applicationId := by
  rw [loadClientState]
  split
  · rfl
  · rfl

/-- **A durable client comes back.** A restart of its application restores the three strings. -/
theorem Device.Durable.restart {device : Device} (durable : device.Durable)
    {applicationId clientKey : CString} {osVersion : Option (List Byte)}
    (same : SameApplication (newClient applicationId clientKey osVersion) device.client) :
    SameStrings (parseInitialize device.flash applicationId clientKey osVersion).client
      device.client := by
  have loaded := (loadClientState_fresh device.flash
    (newClient_fresh applicationId clientKey osVersion) (cleared_fresh device.client)
    same).sameStrings
  obtain ⟨id, token, time⟩ := durable
  exact ⟨loaded.installationId.trans id, loaded.sessionToken.trans token,
    loaded.lastPushTime.trans time⟩

theorem parseInitialize_durable (flash : Flash) (applicationId clientKey : CString)
    (osVersion : Option (List Byte)) :
    (parseInitialize flash applicationId clientKey osVersion).Durable := by
  have same : SameApplication (loadClientState flash
      (newClient applicationId clientKey osVersion)).cleared
      (newClient applicationId clientKey osVersion) :=
    congrArg CString.ofMemory (loadClientState_applicationId flash _)
  exact (loadClientState_fresh flash (cleared_fresh _)
    (newClient_fresh applicationId clientKey osVersion) same).sameStrings

/-- What has been saved is durable. -/
theorem saved_durable (device : Device) {client : Client} (wellFormed : client.WellFormed) :
    (device.saved .success client).Durable := by
  have same : SameApplication client client.cleared := rfl
  exact (load_save same wellFormed.saveable.sized (cleared_fresh client).sized).sameStrings

/-- A call that saves nothing is durable exactly if the three strings stay. -/
theorem durable_iff_same {device : Device} (durable : device.Durable) (after : Device)
    (flash : after.flash = device.flash)
    (application : after.client.applicationId = device.client.applicationId) :
    after.Durable ↔ SameStrings device.client after.client := by
  have same : SameApplication after.client.cleared device.client.cleared :=
    congrArg CString.ofMemory application
  have loaded := (loadClientState_fresh device.flash (cleared_fresh after.client)
    (cleared_fresh device.client) same).sameStrings
  obtain ⟨id, token, time⟩ := loaded
  obtain ⟨id', token', time'⟩ := durable
  rw [Device.Durable, flash]
  constructor
  · rintro ⟨id'', token'', time''⟩
    exact ⟨id'.symm.trans (id.symm.trans id''), token'.symm.trans (token.symm.trans token''),
      time'.symm.trans (time.symm.trans time'')⟩
  · rintro ⟨id'', token'', time''⟩
    exact ⟨id.trans (id'.trans id''), token.trans (token'.trans token''),
      time.trans (time'.trans time'')⟩

/-! ## The request for the installation -/

/-- The client behind has other ids only. -/
structure OnlyIds (client after : Client) : Prop where
  applicationId : after.applicationId = client.applicationId
  sessionToken : after.sessionToken = client.sessionToken
  lastPushTime : after.lastPushTime = client.lastPushTime

section Get

variable (outside : Outside) (client : Client)

/-- The answer to the query for the installation with the id of the client. -/
def queryReply : Reply :=
  (outside.send client (CString.literal "GET") installationsPath
    (some (queryContent (stringOf client.installationId))) false outside.get).reply

/-- The answer to the request for the installation with the object id of the client. -/
def fetchReply : Reply :=
  (outside.send client (CString.literal "GET")
    (objectContent (stringOf client.installationObjectId)) none false outside.get).reply

/-- The client behind the request that asks for the installation. -/
def askedClient : Client :=
  if stringOf client.installationObjectId ≠ [] then
    getInstallationCallback client outside.get (fetchReply outside client)
  else if stringOf client.installationId ≠ [] then
    getInstallationByIdCallback client outside.get (queryReply outside client)
  else client

theorem getInstallation_client : (getInstallation outside client).1 =
    if stringOf client.installationObjectId ≠ [] ∧ stringOf client.installationId ≠ [] then client
    else (createInstallation outside (askedClient outside client)).1 := by
  rw [getInstallation, askedClient]
  split
  · rfl
  · by_cases fetched : stringOf client.installationObjectId ≠ []
    · rw [if_pos fetched, if_pos fetched]
      rfl
    · rw [if_neg fetched, if_neg fetched]
      by_cases queried : stringOf client.installationId ≠ []
      · rw [if_pos queried, if_pos queried]
        rfl
      · rw [if_neg queried, if_neg queried]

theorem OnlyIds.refl : OnlyIds client client := ⟨rfl, rfl, rfl⟩

variable {client} in
theorem OnlyIds.trans {next after : Client} (first : OnlyIds client next)
    (second : OnlyIds next after) : OnlyIds client after where
  applicationId := second.applicationId.trans first.applicationId
  sessionToken := second.sessionToken.trans first.sessionToken
  lastPushTime := second.lastPushTime.trans first.lastPushTime

theorem createInstallation_onlyIds : OnlyIds client (createInstallation outside client).1 := by
  have callback : ∀ (next : Client) answer reply,
      OnlyIds next (createInstallationCallback next answer reply) := by
    intro next answer reply
    rw [createInstallationCallback]
    split
    · exact ⟨rfl, rfl, rfl⟩
    · exact ⟨rfl, rfl, rfl⟩
  rw [createInstallation]
  split
  · refine OnlyIds.trans ?_ (callback ..)
    split
    · exact ⟨rfl, rfl, rfl⟩
    · exact OnlyIds.refl client
  · exact OnlyIds.refl client

theorem getInstallationCallback_onlyIds (answer : Answer) (reply : Reply) :
    OnlyIds client (getInstallationCallback client answer reply) := by
  rw [getInstallationCallback]
  split
  · exact ⟨rfl, rfl, rfl⟩
  · exact ⟨rfl, rfl, rfl⟩

theorem getInstallationByIdCallback_onlyIds (answer : Answer) (reply : Reply) :
    OnlyIds client (getInstallationByIdCallback client answer reply) := by
  rw [getInstallationByIdCallback]
  split
  · split
    · exact ⟨rfl, rfl, rfl⟩
    · exact OnlyIds.refl client
  · exact ⟨rfl, rfl, rfl⟩

theorem getInstallation_onlyIds : OnlyIds client (getInstallation outside client).1 := by
  rw [getInstallation_client]
  split
  · exact OnlyIds.refl client
  · refine OnlyIds.trans ?_ (createInstallation_onlyIds outside _)
    rw [askedClient]
    split
    · exact getInstallationCallback_onlyIds client _ _
    · split
      · exact getInstallationByIdCallback_onlyIds client _ _
      · exact OnlyIds.refl client

/-- What the request for the installation makes of the id, behind the request that asks for it. -/
theorem createInstallation_id : stringOf (createInstallation outside client).1.installationId =
    if stringOf client.installationObjectId = [] ∧ stringOf client.installationId = [] then
      newInstallationId outside.rand
    else stringOf client.installationId := by
  have callback : ∀ (next : Client) answer reply,
      (createInstallationCallback next answer reply).installationId = next.installationId := by
    intro next answer reply
    rw [createInstallationCallback]
    split
    · rfl
    · rfl
  rw [createInstallation]
  by_cases none : stringOf client.installationObjectId = []
  · rw [if_pos none]
    dsimp only
    rw [callback]
    by_cases empty : stringOf client.installationId = []
    · rw [if_pos empty, if_pos ⟨none, empty⟩]
      exact stringOf_createNew outside.rand client
    · rw [if_neg empty, if_neg fun both => empty both.2]
  · rw [if_neg none, if_neg fun both => none both.1]

/-- The client with the ids of an installation. -/
def takeIds (installation : Option CString) : Client :=
  (client.takeObjectId outside.get installation).takeInstallationId outside.get installation

/-- The installation that the query finds has the id that was asked for. (Or it has neither id,
and the one that is made up happens to be this one.) -/
def QueryKeepsId : Prop :=
  (queryReply outside client).Succeeds → ∀ installation,
    firstResult outside.get (queryReply outside client).httpResponseBody = some installation →
    let found := takeIds outside client (some installation)
    stringOf found.installationId = stringOf client.installationId ∨
      stringOf found.installationId = [] ∧ stringOf found.installationObjectId = [] ∧
        newInstallationId outside.rand = stringOf client.installationId

/-- The installation with the object id has one, and no installation id. -/
def FetchKeepsId : Prop :=
  (fetchReply outside client).Succeeds ∧
    let fetched := takeIds outside client (fetchReply outside client).httpResponseBody
    stringOf fetched.installationObjectId ≠ [] ∧ stringOf fetched.installationId = []

/-- The request for the installation leaves the client its id: there is one, and what is asked for
it, if there is no object id, finds no other. (An empty id stays only where the server does not
tell the id of an installation.) -/
def KeepsId : Prop :=
  if stringOf client.installationId = [] then
    stringOf client.installationObjectId ≠ [] ∧ FetchKeepsId outside client
  else stringOf client.installationObjectId = [] → QueryKeepsId outside client

theorem newInstallationId_ne_nil (rand : Nat → Nat) : newInstallationId rand ≠ [] := by
  intro empty
  have length := (newInstallationId_text rand).2
  rw [empty] at length
  cases length

theorem keepsId_iff : KeepsId outside client ↔
    stringOf (getInstallation outside client).1.installationId =
      stringOf client.installationId := by
  rw [KeepsId, getInstallation_client, askedClient]
  by_cases empty : stringOf client.installationId = []
  · rw [if_pos empty, if_neg fun both => both.2 empty, createInstallation_id, empty]
    by_cases none : stringOf client.installationObjectId = []
    · -- without any id one is made up
      rw [if_neg (not_not_intro none), if_neg (not_not_intro rfl), if_pos ⟨none, empty⟩]
      exact iff_of_false (fun keeps => keeps.1 none) (newInstallationId_ne_nil _)
    · rw [if_pos none, getInstallationCallback, FetchKeepsId]
      have fresh := newInstallationId_ne_nil outside.rand
      by_cases succeeds : (fetchReply outside client).Succeeds
      · rw [if_pos succeeds, ← takeIds]
        generalize takeIds outside client (fetchReply outside client).httpResponseBody = fetched
        constructor
        · rintro ⟨-, -, some, empty⟩
          rw [if_neg fun both => some both.1]
          exact empty
        · intro same
          split at same
          · exact absurd same fresh
          · rename_i notBoth
            exact ⟨none, succeeds, fun none => notBoth ⟨none, same⟩, same⟩
      · have cleared : stringOf client.clearObjectId.installationObjectId = [] := stringOf_memset ..
        rw [if_neg succeeds, if_pos ⟨cleared, empty⟩]
        exact iff_of_false (fun keeps => succeeds keeps.2.1) fresh
  · rw [if_neg empty]
    by_cases none : stringOf client.installationObjectId = []
    · rw [if_neg fun both => both.1 none, if_neg (not_not_intro none), if_pos empty,
        QueryKeepsId]
      by_cases succeeds : (queryReply outside client).Succeeds
      · cases first : firstResult outside.get (queryReply outside client).httpResponseBody with
        | none =>
            have asked : getInstallationByIdCallback client outside.get
                (queryReply outside client) = client := by
              rw [getInstallationByIdCallback, if_pos succeeds, first]
            rw [asked, createInstallation_id, if_neg fun both => empty both.2]
            exact iff_of_true (fun _ _ _ found => absurd found.symm (Option.some_ne_none _)) rfl
        | some installation =>
            have asked : getInstallationByIdCallback client outside.get
                (queryReply outside client) = takeIds outside client (some installation) := by
              rw [getInstallationByIdCallback, if_pos succeeds, first]
              rfl
            rw [asked, createInstallation_id]
            constructor
            · intro keeps
              rcases keeps none succeeds installation rfl with same | ⟨empty', none', same⟩
              · rw [if_neg fun both => empty (same.symm.trans both.2)]
                exact same
              · rw [if_pos ⟨none', empty'⟩]
                exact same
            · intro same _ _ installation' found
              cases found
              split at same
              · rename_i both
                exact Or.inr ⟨both.2, both.1, same⟩
              · exact Or.inl same
      · have asked : getInstallationByIdCallback client outside.get (queryReply outside client) =
            client.clearObjectId := by
          rw [getInstallationByIdCallback, if_neg succeeds]
        rw [asked, createInstallation_id]
        refine iff_of_true (fun _ succeeds' => absurd succeeds' succeeds) ?_
        exact if_neg fun both => empty both.2
    · rw [if_pos ⟨none, empty⟩]
      exact iff_of_true (fun none' => absurd none' none) rfl

end Get

/-! ## Calls -/

/-- The course of the save that a call makes, if it makes one. -/
def ApiCall.save : ApiCall → Option Course
  | .setInstallationId outside _ => some outside.save
  | .setSessionToken outside _ => some outside.save
  | .processNextPushNotification _ _ _ _ save => some save
  | _ => none

/-- A time that the lookup changes is saved. -/
def SavesTime (device : Device) (stray : Stray) (reads : List (List SocketRound))
    (isPingTime : Bool) (send : Int) : Prop :=
  ∀ message, pushMessage device.buffer ⟨device.client.internal, reads, isPingTime, send⟩ =
      some message →
    (lookUpTime stray message device.client.lastPushTime).1 ≠ 0 ∨
      stringOf (lookUpTime stray message device.client.lastPushTime).2 =
        stringOf device.client.lastPushTime

/-- A request or a start of the push service leaves the client its id, and a push whose time is
not there as a whole leaves it the time. -/
def LosesNothing (device : Device) : ApiCall → Prop
  | .sendRequest outside _ _ _ => KeepsId outside device.client
  | .startPushService outside _ _ => KeepsId outside device.client
  | .processNextPushNotification stray reads isPingTime send _ =>
      SavesTime device stray reads isPingTime send
  | _ => True

/-- `parseSetInstallationId` does nothing, or saves a client with other ids. -/
theorem setInstallationId_saves (outside : Outside) (device : Device)
    (installationId : Option CString) :
    (device.setInstallationId outside installationId).1 = device ∨
      ∃ client, OnlyIds device.client client ∧
        (device.setInstallationId outside installationId).1 = device.saved outside.save client := by
  rw [Device.setInstallationId]
  dsimp only
  split
  · split
    · exact Or.inl rfl
    · rename_i id _ _
      have ids := getInstallation_onlyIds outside { device.client with
        installationId := (strncpy device.client.installationId id
          INSTALLATION_ID_MAX_LEN).map tolower }
      exact Or.inr ⟨_, ⟨ids.applicationId, ids.sessionToken, ids.lastPushTime⟩, rfl⟩
  · split
    · exact Or.inl rfl
    · exact Or.inr ⟨{ device.client with
        installationId := memset device.client.installationId INSTALLATION_ID_MAX_LEN },
        ⟨rfl, rfl, rfl⟩, rfl⟩

/-- `parseSetSessionToken` does nothing, or saves a client. -/
theorem setSessionToken_saves (outside : Outside) (device : Device)
    (sessionToken : Option CString) :
    (device.setSessionToken outside sessionToken).1 = device ∨
      ∃ client, (device.setSessionToken outside sessionToken).1 =
        device.saved outside.save client := by
  rw [Device.setSessionToken]
  dsimp only
  split
  · split
    · exact Or.inl rfl
    · exact Or.inr ⟨_, rfl⟩
  · split
    · exact Or.inl rfl
    · exact Or.inr ⟨_, rfl⟩

/-- A call that does nothing or saves leaves a durable client. -/
theorem Device.Durable.of_saves {device after : Device} (durable : device.Durable)
    (wellFormed : after.WellFormed)
    (saves : after = device ∨ ∃ client, after = device.saved .success client) : after.Durable := by
  rcases saves with rfl | ⟨client, rfl⟩
  · exact durable
  · exact saved_durable device wellFormed.client

section Calls

variable {device : Device} (wellFormed : device.WellFormed) (durable : device.Durable)

include wellFormed durable

theorem setInstallationId_durable {outside : Outside} (succeeds : outside.save = .success)
    (installationId : Option CString) :
    (device.setInstallationId outside installationId).1.Durable := by
  refine durable.of_saves (wellFormed.setInstallationId outside installationId) ?_
  rw [← succeeds]
  exact (setInstallationId_saves outside device installationId).imp_right
    fun ⟨client, _, saved⟩ => ⟨client, saved⟩

theorem setSessionToken_durable {outside : Outside} (succeeds : outside.save = .success)
    (sessionToken : Option CString) :
    (device.setSessionToken outside sessionToken).1.Durable := by
  refine durable.of_saves (wellFormed.setSessionToken outside sessionToken) ?_
  rw [← succeeds]
  exact setSessionToken_saves outside device sessionToken

omit wellFormed in
/-- A call that saves nothing of what the request for the installation changes. -/
theorem getInstallation_durable_iff (outside : Outside) {after : Device}
    (flash : after.flash = device.flash)
    (ids : OnlyIds (getInstallation outside device.client).1 after.client)
    (id : after.client.installationId = (getInstallation outside device.client).1.installationId) :
    KeepsId outside device.client ↔ after.Durable := by
  have others := (getInstallation_onlyIds outside device.client).trans ids
  rw [durable_iff_same durable after flash others.applicationId, keepsId_iff, ← id]
  constructor
  · intro same
    refine ⟨CString.ext_bytes same.symm, ?_, ?_⟩
    · rw [others.sessionToken]
    · rw [others.lastPushTime]
  · intro same
    exact congrArg CString.bytes same.installationId.symm

theorem processNext_durable_iff (stray : Stray) (reads : List (List SocketRound))
    (isPingTime : Bool) (send : Int) :
    SavesTime device stray reads isPingTime send ↔
      (device.processNextPushNotification stray reads isPingTime send .success).Durable := by
  have agrees := process_pushMessage device.buffer
    ⟨device.client.internal, reads, isPingTime, send⟩
  have after := (wellFormed.processNextPushNotification stray reads isPingTime send
    .success).client
  rw [Device.processNextPushNotification] at after ⊢
  dsimp only at after ⊢
  generalize parseProcessNextPushNotification device.buffer
    ⟨device.client.internal, reads, isPingTime, send⟩ = processed at *
  rw [SavesTime]
  cases found : pushMessage device.buffer ⟨device.client.internal, reads, isPingTime, send⟩ with
  | none =>
      rw [found] at agrees
      refine iff_of_true (fun _ same => absurd same.symm (Option.some_ne_none _)) ?_
      refine (durable_iff_same durable ⟨device.client.withInternal processed.2.client,
        device.flash, processed.1⟩ rfl rfl).mpr ⟨rfl, rfl, ?_⟩
      exact congrArg CString.ofMemory agrees.1.symm
  | some message =>
      rw [found] at after
      dsimp only at after ⊢
      by_cases whole : (lookUpTime stray message device.client.lastPushTime).1 ≠ 0
      · rw [if_pos whole] at after ⊢
        refine iff_of_true (fun message' same => Or.inl ?_) (saved_durable _ after)
        cases same
        exact whole
      · rw [if_neg whole, durable_iff_same durable
          ⟨(device.client.withInternal processed.2.client).withTime
            (lookUpTime stray message device.client.lastPushTime).2, device.flash, processed.1⟩
          rfl rfl]
        constructor
        · intro saves
          have same := (saves message rfl).resolve_left whole
          exact ⟨rfl, rfl, CString.ext_bytes same.symm⟩
        · intro same message' found'
          cases found'
          exact Or.inr (congrArg CString.bytes same.lastPushTime.symm)

/-- **Exactly the calls that lose nothing keep the client durable.** -/
theorem losesNothing_iff {call : ApiCall}
    (succeeds : ∀ course, call.save = some course → course = .success) :
    LosesNothing device call ↔ (apiStep device call).1.Durable := by
  cases call with
  | parseInitialize applicationId clientKey osVersion =>
      exact iff_of_true trivial (parseInitialize_durable ..)
  | setInstallationId outside installationId =>
      exact iff_of_true trivial
        (setInstallationId_durable wellFormed durable (succeeds _ rfl) installationId)
  | setSessionToken outside sessionToken =>
      exact iff_of_true trivial
        (setSessionToken_durable wellFormed durable (succeeds _ rfl) sessionToken)
  | sendRequest outside httpVerb httpPath httpRequestBody =>
      exact getInstallation_durable_iff durable outside rfl (OnlyIds.refl _) rfl
  | startPushService outside socketHandle send =>
      exact getInstallation_durable_iff durable outside rfl
        ⟨rfl, rfl, parseStartPushService_time ..⟩ rfl
  | stopPushService =>
      exact iff_of_true trivial
        ((durable_iff_same durable device.stopPushService rfl rfl).mpr ⟨rfl, rfl, rfl⟩)
  | setPushCallback callback =>
      exact iff_of_true trivial
        ((durable_iff_same durable (device.setPushCallback callback) rfl rfl).mpr
          ⟨rfl, rfl, rfl⟩)
  | processNextPushNotification stray reads isPingTime send save =>
      obtain rfl := succeeds _ rfl
      exact processNext_durable_iff wellFormed durable stray reads isPingTime send

end Calls

/-- **When the state is durable.** On files that saves have written, and while all operations of
the flash succeed, the client is durable after every call of a run exactly if every call loses
nothing. -/
theorem state_is_durable_iff {flash : Flash} (written : FilesWritten flash)
    (applicationId clientKey : CString) (osVersion : Option (List Byte)) (calls : List ApiCall)
    (succeeds : ∀ call ∈ calls, ∀ course, call.save = some course → course = .success) :
    (∀ t ∈ run apiStep (parseInitialize flash applicationId clientKey osVersion) calls,
        LosesNothing t.before t.input) ↔
      ∀ t ∈ run apiStep (parseInitialize flash applicationId clientKey osVersion) calls,
        t.after.Durable := by
  have first := parseInitialize_wellFormed written applicationId clientKey osVersion
  refine run_forall_iff_promised apiStep (fun device => device.WellFormed ∧ device.Durable)
    (fun t => ∀ course, t.input.save = some course → course = .success)
    (fun t => LosesNothing t.before t.input) (fun t => t.after.Durable) ?_ ?_ calls
    ⟨first, parseInitialize_durable flash applicationId clientKey osVersion⟩ ?_
  · rintro device call ⟨wellFormed, durable⟩ succeeds
    exact losesNothing_iff wellFormed durable succeeds
  · rintro device call ⟨wellFormed, durable⟩ succeeds keeps
    exact ⟨apiStep_wellFormed wellFormed call,
      (losesNothing_iff wellFormed durable succeeds).mp keeps⟩
  · intro t member
    exact succeeds _ (input_mem_of_mem apiStep member)

section Example

/-- An id is set, requests go on with it, and a restart finds it again. -/
def settledRun : List ApiCall :=
  [setting (CString.literal "a") unanswered unanswered, posting unanswered,
    .parseInitialize (CString.literal "a") (CString.literal "k") none, posting unanswered]

theorem state_is_durable_example : FilesWritten (fun _ => none) ∧
    ∀ t ∈ run apiStep exampleStart settledRun, t.after.Durable := by
  have succeeds : ∀ call ∈ settledRun, ∀ course, call.save = some course → course = .success := by
    intro call member course same
    simp only [settledRun, List.mem_cons, List.not_mem_nil, or_false] at member
    rcases member with rfl | rfl | rfl | rfl
    · exact (Option.some.inj same).symm
    · cases same
    · cases same
    · cases same
  refine ⟨noFiles_written, (state_is_durable_iff noFiles_written _ _ _ settledRun succeeds).mp ?_⟩
  simp only [settledRun, run_cons, run_nil, List.forall_mem_cons]
  refine ⟨trivial, ?_, trivial, ?_, fun t member => absurd member List.not_mem_nil⟩
  · exact (keepsId_iff _ _).mpr (by decide +kernel)
  · exact (keepsId_iff _ _).mpr (by decide +kernel)

/-- A push whose time is an array that is not closed. -/
def brokenTimeRun : List ApiCall :=
  [setting (CString.literal "a") unanswered unanswered,
    .startPushService (meeting unanswered unanswered) 1 1,
    .processNextPushNotification noStray
      [[⟨1, 0, .bytes (ascii "\x7b\"time\":[[1\x7d")⟩]] false 1 Course.success]

/-- The id that is made up for the first request is lost in a restart, and so is the time of such a
push. -/
theorem state_is_durable_counterexample :
    (¬ ∀ t ∈ run apiStep exampleStart [posting unanswered], t.after.Durable) ∧
      ¬ ∀ t ∈ run apiStep exampleStart brokenTimeRun, t.after.Durable := by
  have id : ¬ (final apiStep exampleStart [posting unanswered]).Durable := by
    decide +kernel
  have time : ¬ (final apiStep exampleStart brokenTimeRun).Durable := by
    decide +kernel
  constructor
  · intro durable
    have last := durable _ (fire_final_mem apiStep [] (posting unanswered) exampleStart)
    rw [fire_final_after] at last
    exact id last
  · intro durable
    have last := durable _ (fire_final_mem apiStep (brokenTimeRun.take 2)
      (.processNextPushNotification noStray
        [[⟨1, 0, .bytes (ascii "\x7b\"time\":[[1\x7d")⟩]] false 1 Course.success) exampleStart)
    rw [fire_final_after] at last
    exact time last

end Example

end ParseEmbedded.Rtos
