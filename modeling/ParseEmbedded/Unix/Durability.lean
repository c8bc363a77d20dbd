import ParseEmbedded.SimpleJson.Destination
import ParseEmbedded.Unix.PushStep
import ParseEmbedded.Unix.Session

/-!
# Restarts on Unix

What a client has in memory, it has stored: `Persists` says so for its three values, and every
call keeps it, a restart included. What a restart makes of the values is read off the files
then, and `restart_restores_iff` says when these are the values the client had.
-/

set_option autoImplicit false

namespace ParseEmbedded.Unix

open SimpleJson Push Runs

/-- The bytes of a value, none if it is not set. -/
def valueBytes (value : Option CString) : List Byte := (value.map CString.bytes).getD []

theorem valueBytes_getD (value : Option CString) (new : CString) :
    valueBytes (some (value.getD new)) = if value = none then new.bytes else valueBytes value := by
  cases value with
  | none => rfl
  | some old => rfl

/-- The files can hold the three values of the application. -/
structure Home.Holds (home : Home) (applicationId : CString) : Prop where
  installationId : home.Reaches applicationId PARSE_INSTALLATION_ID
  sessionToken : home.Reaches applicationId PARSE_SESSION_TOKEN
  lastPushTime : home.Reaches applicationId PARSE_LAST_PUSH_TIME

/-- The files hold the map, and the directory of the application is the one of the process. -/
structure KeyStore.Serving (home : Home) (store : KeyStore) (applicationId : CString)
    (m : KeyMap) : Prop where
  keeps : home.Keeps store.files m
  own : store.Own home applicationId
  there : store.There home applicationId

section Serving

variable {home : Home} {store : KeyStore} {applicationId key : CString} {m : KeyMap}
  (serving : store.Serving home applicationId m) (reaches : home.Reaches applicationId key)

include serving reaches

theorem KeyStore.Serving.storeKey (value : CString) :
    (parseOsStoreKey home.text store applicationId key value).Serving home applicationId
      (m.store applicationId.bytes key.bytes value.bytes) := by
  obtain ⟨keeps, used, there⟩ :=
    serving.keeps.parseOsStoreKey serving.own reaches serving.there value
  exact ⟨keeps, Or.inr used, there⟩

theorem KeyStore.Serving.clearKey :
    (parseOsClearKey home.text store applicationId key).Serving home applicationId
      (m.clear applicationId.bytes key.bytes) := by
  obtain ⟨keeps, used, there⟩ := serving.keeps.parseOsClearKey serving.own reaches
  exact ⟨keeps, Or.inr used, there serving.there⟩

theorem KeyStore.Serving.loadKey {value : List Byte} (some : 0 < value.length) :
    (parseOsLoadKey home.text store applicationId key value).1.Serving home applicationId m ∧
      (parseOsLoadKey home.text store applicationId key value).2 =
        overwrite value
          ((m.load applicationId.bytes key.bytes ++ [Byte.nul]).take value.length) := by
  obtain ⟨keeps, used, there, loaded⟩ := serving.keeps.parseOsLoadKey serving.own reaches some
  exact ⟨⟨keeps, Or.inr used, there serving.there⟩, loaded⟩

end Serving

/-! ## What is stored -/

/-- The files hold these three values of the application. -/
structure Stores (home : Home) (applicationId : CString) (p : Process)
    (id token time : List Byte) : Prop where
  application : p.client.applicationId = applicationId
  held : ∃ m, p.store.Serving home applicationId m ∧
    m.load applicationId.bytes PARSE_INSTALLATION_ID.bytes = id ∧
    m.load applicationId.bytes PARSE_SESSION_TOKEN.bytes = token ∧
    m.load applicationId.bytes PARSE_LAST_PUSH_TIME.bytes = time

/-- What the client has in memory is stored. -/
structure Persists (home : Home) (applicationId : CString) (p : Process) : Prop where
  stores : Stores home applicationId p (valueBytes p.client.installationId)
    (valueBytes p.client.sessionToken) (valueBytes p.client.lastPushTime)
  short : (valueBytes p.client.lastPushTime).length < 40

/-- The keys are different. -/
theorem keys_differ :
    PARSE_INSTALLATION_ID.bytes ≠ PARSE_SESSION_TOKEN.bytes ∧
      PARSE_INSTALLATION_ID.bytes ≠ PARSE_LAST_PUSH_TIME.bytes ∧
      PARSE_SESSION_TOKEN.bytes ≠ PARSE_LAST_PUSH_TIME.bytes := by
  decide

/-- The answer to a request for the installation changes the object identifier only. -/
theorem foldl_setInstallationCallback (calls : List RequestCall) : ∀ client : Client,
    (calls.foldl setInstallationCallback client).toParseClientInternal =
        client.toParseClientInternal ∧
      (calls.foldl setInstallationCallback client).sessionToken = client.sessionToken := by
  induction calls with
  | nil =>
      intro client
      exact ⟨rfl, rfl⟩
  | cons call calls ih =>
      intro client
      have one : (setInstallationCallback client call).toParseClientInternal =
            client.toParseClientInternal ∧
          (setInstallationCallback client call).sessionToken = client.sessionToken := by
        rw [setInstallationCallback]
        split
        · split
          · split <;> exact ⟨rfl, rfl⟩
          · exact ⟨rfl, rfl⟩
        · exact ⟨rfl, rfl⟩
      obtain ⟨internal, token⟩ := ih (setInstallationCallback client call)
      exact ⟨internal.trans one.1, token.trans one.2⟩

/-- What an event stores. -/
def Event.stored : Event → Option (CString × CString × CString)
  | .storeKey applicationId key value => some (applicationId, key, value)
  | _ => none

theorem storeEvents_eq (homedir : List Byte) (events : List Event) : ∀ store : KeyStore,
    storeEvents homedir store events = (events.filterMap Event.stored).foldl
      (fun store stored => parseOsStoreKey homedir store stored.1 stored.2.1 stored.2.2)
      store := by
  induction events with
  | nil =>
      intro store
      rfl
  | cons event events ih =>
      intro store
      cases event with
      | storeKey applicationId key value => exact ih _
      | callback error message => exact ih store
      | heartbeat message => exact ih store
      | sendRequest httpVerb httpPath requestBody => exact ih store
      | send bytes => exact ih store
      | cleanup connection => exact ih store

section Register

variable (word : WordSize) (homedir : List Byte) (p : Process)

/-- A request for the installation leaves what the call has made of the client and stored. -/
theorem Process.register_eq (internal : ParseClientInternal) (events : List Event)
    (curl : Libcurl) :
    (p.register word homedir internal events curl).client.toParseClientInternal = internal ∧
      (p.register word homedir internal events curl).client.sessionToken =
        p.client.sessionToken ∧
      (p.register word homedir internal events curl).store =
        storeEvents homedir p.store events := by
  rw [Process.register]
  dsimp only
  split
  · obtain ⟨same, token⟩ := foldl_setInstallationCallback _ _
    exact ⟨same, token, rfl⟩
  · exact ⟨rfl, rfl, rfl⟩

end Register

/-! ## Storing and clearing one value -/

section Values

variable {home : Home} {applicationId : CString} {p p' : Process} {id token time : List Byte}
  (holds : home.Holds applicationId) (stores : Stores home applicationId p id token time)
  (application : p'.client.applicationId = p.client.applicationId)

include holds stores application

theorem Stores.storeId (value : CString)
    (store : p'.store = parseOsStoreKey home.text p.store p.client.applicationId
      PARSE_INSTALLATION_ID value) : Stores home applicationId p' value.bytes token time := by
  obtain ⟨rfl, m, serving, id, token, time⟩ := stores
  obtain ⟨tokenDiffers, timeDiffers, -⟩ := keys_differ
  refine ⟨application, _, store ▸ serving.storeKey holds.installationId value, ?_, ?_, ?_⟩
  · exact KeyMap.load_store ..
  · rw [KeyMap.load_store_other _ _ _ _ _ tokenDiffers.symm, token]
  · rw [KeyMap.load_store_other _ _ _ _ _ timeDiffers.symm, time]

theorem Stores.storeToken (value : CString)
    (store : p'.store = parseOsStoreKey home.text p.store p.client.applicationId
      PARSE_SESSION_TOKEN value) : Stores home applicationId p' id value.bytes time := by
  obtain ⟨rfl, m, serving, id, token, time⟩ := stores
  obtain ⟨idDiffers, -, timeDiffers⟩ := keys_differ
  refine ⟨application, _, store ▸ serving.storeKey holds.sessionToken value, ?_, ?_, ?_⟩
  · rw [KeyMap.load_store_other _ _ _ _ _ idDiffers, id]
  · exact KeyMap.load_store ..
  · rw [KeyMap.load_store_other _ _ _ _ _ timeDiffers.symm, time]

theorem Stores.storeTime (value : CString)
    (store : p'.store = parseOsStoreKey home.text p.store p.client.applicationId
      PARSE_LAST_PUSH_TIME value) : Stores home applicationId p' id token value.bytes := by
  obtain ⟨rfl, m, serving, id, token, time⟩ := stores
  obtain ⟨-, idDiffers, tokenDiffers⟩ := keys_differ
  refine ⟨application, _, store ▸ serving.storeKey holds.lastPushTime value, ?_, ?_, ?_⟩
  · rw [KeyMap.load_store_other _ _ _ _ _ idDiffers, id]
  · rw [KeyMap.load_store_other _ _ _ _ _ tokenDiffers, token]
  · exact KeyMap.load_store ..

theorem Stores.clearId (store : p'.store = parseOsClearKey home.text p.store
      p.client.applicationId PARSE_INSTALLATION_ID) :
    Stores home applicationId p' [] token time := by
  obtain ⟨rfl, m, serving, id, token, time⟩ := stores
  obtain ⟨tokenDiffers, timeDiffers, -⟩ := keys_differ
  refine ⟨application, _, store ▸ serving.clearKey holds.installationId, ?_, ?_, ?_⟩
  · exact KeyMap.load_clear ..
  · rw [KeyMap.load_clear_other _ _ _ _ tokenDiffers.symm, token]
  · rw [KeyMap.load_clear_other _ _ _ _ timeDiffers.symm, time]

theorem Stores.clearToken (store : p'.store = parseOsClearKey home.text p.store
      p.client.applicationId PARSE_SESSION_TOKEN) :
    Stores home applicationId p' id [] time := by
  obtain ⟨rfl, m, serving, id, token, time⟩ := stores
  obtain ⟨idDiffers, -, timeDiffers⟩ := keys_differ
  refine ⟨application, _, store ▸ serving.clearKey holds.sessionToken, ?_, ?_, ?_⟩
  · rw [KeyMap.load_clear_other _ _ _ _ idDiffers, id]
  · exact KeyMap.load_clear ..
  · rw [KeyMap.load_clear_other _ _ _ _ timeDiffers.symm, time]

omit holds in
theorem Stores.same (store : p'.store = p.store) :
    Stores home applicationId p' id token time := by
  obtain ⟨rfl, held⟩ := stores
  exact ⟨application, store ▸ held⟩

end Values

/-! ## The calls of the client -/

/-- A call has changed none of the values of the client but the identifier. -/
structure SameButId (p p' : Process) : Prop where
  sessionToken : p'.client.sessionToken = p.client.sessionToken
  lastPushTime : p'.client.lastPushTime = p.client.lastPushTime

section Calls

variable (word : WordSize) {home : Home} {applicationId : CString} {p : Process}
  {id token time : List Byte}

/-- What a call leaves of the client that works on the installation. -/
theorem register_same (homedir : List Byte) (internal : ParseClientInternal)
    (events : List Event) (same : internal.lastPushTime = p.client.lastPushTime)
    (curl : Libcurl) : SameButId p (p.register word homedir internal events curl) := by
  obtain ⟨registered, token, -⟩ := p.register_eq word homedir internal events curl
  exact ⟨token, (congrArg ParseClientInternal.lastPushTime registered).trans same⟩

variable (holds : home.Holds applicationId) (stores : Stores home applicationId p id token time)

include holds stores

/-- What a call stores that stores a new identifier. -/
theorem Stores.registerId (internal : ParseClientInternal) (events : List Event) (new : CString)
    (application : internal.applicationId = p.client.applicationId)
    (set : internal.installationId = some new)
    (stored : events.filterMap Event.stored =
      [(p.client.applicationId, PARSE_INSTALLATION_ID, new)]) (curl : Libcurl) :
    let p' := p.register word home.text internal events curl
    Stores home applicationId p' new.bytes token time ∧
      p'.client.installationId = some new := by
  obtain ⟨same, -, store⟩ := p.register_eq word home.text internal events curl
  dsimp only
  generalize p.register word home.text internal events curl = p' at *
  rw [storeEvents_eq, stored] at store
  have application' : p'.client.applicationId = p.client.applicationId := by
    rw [same, application]
  exact ⟨stores.storeId holds application' new store, by rw [same, set]⟩

/-- Where no identifier is stored, what is loaded is the empty string. -/
theorem Stores.loadInstallationId (unset : id = []) :
    Stores home applicationId ⟨p.client, (loadInstallationId home.text p.store
        p.client.applicationId).1⟩ id token time ∧
      (Unix.loadInstallationId home.text p.store p.client.applicationId).2.bytes = [] := by
  obtain ⟨rfl, m, serving, nothing, token, time⟩ := stores
  obtain ⟨loadedServing, loaded⟩ := serving.loadKey holds.installationId
    (show 0 < (List.replicate 37 Byte.nul).length by simp)
  refine ⟨⟨rfl, m, loadedServing, nothing, token, time⟩, ?_⟩
  rw [Unix.loadInstallationId]
  dsimp only
  rw [loaded, nothing, unset]
  decide

/-- There is an identifier afterwards: a new one, if there was none. -/
theorem Stores.createInstallationIdIfNeeded (unset : p.client.installationId = none → id = [])
    (outside : Outside) :
    let p' := p.createInstallationIdIfNeeded word home.text outside
    Stores home applicationId p'
        (if p.client.installationId = none then outside.around.uuid.bytes else id) token time ∧
      p'.client.installationId = some (p.client.installationId.getD outside.around.uuid) ∧
      SameButId p p' := by
  rw [Process.createInstallationIdIfNeeded]
  split
  · rename_i id set
    rw [set, if_neg (Option.some_ne_none id)]
    exact ⟨stores, set, rfl, rfl⟩
  · rename_i none
    obtain ⟨loaded, empty⟩ := stores.loadInstallationId holds (unset none)
    have new : parseCreateInstallationIdIfNeeded p.client.toParseClientInternal
        { outside.around with
          storedId := (Unix.loadInstallationId home.text p.store p.client.applicationId).2 } =
        parseSetInstallationId p.client.toParseClientInternal outside.around.uuid := by
      rw [parseCreateInstallationIdIfNeeded, none]
      dsimp only
      rw [if_pos empty]
    rw [none, if_pos rfl]
    dsimp only
    rw [new]
    let created := parseSetInstallationId p.client.toParseClientInternal outside.around.uuid
    obtain ⟨stored, set⟩ := loaded.registerId word holds created.1 created.2
      outside.around.uuid rfl rfl rfl outside.creating
    have same := register_same word (p := ⟨p.client, (Unix.loadInstallationId
      home.text p.store p.client.applicationId).1⟩) home.text created.1 created.2 rfl
      outside.creating
    exact ⟨stored, set, same.sessionToken, same.lastPushTime⟩

theorem Stores.setInstallationId (new : Option CString) (curl : Libcurl) :
    let p' := p.setInstallationId word home.text new curl
    Stores home applicationId p' (valueBytes new) token time ∧
      p'.client.installationId = new ∧ SameButId p p' := by
  cases new with
  | some new =>
      let set := parseSetInstallationId p.client.toParseClientInternal new
      obtain ⟨stored, there⟩ := stores.registerId word holds set.1 set.2 new rfl rfl
        rfl curl
      exact ⟨stored, there, register_same word home.text set.1 set.2 rfl curl⟩
  | none =>
      let p' := p.setInstallationId word home.text none curl
      have cleared : Stores home applicationId p' [] token time :=
        stores.clearId holds (show p'.client.applicationId = p.client.applicationId from rfl) rfl
      exact ⟨cleared, rfl, rfl, rfl⟩

/-- The answers to the question for the session change nothing that is stored, once there is an
identifier. -/
theorem Stores.getSessionObjectCallback {set : CString}
    (there : p.client.installationId = some set) (outside : Outside) (call : RequestCall) :
    let p' := p.getSessionObjectCallback word home.text outside call
    Stores home applicationId p' id token time ∧ p'.client.installationId = some set ∧
      SameButId p p' := by
  have same : Stores home applicationId p id token time ∧
      p.client.installationId = some set ∧ SameButId p p := ⟨stores, there, rfl, rfl⟩
  rw [Process.getSessionObjectCallback]
  split
  · split
    · split
      · have sent := stores.createInstallationIdIfNeeded word holds
          (fun none => absurd (there.symm.trans none) (Option.some_ne_none set)) outside
        rw [there, if_neg (Option.some_ne_none set)] at sent
        exact sent
      · exact same
    · exact same
  · exact same

omit stores in
theorem Stores.getSessionObjectCallbacks {set : CString} (outside : Outside)
    (calls : List RequestCall) : ∀ {p : Process},
      Stores home applicationId p id token time → p.client.installationId = some set →
      let p' := calls.foldl
        (fun p call => p.getSessionObjectCallback word home.text outside call) p
      Stores home applicationId p' id token time ∧ p'.client.installationId = some set ∧
        SameButId p p' := by
  induction calls with
  | nil =>
      intro p stores there
      exact ⟨stores, there, rfl, rfl⟩
  | cons call calls ih =>
      intro p stores there
      obtain ⟨next, still, first⟩ :=
        stores.getSessionObjectCallback word holds there outside call
      obtain ⟨last, stays, rest⟩ := ih next still
      exact ⟨last, stays, rest.sessionToken.trans first.sessionToken,
        rest.lastPushTime.trans first.lastPushTime⟩

/-- A token is stored, and with it an identifier if there is none yet. -/
theorem Stores.setSessionToken (unset : p.client.installationId = none → id = [])
    (new : CString) (outside : Outside) :
    let p' := p.setSessionToken word home.text (some new) outside
    Stores home applicationId p'
        (if p.client.installationId = none then outside.around.uuid.bytes else id) new.bytes
        time ∧
      p'.client.installationId = some (p.client.installationId.getD outside.around.uuid) ∧
      p'.client.sessionToken = some new ∧ p'.client.lastPushTime = p.client.lastPushTime := by
  obtain ⟨created, there, same⟩ :=
    stores.createInstallationIdIfNeeded word holds unset outside
  rw [Process.setSessionToken]
  dsimp only
  generalize p.createInstallationIdIfNeeded word home.text outside = q at *
  let next : Process := ⟨{ q.client with sessionToken := some new },
    parseOsStoreKey home.text q.store q.client.applicationId PARSE_SESSION_TOKEN new⟩
  have stored : Stores home applicationId next _ new.bytes time :=
    created.storeToken holds (show next.client.applicationId = q.client.applicationId from rfl)
      new rfl
  have still : next.client.installationId =
      some (p.client.installationId.getD outside.around.uuid) := there
  have sent := stored.createInstallationIdIfNeeded word holds
    (fun none => absurd (still.symm.trans none) (Option.some_ne_none _)) outside
  rw [still, if_neg (Option.some_ne_none _)] at sent
  obtain ⟨asked, thereAsked, sameAsked⟩ := sent
  obtain ⟨last, thereLast, sameLast⟩ := Stores.getSessionObjectCallbacks word holds
    outside _ asked thereAsked
  exact ⟨last, thereLast, sameLast.sessionToken.trans sameAsked.sessionToken,
    sameLast.lastPushTime.trans (sameAsked.lastPushTime.trans same.lastPushTime)⟩

end Calls

/-! ## The push service -/

/-- What a call of the push service makes of the three values: nothing, or it keeps the time of a
message, and stores it. -/
structure Remembers (before after : ParseClientInternal) (events : List Event) : Prop where
  application : after.applicationId = before.applicationId
  installationId : after.installationId = before.installationId
  time : (after.lastPushTime = before.lastPushTime ∧ events.filterMap Event.stored = []) ∨
    ∃ time : CString, time.length ≤ 32 ∧ after.lastPushTime = some time ∧
      events.filterMap Event.stored = [(before.applicationId, PARSE_LAST_PUSH_TIME, time)]

theorem Remembers.nothing (client : ParseClientInternal) {events : List Event}
    (stores : events.filterMap Event.stored = []) : Remembers client client events :=
  ⟨rfl, rfl, Or.inl ⟨rfl, stores⟩⟩

theorem rememberTime_remembers (client : ParseClientInternal) (message : CString) :
    Remembers client (rememberTime client message).1 (rememberTime client message).2 := by
  rw [rememberTime]
  split
  · rename_i result value looked
    split
    · obtain ⟨after, same, text, noNul, short, stored⟩ := simpleJsonProcessor_leaves looked
      obtain rfl := Option.some.inj same
      have length : value.length ≤ 32 := by
        rcases stored with rfl | rfl
        · rw [length_overwrite] <;> simp only [List.length_replicate] at short ⊢ <;> omega
        · rw [length_overwrite] <;>
            simp only [List.length_replicate, List.length_append, List.length_singleton]
              at short ⊢ <;> omega
      refine ⟨rfl, rfl, Or.inr ⟨CString.ofMemory value, ?_, rfl, rfl⟩⟩
      exact Nat.le_trans (List.takeWhile_sublist _).length_le length
    · exact .nothing client rfl
  · exact .nothing client rfl

theorem processNothing_remembers (call : Call) (loop : Loop) (exit : LoopExit) :
    Remembers call.client (processNothing call loop exit).2.client
      (processNothing call loop exit).2.events := by
  have sent : Remembers call.client (sendHeartbeat call.client call.seconds).1
      (sendHeartbeat call.client call.seconds).2 := by
    rw [sendHeartbeat]
    split
    · exact ⟨rfl, rfl, Or.inl ⟨rfl, rfl⟩⟩
    · exact .nothing _ rfl
  exact sent

theorem handOn_stored (client : ParseClientInternal) (message : CString) :
    (handOn client message).filterMap Event.stored = [] := by
  rw [handOn]
  split
  · rfl
  · split <;> rfl

theorem processMessage_remembers (client : ParseClientInternal) (loop : Loop) (exit : LoopExit)
    (index : Nat) :
    Remembers client (processMessage client loop exit index).2.client
      (processMessage client loop exit index).2.events := by
  obtain ⟨application, id, time⟩ := rememberTime_remembers client
    ((loop.buffer.terminate (index + loop.length.toNat)).string index)
  refine ⟨application, id, ?_⟩
  rw [processMessage_events]
  dsimp only
  rw [List.filterMap_append, handOn_stored, List.append_nil]
  exact time

/-- **What a call of the push service makes of the three values.** -/
theorem process_remembers (word : WordSize) (buffer : ReceiveBuffer) (call : Call) :
    Remembers call.client (parseProcessNextPushNotification word buffer call).2.client
      (parseProcessNextPushNotification word buffer call).2.events := by
  have found : ∀ (loop : Loop) (exit : LoopExit), (∀ code, exit ≠ .failed code) →
      Remembers call.client (processReceived word call loop exit).2.client
        (processReceived word call loop exit).2.events := by
    intro loop exit holds
    rw [processReceived_holds word call holds]
    split
    · exact .nothing _ rfl
    · split
      · split
        · exact processMessage_remembers ..
        · exact processNothing_remembers ..
      · exact processNothing_remembers ..
  rw [parseProcessNextPushNotification]
  split
  · exact .nothing _ rfl
  · dsimp only
    generalize receiveLoop word call.answers (.begin buffer) = done
    obtain ⟨loop, exit⟩ := done
    cases exit with
    | failed code =>
        refine .nothing _ ?_
        change List.filterMap Event.stored (if call.client.pushCallback then _ else _) = []
        split <;> rfl
    | left => exact found loop .left (fun _ => LoopExit.noConfusion)
    | again => exact found loop .again (fun _ => LoopExit.noConfusion)

/-- Behind the identifier, starting the push service stores nothing. -/
theorem start_created {client : ParseClientInternal} (closed : client.pushCurlHandle = none)
    (around : Surroundings) :
    let created := parseCreateInstallationIdIfNeeded client around
    let started := parseStartPushService client around
    started.client.applicationId = created.1.applicationId ∧
      started.client.installationId = created.1.installationId ∧
      started.client.lastPushTime = created.1.lastPushTime ∧
      started.events.filterMap Event.stored = created.2.filterMap Event.stored := by
  rw [parseStartPushService, if_neg (not_not.mpr closed)]
  generalize parseCreateInstallationIdIfNeeded client around = created
  dsimp only
  split
  · exact ⟨rfl, rfl, rfl, rfl⟩
  · split_ifs
    · exact ⟨rfl, rfl, rfl, rfl⟩
    · exact ⟨rfl, rfl, rfl, rfl⟩
    · exact ⟨rfl, rfl, rfl, rfl⟩
    · exact ⟨rfl, rfl, rfl, rfl⟩
    · refine ⟨rfl, rfl, rfl, ?_⟩
      rw [List.filterMap_append]
      exact List.append_nil _

/-- Where there is an identifier, or a connection, starting the push service stores nothing. -/
theorem start_stored {client : ParseClientInternal}
    (any : client.pushCurlHandle ≠ none ∨ client.installationId ≠ none)
    (around : Surroundings) :
    let started := parseStartPushService client around
    started.client.applicationId = client.applicationId ∧
      started.client.installationId = client.installationId ∧
      started.client.lastPushTime = client.lastPushTime ∧
      started.events.filterMap Event.stored = [] := by
  by_cases closed : client.pushCurlHandle = none
  · have created : parseCreateInstallationIdIfNeeded client around = (client, []) := by
      obtain ⟨id, set⟩ := Option.ne_none_iff_exists'.mp (any.resolve_left (not_not.mpr closed))
      rw [parseCreateInstallationIdIfNeeded, set]
    have started := start_created closed around
    rw [created] at started
    exact started
  · rw [parseStartPushService, if_pos closed]
    exact ⟨rfl, rfl, rfl, rfl⟩

section Push

variable (word : WordSize) {home : Home} {applicationId : CString} {p : Process}

/-- A call that changes none of the three values and stores none. -/
theorem Persists.same {p' : Process} (persists : Persists home applicationId p)
    (application : p'.client.applicationId = p.client.applicationId)
    (id : p'.client.installationId = p.client.installationId) (same : SameButId p p')
    (store : p'.store = p.store) : Persists home applicationId p' := by
  obtain ⟨stores, short⟩ := persists
  refine ⟨?_, ?_⟩
  · rw [id, same.sessionToken, same.lastPushTime]
    exact stores.same application store
  · rw [same.lastPushTime]
    exact short

theorem Persists.stopPushService (persists : Persists home applicationId p) :
    Persists home applicationId p.stopPushService := by
  have same : p.stopPushService.client.applicationId = p.client.applicationId ∧
      p.stopPushService.client.installationId = p.client.installationId ∧
      p.stopPushService.client.lastPushTime = p.client.lastPushTime := by
    simp only [Process.stopPushService, parseStopPushService]
    split <;> exact ⟨rfl, rfl, rfl⟩
  obtain ⟨application, id, time⟩ := same
  exact persists.same application id ⟨rfl, time⟩ rfl

/-- What is stored agrees with the identifier of the client. -/
theorem valueBytes_unset {value : Option CString} (unset : value = none) :
    valueBytes value = [] := by
  rw [unset]
  rfl

theorem Persists.startPushService (holds : home.Holds applicationId)
    (persists : Persists home applicationId p) (outside : Outside) :
    Persists home applicationId (p.startPushService word home.text outside) := by
  rw [Process.startPushService]
  split
  · rename_i closed unset
    obtain ⟨stores, short⟩ := persists
    obtain ⟨loaded, empty⟩ := stores.loadInstallationId holds (valueBytes_unset unset)
    dsimp only
    generalize loadInstallationId home.text p.store p.client.applicationId = stored at *
    have created : parseCreateInstallationIdIfNeeded p.client.toParseClientInternal
        { outside.around with storedId := stored.2 } =
        parseSetInstallationId p.client.toParseClientInternal outside.around.uuid := by
      rw [parseCreateInstallationIdIfNeeded, unset]
      dsimp only
      rw [if_pos empty]
    obtain ⟨application, set, time, events⟩ := start_created closed
      { outside.around with storedId := stored.2 }
    rw [created] at application set time events
    generalize parseStartPushService p.client.toParseClientInternal
      { outside.around with storedId := stored.2 } = started at *
    obtain ⟨next, there⟩ := loaded.registerId word holds started.client
      started.events outside.around.uuid application set events outside.creating
    have same := register_same word (p := ⟨p.client, stored.1⟩) home.text
      started.client started.events time outside.creating
    refine ⟨?_, ?_⟩
    · rw [there, same.sessionToken, same.lastPushTime]
      exact next
    · rw [same.lastPushTime]
      exact short
  · rename_i other
    have any : p.client.pushCurlHandle ≠ none ∨ p.client.installationId ≠ none := by
      by_contra neither
      rw [not_or, not_not, not_not] at neither
      exact other neither.1 neither.2
    obtain ⟨application, set, time, events⟩ := start_stored any outside.around
    generalize parseStartPushService p.client.toParseClientInternal outside.around = started
      at *
    obtain ⟨registered, -, store⟩ := p.register_eq word home.text started.client
      started.events outside.creating
    rw [storeEvents_eq, events] at store
    have same := register_same word (p := p) home.text started.client
      started.events time outside.creating
    refine persists.same ?_ ?_ same store
    · exact (congrArg ParseClientInternal.applicationId registered).trans application
    · exact (congrArg ParseClientInternal.installationId registered).trans set

theorem Persists.processNextPushNotification (holds : home.Holds applicationId)
    (persists : Persists home applicationId p) (buffer : ReceiveBuffer)
    (answers : List RecvAnswer) (seconds : Nat) :
    Persists home applicationId
      (p.processNextPushNotification word home.text buffer answers seconds).1 := by
  obtain ⟨application, set, time⟩ := process_remembers word buffer
    ⟨p.client.toParseClientInternal, answers, seconds⟩
  rw [Process.processNextPushNotification]
  dsimp only at *
  rcases time with ⟨time, events⟩ | ⟨text, short, time, events⟩
  · refine persists.same application set ⟨rfl, time⟩ ?_
    dsimp only
    rw [storeEvents_eq, events]
    rfl
  · refine ⟨?_, ?_⟩
    · dsimp only
      rw [set, time]
      refine persists.stores.storeTime holds application text ?_
      dsimp only
      rw [storeEvents_eq, events]
      rfl
    · dsimp only
      rw [time]
      exact Nat.lt_of_le_of_lt short (by decide)

end Push

/-! ## Loading through a buffer of 40 bytes -/

/-- What comes back of a value: as many bytes as the buffer has, and, if the value fills it, the
string on the stack behind it. -/
def restored (value behind : List Byte) : List Byte :=
  if value.length < 40 then value else value.take 40 ++ (CString.ofMemory behind).bytes

section Buffer

variable {temp : List Byte} (value : List Byte) (size : temp.length = 40)

include size

theorem length_loaded :
    (overwrite temp ((value ++ [Byte.nul]).take temp.length)).length = 40 := by
  rw [length_overwrite (List.length_take_le ..), size]

theorem headD_loaded (noNul : Byte.nul ∉ value) :
    (overwrite temp ((value ++ [Byte.nul]).take temp.length)).headD Byte.nul ≠ Byte.nul ↔
      value ≠ [] := by
  rw [size]
  cases value with
  | nil => exact iff_of_false (fun h => h rfl) (fun h => h rfl)
  | cons c value =>
      refine iff_of_true ?_ (List.cons_ne_nil c value)
      rw [List.mem_cons, not_or] at noNul
      exact Ne.symm noNul.1

theorem ofMemory_loaded (noNul : Byte.nul ∉ value) (behind : List Byte) :
    (CString.ofMemory
        (overwrite temp ((value ++ [Byte.nul]).take temp.length) ++ behind)).bytes =
      restored value behind := by
  rw [size, restored]
  split
  · rename_i short
    have whole : (value ++ [Byte.nul]).take 40 = value ++ [Byte.nul] := by
      refine List.take_of_length_le ?_
      rw [List.length_append, List.length_singleton]
      omega
    rw [whole, overwrite, List.append_assoc, List.append_assoc]
    exact CString.ofMemory_append_nul noNul _
  · rename_i long
    have cut : (value ++ [Byte.nul]).take 40 = value.take 40 :=
      List.take_append_of_le_length (by omega)
    have full : temp.drop (value.take 40).length = [] := by
      refine List.drop_eq_nil_of_le ?_
      rw [List.length_take]
      omega
    rw [cut, overwrite, full, List.append_nil]
    exact CString.ofMemory_append (fun member => noNul (List.mem_of_mem_take member)) behind

end Buffer

/-! ## Restarting -/

section Restart

variable (word : WordSize) {home : Home} {applicationId : CString} {p : Process}
  {id token time : List Byte}

/-- A load of one of the three values. -/
theorem Stores.load (stores : Stores home applicationId p id token time) {key : CString}
    {value : List Byte} (reaches : home.Reaches applicationId key)
    (held : ∀ m : KeyMap, m.load applicationId.bytes PARSE_INSTALLATION_ID.bytes = id →
      m.load applicationId.bytes PARSE_SESSION_TOKEN.bytes = token →
      m.load applicationId.bytes PARSE_LAST_PUSH_TIME.bytes = time →
      m.load applicationId.bytes key.bytes = value)
    {temp : List Byte} (size : temp.length = 40) :
    Stores home applicationId
        ⟨p.client, (parseOsLoadKey home.text p.store applicationId key temp).1⟩ id token time ∧
      (parseOsLoadKey home.text p.store applicationId key temp).2 =
        overwrite temp ((value ++ [Byte.nul]).take temp.length) := by
  obtain ⟨application, m, serving, id, token, time⟩ := stores
  obtain ⟨next, loaded⟩ := serving.loadKey reaches (show 0 < temp.length by omega)
  rw [held m id token time] at loaded
  exact ⟨⟨application, m, next, id, token, time⟩, loaded⟩

/-- What a new process makes of the values that are stored. -/
structure Restores (id token time : List Byte) (start : Start) (client : Client) : Prop where
  installationId : client.installationId.map CString.bytes =
    if id ≠ [] then some (restored id start.behindId)
    else if token ≠ [] then some start.outside.around.uuid.bytes else none
  sessionToken : client.sessionToken.map CString.bytes =
    if token ≠ [] then some (restored token start.behindToken) else none
  lastPushTime : client.lastPushTime.map CString.bytes = if time ≠ [] then some time else none

/-- The identifier that has been loaded. -/
theorem Stores.restoreId (stores : Stores home applicationId p id token time)
    (holds : home.Holds applicationId) (unset : p.client.installationId = none)
    {temp : List Byte} (nonempty : temp.headD Byte.nul ≠ Byte.nul ↔ id ≠ [])
    (text : CString) (curl : Libcurl) :
    let p' := if temp.headD Byte.nul ≠ Byte.nul then
      p.setInstallationId word home.text (some text) curl else p
    Stores home applicationId p' (valueBytes p'.client.installationId) token time ∧
      p'.client.installationId = (if id ≠ [] then some text else none) ∧ SameButId p p' := by
  by_cases there : id ≠ []
  · rw [if_pos (nonempty.mpr there), if_pos there]
    obtain ⟨set, same, others⟩ := stores.setInstallationId word holds (some text) curl
    dsimp only
    rw [same]
    exact ⟨set, rfl, others⟩
  · rw [if_neg (mt nonempty.mp there), if_neg there]
    rw [not_ne_iff] at there
    rw [there] at stores
    dsimp only
    rw [unset]
    exact ⟨stores, rfl, rfl, rfl⟩

/-- The token that has been loaded. -/
theorem Stores.restoreToken
    (stores : Stores home applicationId p (valueBytes p.client.installationId) token time)
    (holds : home.Holds applicationId) (unset : p.client.sessionToken = none)
    {temp : List Byte} (nonempty : temp.headD Byte.nul ≠ Byte.nul ↔ token ≠ [])
    (text : CString) (outside : Outside) :
    let p' := if temp.headD Byte.nul ≠ Byte.nul then
      p.setSessionToken word home.text (some text) outside else p
    Stores home applicationId p' (valueBytes p'.client.installationId)
        (valueBytes p'.client.sessionToken) time ∧
      p'.client.installationId = (if token ≠ [] then
        some (p.client.installationId.getD outside.around.uuid) else p.client.installationId) ∧
      p'.client.sessionToken = (if token ≠ [] then some text else none) ∧
      p'.client.lastPushTime = p.client.lastPushTime := by
  by_cases there : token ≠ []
  · rw [if_pos (nonempty.mpr there), if_pos there, if_pos there]
    obtain ⟨set, id, same, other⟩ := stores.setSessionToken word holds
      valueBytes_unset text outside
    dsimp only
    rw [same, id]
    refine ⟨?_, rfl, rfl, other⟩
    cases before : p.client.installationId with
    | none =>
        rw [before, if_pos rfl] at set
        exact set
    | some id =>
        rw [before, if_neg (Option.some_ne_none id)] at set
        exact set
  · rw [if_neg (mt nonempty.mp there), if_neg there, if_neg there]
    dsimp only
    rw [not_ne_iff] at there
    rw [there] at stores
    rw [unset]
    exact ⟨stores, rfl, rfl, rfl⟩

/-- **What a restart makes of the values that are stored.** -/
theorem initialize_restores (holds : home.Holds applicationId) {store : KeyStore}
    (start : Start)
    (stores : Stores home applicationId ⟨newClient applicationId start, store⟩ id token time)
    (idNoNul : Byte.nul ∉ id) (tokenNoNul : Byte.nul ∉ token) (timeNoNul : Byte.nul ∉ time)
    (short : time.length < 40) :
    let p := parseInitializeWithServerURL word home.text store applicationId start
    Persists home applicationId p ∧ Restores id token time start p.client := by
  rw [parseInitializeWithServerURL]
  dsimp only
  -- the identifier
  obtain ⟨stores, loaded⟩ := stores.load holds.installationId (fun _ h _ _ => h)
    start.temp.length_cells
  have size := length_loaded id start.temp.length_cells
  have nonempty := headD_loaded id start.temp.length_cells idNoNul
  have text := ofMemory_loaded id start.temp.length_cells idNoNul start.behindId
  rw [← loaded] at size nonempty text
  clear loaded
  generalize parseOsLoadKey home.text store applicationId PARSE_INSTALLATION_ID start.temp.cells
    = found at *
  obtain ⟨stores, installationId, same⟩ := stores.restoreId word holds rfl nonempty
    (CString.ofMemory (found.2 ++ start.behindId)) start.setting
  generalize (if found.2.headD Byte.nul ≠ Byte.nul then
    Process.setInstallationId word home.text ⟨newClient applicationId start, found.1⟩
      (some (CString.ofMemory (found.2 ++ start.behindId))) start.setting
    else ⟨newClient applicationId start, found.1⟩) = p at *
  -- the token
  obtain ⟨stores, loaded⟩ := stores.load holds.sessionToken (fun _ _ h _ => h) size
  have sizeToken := length_loaded token size
  have nonemptyToken := headD_loaded token size tokenNoNul
  have textToken := ofMemory_loaded token size tokenNoNul start.behindToken
  rw [← loaded] at sizeToken nonemptyToken textToken
  clear loaded
  generalize parseOsLoadKey home.text p.store applicationId PARSE_SESSION_TOKEN found.2
    = foundToken at *
  obtain ⟨stores, id', sessionToken, time'⟩ := stores.restoreToken word holds
    same.sessionToken nonemptyToken (CString.ofMemory (foundToken.2 ++ start.behindToken))
    start.outside
  generalize (if foundToken.2.headD Byte.nul ≠ Byte.nul then
    Process.setSessionToken word home.text ⟨p.client, foundToken.1⟩
      (some (CString.ofMemory (foundToken.2 ++ start.behindToken))) start.outside
    else ⟨p.client, foundToken.1⟩) = q at *
  -- the time
  obtain ⟨stores, loaded⟩ := stores.load holds.lastPushTime (fun _ _ _ h => h) sizeToken
  have nonemptyTime := headD_loaded time sizeToken timeNoNul
  have textTime := ofMemory_loaded time sizeToken timeNoNul start.behindTime
  rw [← loaded] at nonemptyTime textTime
  clear loaded
  generalize parseOsLoadKey home.text q.store applicationId PARSE_LAST_PUSH_TIME foundToken.2
    = foundTime at *
  have whole : restored time start.behindTime = time := if_pos short
  have restoredId : q.client.installationId.map CString.bytes =
      if id ≠ [] then some (restored id start.behindId)
      else if token ≠ [] then some start.outside.around.uuid.bytes else none := by
    rw [id', installationId, ← text]
    split_ifs <;> rfl
  have restoredToken : q.client.sessionToken.map CString.bytes =
      if token ≠ [] then some (restored token start.behindToken) else none := by
    rw [sessionToken, ← textToken]
    split_ifs <;> rfl
  by_cases there : time ≠ []
  · have bytes : (CString.ofMemory (foundTime.2 ++ start.behindTime)).bytes = time :=
      textTime.trans whole
    rw [if_pos (nonemptyTime.mpr there)]
    refine ⟨⟨?_, ?_⟩, restoredId, restoredToken, ?_⟩
    · have value : valueBytes (some (CString.ofMemory (foundTime.2 ++ start.behindTime))) =
          time := bytes
      dsimp only
      rw [value]
      exact stores.same rfl rfl
    · exact (congrArg List.length bytes).trans_lt short
    · rw [if_pos there]
      exact congrArg some bytes
  · rw [if_neg (mt nonemptyTime.mp there)]
    rw [not_ne_iff] at there
    have unset : q.client.lastPushTime = none := time'.trans same.lastPushTime
    refine ⟨⟨?_, ?_⟩, restoredId, restoredToken, ?_⟩
    · dsimp only
      rw [unset]
      rw [there] at stores
      exact stores
    · dsimp only
      rw [unset]
      decide
    · dsimp only
      rw [unset, if_neg (not_not.mpr there)]
      rfl

/-! ## When a restart restores the values -/

/-- A value that comes back as it was: not the empty string, and shorter than the buffer, unless
the rest of it happens to stand on the stack behind the buffer. -/
def Restorable (behind : List Byte) (value : Option CString) : Prop :=
  ∀ text, value = some text →
    text.bytes ≠ [] ∧
      (text.length < 40 ∨ (CString.ofMemory behind).bytes = text.bytes.drop 40)

theorem restored_iff (text : CString) (behind : List Byte) :
    restored text.bytes behind = text.bytes ↔
      text.length < 40 ∨ (CString.ofMemory behind).bytes = text.bytes.drop 40 := by
  rw [restored]
  split
  · rename_i short
    exact iff_of_true rfl (Or.inl short)
  · rename_i long
    have cut : text.bytes.take 40 ++ text.bytes.drop 40 = text.bytes :=
      List.take_append_drop 40 text.bytes
    constructor
    · intro same
      exact Or.inr (List.append_cancel_left (same.trans cut.symm))
    · rintro (short | same)
      · exact absurd short long
      · rw [same, cut]

theorem valueBytes_noNul (value : Option CString) : Byte.nul ∉ valueBytes value := by
  cases value with
  | none => exact List.not_mem_nil
  | some text => exact text.noNul

theorem bytes_injective {value value' : Option CString}
    (same : value.map CString.bytes = value'.map CString.bytes) : value = value' :=
  Option.map_injective (fun _ _ => CString.ext_bytes) same

/-- What comes back of a value is the value exactly when it is restorable. -/
theorem restorable_iff (behind : List Byte) (value : Option CString) :
    (if valueBytes value ≠ [] then some (restored (valueBytes value) behind) else none) =
        value.map CString.bytes ↔ Restorable behind value := by
  cases value with
  | none =>
      refine iff_of_true (if_neg fun h => h rfl) fun text none => ?_
      exact absurd none (Option.some_ne_none text).symm
  | some text =>
      change (if text.bytes ≠ [] then some (restored text.bytes behind) else none) =
        some text.bytes ↔ _
      constructor
      · intro same found there
        obtain rfl := Option.some.inj there
        by_cases empty : text.bytes ≠ []
        · rw [if_pos empty] at same
          exact ⟨empty, (restored_iff text behind).mp (Option.some.inj same)⟩
        · rw [if_neg empty] at same
          exact absurd same (Option.some_ne_none _).symm
      · intro restorable
        obtain ⟨nonempty, fits⟩ := restorable text rfl
        rw [if_pos nonempty, (restored_iff text behind).mpr fits]

end Restart


/-- The two clients have the same three values. -/
structure SameValues (before after : Client) : Prop where
  installationId : after.installationId = before.installationId
  sessionToken : after.sessionToken = before.sessionToken
  lastPushTime : after.lastPushTime = before.lastPushTime

/-- A client whose values come back: each of them does by itself, and there is an identifier if
there is a token, since loading a token makes a new identifier where there is none. -/
structure Restarts (client : Client) (start : Start) : Prop where
  installationId : Restorable start.behindId client.installationId
  sessionToken : Restorable start.behindToken client.sessionToken
  lastPushTime : Restorable start.behindTime client.lastPushTime
  identified : client.installationId = none → client.sessionToken = none

theorem Restorable.eq_none {behind : List Byte} {value : Option CString}
    (restorable : Restorable behind value) (empty : valueBytes value = []) : value = none := by
  cases value with
  | none => rfl
  | some text => exact absurd empty (restorable text rfl).1

/-- The identifier that a restart makes, given that the token comes back. -/
theorem identifier_iff {id token : Option CString} {start : Start}
    (restorable : Restorable start.behindToken token) :
    (if valueBytes id ≠ [] then some (restored (valueBytes id) start.behindId)
      else if valueBytes token ≠ [] then some start.outside.around.uuid.bytes else none) =
        id.map CString.bytes ↔
      Restorable start.behindId id ∧ (id = none → token = none) := by
  by_cases nonempty : valueBytes id ≠ []
  · have iff := restorable_iff start.behindId id
    rw [if_pos nonempty] at iff ⊢
    rw [iff]
    refine ⟨fun same => ⟨same, fun unset => ?_⟩, fun same => same.1⟩
    exact absurd (valueBytes_unset unset) nonempty
  · rw [if_neg nonempty]
    rw [not_ne_iff] at nonempty
    constructor
    · intro same
      by_cases noToken : valueBytes token ≠ []
      · rw [if_pos noToken] at same
        cases id with
        | none => exact absurd same (Option.some_ne_none _)
        | some text =>
            have empty : text.bytes = [] := nonempty
            exact absurd ((Option.some.inj same).trans empty) start.identifies
      · rw [if_neg noToken] at same
        have unset : id = none := Option.map_eq_none_iff.mp same.symm
        refine ⟨fun text there => ?_, fun _ => restorable.eq_none (not_ne_iff.mp noToken)⟩
        exact absurd (there.symm.trans unset) (Option.some_ne_none text)
    · rintro ⟨restorableId, identified⟩
      have unset := restorableId.eq_none nonempty
      rw [if_neg (not_not.mpr (valueBytes_unset (identified unset))), unset]
      rfl

/-- **When a restart restores the values of a client.** -/
theorem restart_restores_iff (word : WordSize) {home : Home} {applicationId : CString}
    {p : Process} (holds : home.Holds applicationId) (persists : Persists home applicationId p)
    (start : Start) :
    let restarted := parseInitializeWithServerURL word home.text
      { p.store with parse_local_store := [] } applicationId start
    Persists home applicationId restarted ∧
      (SameValues p.client restarted.client ↔ Restarts p.client start) := by
  obtain ⟨⟨application, m, serving, held⟩, short⟩ := persists
  have stores : Stores home applicationId
      ⟨newClient applicationId start, { p.store with parse_local_store := [] }⟩
      (valueBytes p.client.installationId) (valueBytes p.client.sessionToken)
      (valueBytes p.client.lastPushTime) :=
    ⟨rfl, m, ⟨serving.keeps, Or.inl rfl, fun used => absurd rfl used⟩, held⟩
  obtain ⟨persists', id, token, time⟩ := initialize_restores word holds start stores
    (valueBytes_noNul _) (valueBytes_noNul _) (valueBytes_noNul _) short
  refine ⟨persists', ?_⟩
  have whole : restored (valueBytes p.client.lastPushTime) start.behindTime =
      valueBytes p.client.lastPushTime := if_pos short
  have timeIff := restorable_iff start.behindTime p.client.lastPushTime
  have tokenIff := restorable_iff start.behindToken p.client.sessionToken
  rw [whole, ← time] at timeIff
  rw [← token] at tokenIff
  constructor
  · rintro ⟨sameId, sameToken, sameTime⟩
    have restorable := tokenIff.mp (congrArg _ sameToken)
    obtain ⟨restorableId, identified⟩ :=
      (identifier_iff restorable).mp (id.symm.trans (congrArg _ sameId))
    exact ⟨restorableId, restorable, timeIff.mp (congrArg _ sameTime), identified⟩
  · rintro ⟨restorableId, restorable, restorableTime, identified⟩
    have sameId := id.trans ((identifier_iff restorable).mpr ⟨restorableId, identified⟩)
    exact ⟨bytes_injective sameId, bytes_injective (tokenIff.mpr restorable),
      bytes_injective (timeIff.mpr restorableTime)⟩

/-! ## Runs -/

/-- A call of the API by the client, or `parseInitialize` in a new process. -/
inductive ApiCall where
  | restart (start : Start)
  | setInstallationId (installationId : Option CString) (curl : Libcurl)
  | setSessionToken (sessionToken : Option CString) (outside : Outside)
  | sendRequest (httpVerb httpPath : CString) (requestBody : Option CString) (outside : Outside)
  | startPushService (outside : Outside)
  | stopPushService
  | processNextPushNotification (answers : List RecvAnswer) (seconds : Nat)

/-- A process with its receive buffer. -/
structure Device where
  process : Process
  buffer : ReceiveBuffer

/-- A new process on the files that are there. -/
def Device.started (word : WordSize) (homedir : List Byte) (applicationId : CString)
    (files : Files) (start : Start) : Device :=
  ⟨parseInitializeWithServerURL word homedir ⟨files, []⟩ applicationId start,
    ⟨Block.fill 2048 Byte.nul, 0⟩⟩

def apiStep (word : WordSize) (homedir : List Byte) (applicationId : CString) (d : Device) :
    ApiCall → Device × Unit
  | .restart start =>
      (.started word homedir applicationId d.process.store.files start, ())
  | .setInstallationId installationId curl =>
      ({ d with process := d.process.setInstallationId word homedir installationId curl }, ())
  | .setSessionToken sessionToken outside =>
      ({ d with process := d.process.setSessionToken word homedir sessionToken outside }, ())
  | .sendRequest httpVerb httpPath requestBody outside =>
      ({ d with process :=
          (d.process.sendRequest word homedir httpVerb httpPath requestBody outside).1 }, ())
  | .startPushService outside =>
      ({ d with process := d.process.startPushService word homedir outside }, ())
  | .stopPushService => ({ d with process := d.process.stopPushService }, ())
  | .processNextPushNotification answers seconds =>
      let (process, buffer) :=
        d.process.processNextPushNotification word homedir d.buffer answers seconds
      (⟨process, buffer⟩, ())

abbrev ApiTransition := Runs.Transition Device ApiCall Unit

/-- A restart leaves the client with the values it had. -/
def RestoresValues (t : ApiTransition) : Prop :=
  match t.input with
  | .restart _ => SameValues t.before.process.client t.after.process.client
  | _ => True

/-- A restart of a client whose values come back. -/
def RestartsWell (t : ApiTransition) : Prop :=
  match t.input with
  | .restart start => Restarts t.before.process.client start
  | _ => True

section Run

variable (word : WordSize) {home : Home} {applicationId : CString}
  (holds : home.Holds applicationId)

include holds

theorem Persists.setInstallationId {p : Process} (persists : Persists home applicationId p)
    (installationId : Option CString) (curl : Libcurl) :
    Persists home applicationId (p.setInstallationId word home.text installationId curl) := by
  obtain ⟨stores, short⟩ := persists
  obtain ⟨next, set, same⟩ := stores.setInstallationId word holds installationId curl
  refine ⟨?_, ?_⟩
  · rw [set, same.sessionToken, same.lastPushTime]
    exact next
  · rw [same.lastPushTime]
    exact short

theorem Persists.createInstallationIdIfNeeded {p : Process}
    (persists : Persists home applicationId p) (outside : Outside) :
    Persists home applicationId (p.createInstallationIdIfNeeded word home.text outside) := by
  obtain ⟨stores, short⟩ := persists
  obtain ⟨next, set, same⟩ := stores.createInstallationIdIfNeeded word holds valueBytes_unset
    outside
  refine ⟨?_, ?_⟩
  · rw [set, same.sessionToken, same.lastPushTime, valueBytes_getD]
    exact next
  · rw [same.lastPushTime]
    exact short

theorem Persists.setSessionToken {p : Process} (persists : Persists home applicationId p)
    (sessionToken : Option CString) (outside : Outside) :
    Persists home applicationId (p.setSessionToken word home.text sessionToken outside) := by
  obtain ⟨stores, short⟩ := persists
  cases sessionToken with
  | none =>
      let p' := p.setSessionToken word home.text none outside
      have cleared : Stores home applicationId p' (valueBytes p.client.installationId) []
          (valueBytes p.client.lastPushTime) :=
        stores.clearToken holds (show p'.client.applicationId = p.client.applicationId from rfl)
          rfl
      exact ⟨cleared, short⟩
  | some token =>
      obtain ⟨next, set, there, time⟩ := stores.setSessionToken word holds valueBytes_unset token
        outside
      refine ⟨?_, ?_⟩
      · rw [set, there, time, valueBytes_getD]
        exact next
      · rw [time]
        exact short

/-- Every call stores what it changes. -/
theorem apiStep_persists {d : Device} (persists : Persists home applicationId d.process)
    (call : ApiCall) :
    Persists home applicationId (apiStep word home.text applicationId d call).1.process := by
  cases call with
  | restart start => exact (restart_restores_iff word holds persists start).1
  | setInstallationId installationId curl =>
      exact persists.setInstallationId word holds installationId curl
  | setSessionToken sessionToken outside =>
      exact persists.setSessionToken word holds sessionToken outside
  | sendRequest httpVerb httpPath requestBody outside =>
      exact persists.createInstallationIdIfNeeded word holds outside
  | startPushService outside => exact persists.startPushService word holds outside
  | stopPushService => exact persists.stopPushService
  | processNextPushNotification answers seconds =>
      exact persists.processNextPushNotification word holds d.buffer answers seconds

/-- **Restarts restore the values exactly where the values come back.** In every run of a client,
from files that hold nothing for any application, and over any number of restarts, each restart
leaves the new client with the identifier, the token and the time of the old one exactly if each
restart finds values that come back. -/
theorem restarts_restore_values_iff {files : Files} (fresh : home.Keeps files .empty)
    (start : Start) (calls : List ApiCall) :
    (∀ t ∈ run (apiStep word home.text applicationId)
        (.started word home.text applicationId files start) calls, RestartsWell t) ↔
      ∀ t ∈ run (apiStep word home.text applicationId)
        (.started word home.text applicationId files start) calls, RestoresValues t := by
  have nothing : Stores home applicationId ⟨newClient applicationId start, ⟨files, []⟩⟩
      [] [] [] :=
    ⟨rfl, .empty, ⟨fresh, Or.inl rfl, fun used => absurd rfl used⟩, rfl, rfl, rfl⟩
  have first := (initialize_restores word holds start nothing List.not_mem_nil List.not_mem_nil
    List.not_mem_nil (by decide)).1
  refine run_forall_iff (apiStep word home.text applicationId)
    (fun d => Persists home applicationId d.process) RestartsWell RestoresValues ?_
    (fun d call persists _ => apiStep_persists word holds persists call) calls first
  intro d call persists
  cases call with
  | restart start => exact (restart_restores_iff word holds persists start).2.symm
  | setInstallationId installationId curl => exact Iff.rfl
  | setSessionToken sessionToken outside => exact Iff.rfl
  | sendRequest httpVerb httpPath requestBody outside => exact Iff.rfl
  | startPushService outside => exact Iff.rfl
  | stopPushService => exact Iff.rfl
  | processNextPushNotification answers seconds => exact Iff.rfl

end Run

section Example

def exampleApplication : CString := CString.literal "a"

theorem exampleHome_holds : exampleHome.Holds exampleApplication :=
  ⟨by decide +kernel, by decide +kernel, by decide +kernel⟩

/-- A device that is offline: no request is sent. -/
def offline : Libcurl where
  init := false
  memory := true
  setopt _ := CURLE_OK
  seconds := 0
  transfer :=
    { body := []
      code := 0
      pieces := []
      result := CURLE_OK
      arrived := List.nil_prefix
      complete := fun _ => rfl
      taken := fun _ _ member => absurd member List.not_mem_nil }

def exampleOutside : Outside where
  around :=
    { storedId := CString.literal ""
      uuid := CString.literal "fresh"
      curl := none
      connectOnly := CURLE_OK
      useSsl := CURLE_OK
      url := CURLE_OK
      perform := CURLE_OK
      seconds := 0 }
  creating := offline
  curl := offline

/-- A start with a `z` on the stack behind the buffer. -/
def exampleStart : Start where
  clientKey := none
  serverURL := none
  osVersion := CString.literal "5.0"
  temp := Block.fill 40 Byte.nul
  behindId := ascii "z"
  behindToken := ascii "z"
  behindTime := ascii "z"
  setting := offline
  outside := exampleOutside
  identifies := by decide

def exampleDevice : Device :=
  .started .bits32 exampleHome.text exampleApplication exampleFiles exampleStart

theorem restarts_restore_values_example :
    (∀ t ∈ run (apiStep .bits32 exampleHome.text exampleApplication) exampleDevice
        [.setSessionToken (some (CString.literal "t")) exampleOutside, .restart exampleStart],
      RestartsWell t) ↔
    ∀ t ∈ run (apiStep .bits32 exampleHome.text exampleApplication) exampleDevice
        [.setSessionToken (some (CString.literal "t")) exampleOutside, .restart exampleStart],
      RestoresValues t :=
  restarts_restore_values_iff .bits32 exampleHome_holds exampleFiles_fresh exampleStart _

/-- The restart of the device behind these calls. -/
def restartAfter (calls : List ApiCall) : ApiTransition :=
  fire (apiStep .bits32 exampleHome.text exampleApplication)
    (final (apiStep .bits32 exampleHome.text exampleApplication) exampleDevice calls)
    (.restart exampleStart)

/-- A token of 40 characters comes back with a `z` behind it. -/
def longToken : ApiTransition :=
  restartAfter [.setSessionToken (some ⟨List.replicate 40 120, by decide⟩) exampleOutside]

/-- An identifier that was cleared comes back as a new one. -/
def clearedIdentifier : ApiTransition :=
  restartAfter [.setSessionToken (some (CString.literal "t")) exampleOutside,
    .setInstallationId none offline]

theorem restarts_restore_values_counterexample :
    (∃ calls, longToken ∈
        run (apiStep .bits32 exampleHome.text exampleApplication) exampleDevice calls) ∧
      ¬ RestoresValues longToken ∧
      (∃ calls, clearedIdentifier ∈
        run (apiStep .bits32 exampleHome.text exampleApplication) exampleDevice calls) ∧
      ¬ RestoresValues clearedIdentifier := by
  refine ⟨⟨_, fire_final_mem _ _ _ _⟩, ?_, ⟨_, fire_final_mem _ _ _ _⟩, ?_⟩
  · intro same
    have token : longToken.after.process.client.sessionToken ≠
        longToken.before.process.client.sessionToken := by
      decide +kernel
    exact token same.sessionToken
  · intro same
    have id : clearedIdentifier.after.process.client.installationId ≠
        clearedIdentifier.before.process.client.installationId := by
      decide +kernel
    exact id same.installationId

end Example

end ParseEmbedded.Unix
