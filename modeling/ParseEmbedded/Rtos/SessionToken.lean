import Mathlib.Data.List.Forall2
import ParseEmbedded.Rtos.Durability

/-!
# The session token on an RTOS

`parseSetSessionToken` copies the token into the client, requests the session and saves the client,
unless the token is that of the client but for the case of its letters: then it does nothing.
`parseGetSessionToken` returns the token of the client, every request with the installation flag
carries it, and a client that is started anew loads the one that was saved.

`asks` are the requests that a call builds, each with the client it is built for, and
`apiStep_asks` says that they are the ones that the call sends. `session_token_iff` says when a
token that is set is the one of all three, until it is set again.
-/

set_option autoImplicit false

namespace ParseEmbedded.Rtos

open SimpleJson Push Runs

/-! ## The requests of a call -/

/-- The arguments of `buildRequestHeaders`. -/
structure Asking where
  client : Client
  httpVerb : CString
  httpPath : CString
  httpRequestBody : Option CString
  addInstallationHeader : Bool

namespace Asking

/-- The request is sent, and this is what comes of it. -/
def Becomes (outside : Outside) (asking : Asking) (exchange : Exchange) : Prop :=
  exchange = outside.send asking.client asking.httpVerb asking.httpPath asking.httpRequestBody
    asking.addInstallationHeader exchange.answer

/-- Unless the request is an error, its line stands at the beginning of the buffer, and behind it
the lines of its headers, with the session token among them. -/
def CarriesToken (token : CString) (asking : Asking) : Prop :=
  ∀ libc,
    let built := buildRequestHeaders libc asking.client asking.httpPath asking.httpVerb
      asking.httpRequestBody asking.addInstallationHeader
    0 ≤ built.2 → ∃ before after rest, built.1.dataBuffer.cells =
      requestLine asking.httpVerb asking.httpPath
          (requestQuery asking.httpVerb asking.httpRequestBody) ++
        headerLines (before ++ ("X-Parse-Session-Token", token.bytes) :: after) ++ rest

/-- A request with the installation flag carries the token of its client. -/
theorem carriesToken {asking : Asking} {token : CString}
    (has : stringOf asking.client.sessionToken = token.bytes)
    (flagged : asking.addInstallationHeader = true) : asking.CarriesToken token := by
  obtain ⟨client, httpVerb, httpPath, httpRequestBody, addInstallationHeader⟩ := asking
  dsimp only at has flagged
  subst flagged
  intro libc _ built
  obtain ⟨rest, cells⟩ :=
    buildRequestHeaders_head libc client httpPath httpVerb httpRequestBody true built
  have between : ∀ (front back : List (String × List Byte)) (id token : String × List Byte),
      front ++ [id, token] ++ back = (front ++ [id]) ++ token :: back := by
    simp
  rw [requestHead, requestHeaders, if_pos rfl, between, has] at cells
  exact ⟨_, _, rest, cells.symm⟩

end Asking

section Asks

variable (outside : Outside) (client : Client)

/-- The request of `createInstallation`. -/
def createInstallationAsks : List Asking :=
  if stringOf client.installationObjectId = [] then
    let client := if stringOf client.installationId = [] then
        createNewInstallationId outside.rand client
      else client
    [⟨client, CString.literal "POST", installationsPath,
      some (createContent (stringOf client.installationId)), false⟩]
  else []

/-- The requests of `getInstallation`. -/
def getInstallationAsks : List Asking :=
  if stringOf client.installationObjectId ≠ [] ∧ stringOf client.installationId ≠ [] then []
  else
    let asked : List Asking :=
      if stringOf client.installationObjectId ≠ [] then
        [⟨client, CString.literal "GET", objectContent (stringOf client.installationObjectId), none,
          false⟩]
      else if stringOf client.installationId ≠ [] then
        [⟨client, CString.literal "GET", installationsPath,
          some (queryContent (stringOf client.installationId)), false⟩]
      else []
    asked ++ createInstallationAsks outside (askedClient outside client)

/-- The request of `associateSessionWithInstallation`. -/
def associateAsks : List Asking :=
  if stringOf client.installationObjectId ≠ [] then
    [⟨client, CString.literal "PUT", CString.literal "/1/sessions/me",
      some (CString.literal "\x7b\x7d\r\n"), true⟩]
  else []

/-- The request that `getSessionCallback` sends. -/
def sessionCallbackAsks (answer : Answer) (reply : Reply) : List Asking :=
  if reply.Succeeds then
    if (lookUpBody answer.installationId reply.httpResponseBody "installationId"
        (zeros INSTALLATION_ID_MAX_LEN) (INSTALLATION_ID_MAX_LEN + 1)).1 = 0 then
      associateAsks client
    else []
  else []

/-- The requests of `getSession`. -/
def getSessionAsks : List Asking :=
  let got := (getInstallation outside client).1
  let exchange := outside.send got (CString.literal "GET") (CString.literal "/1/sessions/me")
    none true outside.session
  getInstallationAsks outside client ++
    ⟨got, CString.literal "GET", CString.literal "/1/sessions/me", none, true⟩ ::
      sessionCallbackAsks got outside.session exchange.reply

/-- What comes of a request that is sent. -/
theorem becomes_send (client : Client) (httpVerb httpPath : CString)
    (httpRequestBody : Option CString) (addInstallationHeader : Bool) (answer : Answer) :
    Asking.Becomes outside ⟨client, httpVerb, httpPath, httpRequestBody, addInstallationHeader⟩
      (outside.send client httpVerb httpPath httpRequestBody addInstallationHeader answer) :=
  rfl

theorem createInstallation_asks : List.Forall₂ (Asking.Becomes outside)
    (createInstallationAsks outside client) (createInstallation outside client).2 := by
  rw [createInstallationAsks, createInstallation]
  split
  · exact .cons (becomes_send ..) .nil
  · exact .nil

theorem getInstallation_asks : List.Forall₂ (Asking.Becomes outside)
    (getInstallationAsks outside client) (getInstallation outside client).2 := by
  rw [getInstallationAsks, getInstallation, askedClient]
  split
  · exact .nil
  · refine List.rel_append ?_ ?_
    · split
      · exact .cons (becomes_send ..) .nil
      · split
        · exact .cons (becomes_send ..) .nil
        · exact .nil
    · split
      · exact createInstallation_asks outside _
      · split
        · exact createInstallation_asks outside _
        · exact createInstallation_asks outside _

theorem sessionCallback_asks (answer : Answer) (reply : Reply) :
    List.Forall₂ (Asking.Becomes outside) (sessionCallbackAsks client answer reply)
      (getSessionCallback outside client answer reply) := by
  rw [sessionCallbackAsks, getSessionCallback]
  split
  · split
    · rw [associateAsks, associateSessionWithInstallation]
      split
      · exact .cons (becomes_send ..) .nil
      · exact .nil
    · exact .nil
  · exact .nil

theorem getSession_asks : List.Forall₂ (Asking.Becomes outside) (getSessionAsks outside client)
    (getSession outside client).2 :=
  List.rel_append (getInstallation_asks outside client)
    (.cons (becomes_send ..) (sessionCallback_asks outside _ _ _))

end Asks

/-- The requests that a call builds. -/
def Device.asks (device : Device) : ApiCall → List Asking
  | .setInstallationId outside installationId =>
      match installationId.filter (·.bytes ≠ []) with
      | some id =>
          if sameIgnoringCase (CString.ofMemory device.client.installationId) id
              INSTALLATION_ID_MAX_LEN then []
          else
            let copied := strncpy device.client.installationId id INSTALLATION_ID_MAX_LEN
            getInstallationAsks outside { device.client with installationId := copied.map tolower }
      | none => []
  | .setSessionToken outside sessionToken =>
      match sessionToken.filter (·.bytes ≠ []) with
      | some token =>
          if sameIgnoringCase (CString.ofMemory device.client.sessionToken) token
              SESSION_TOKEN_MAX_LEN then []
          else
            let copied := strncpy device.client.sessionToken token SESSION_TOKEN_MAX_LEN
            getSessionAsks outside { device.client with sessionToken := copied }
      | none => []
  | .sendRequest outside httpVerb httpPath httpRequestBody =>
      getInstallationAsks outside device.client ++
        [⟨(getInstallation outside device.client).1, httpVerb, httpPath, httpRequestBody, true⟩]
  | .startPushService outside _ _ => getInstallationAsks outside device.client
  | _ => []

/-- What a call meets. -/
def ApiCall.outside : ApiCall → Option Outside
  | .setInstallationId outside _ => some outside
  | .setSessionToken outside _ => some outside
  | .sendRequest outside _ _ _ => some outside
  | .startPushService outside _ _ => some outside
  | _ => none

/-- **The requests of a call are those it sends.** -/
theorem apiStep_asks (device : Device) (call : ApiCall) :
    List.Forall₂ (fun asking exchange => ∃ outside, call.outside = some outside ∧
      asking.Becomes outside exchange) (device.asks call) (apiStep device call).2 := by
  have meets : ∀ {outside asks exchanges}, call.outside = some outside →
      List.Forall₂ (Asking.Becomes outside) asks exchanges →
      List.Forall₂ (fun asking exchange => ∃ outside, call.outside = some outside ∧
        asking.Becomes outside exchange) asks exchanges :=
    fun same become => become.imp fun _ _ becomes => ⟨_, same, becomes⟩
  cases call with
  | parseInitialize applicationId clientKey osVersion => exact .nil
  | setInstallationId outside installationId =>
      refine meets rfl ?_
      rw [Device.asks, apiStep, Device.setInstallationId]
      dsimp only
      cases installationId.filter (·.bytes ≠ []) with
      | some given =>
          dsimp only
          by_cases same : sameIgnoringCase (CString.ofMemory device.client.installationId) given
              INSTALLATION_ID_MAX_LEN
          · rw [if_pos same, if_pos same]
            exact .nil
          · rw [if_neg same, if_neg same]
            exact getInstallation_asks outside _
      | none =>
          dsimp only
          split
          · exact .nil
          · exact .nil
  | setSessionToken outside sessionToken =>
      refine meets rfl ?_
      rw [Device.asks, apiStep, Device.setSessionToken]
      dsimp only
      cases sessionToken.filter (·.bytes ≠ []) with
      | some given =>
          dsimp only
          by_cases same : sameIgnoringCase (CString.ofMemory device.client.sessionToken) given
              SESSION_TOKEN_MAX_LEN
          · rw [if_pos same, if_pos same]
            exact .nil
          · rw [if_neg same, if_neg same]
            exact getSession_asks outside _
      | none =>
          dsimp only
          split
          · exact .nil
          · exact .nil
  | sendRequest outside httpVerb httpPath httpRequestBody =>
      exact meets rfl (List.rel_append (getInstallation_asks outside device.client)
        (.cons (becomes_send ..) .nil))
  | startPushService outside socketHandle send =>
      exact meets rfl (getInstallation_asks outside device.client)
  | stopPushService => exact .nil
  | setPushCallback callback => exact .nil
  | processNextPushNotification stray reads isPingTime send save => exact .nil

/-! ## Keeping the token -/

/-- `parseGetSessionToken` -/
def Device.getSessionToken (device : Device) : Option CString :=
  if (CString.ofMemory device.client.sessionToken).length = 0 then none
  else some (CString.ofMemory device.client.sessionToken)

/-- The session token that a client of the application loads when it is started anew. -/
def Device.savedToken (device : Device) : List Byte :=
  stringOf (loadClientState device.flash device.client.cleared).sessionToken

/-- A call that neither sets the token nor starts a client anew. -/
def ApiCall.KeepsToken : ApiCall → Prop
  | .parseInitialize _ _ _ => False
  | .setSessionToken _ _ => False
  | _ => True

/-- The operations of the flash succeed if the call saves the client. -/
def ApiCall.Saves (call : ApiCall) : Prop := ∀ course, call.save = some course → course = .success

theorem getSessionToken_eq {device : Device} {token : CString} (some : token.bytes ≠ [])
    (has : stringOf device.client.sessionToken = token.bytes) :
    device.getSessionToken = Option.some token := by
  have same : CString.ofMemory device.client.sessionToken = token := CString.ext_bytes has
  rw [Device.getSessionToken, same, if_neg]
  exact fun none => some (List.length_eq_zero_iff.mp none)

theorem stringOf_of_getSessionToken {device : Device} {token : CString}
    (get : device.getSessionToken = some token) :
    stringOf device.client.sessionToken = token.bytes := by
  rw [Device.getSessionToken] at get
  split at get
  · exact absurd get (by simp)
  · exact congrArg CString.bytes (Option.some.inj get)

theorem savedToken_saved {device : Device} (wellFormed : device.client.WellFormed) {flash : Flash}
    (saved : device.flash = saveClientState .success flash device.client) :
    device.savedToken = stringOf device.client.sessionToken := by
  have durable := saved_durable ⟨device.client, flash, device.buffer⟩ wellFormed
  rw [Device.savedToken, saved]
  exact congrArg CString.bytes durable.sessionToken

/-- What is loaded depends on the flash and the application only. -/
theorem savedToken_same {device after : Device} (flash : after.flash = device.flash)
    (application : after.client.applicationId = device.client.applicationId) :
    after.savedToken = device.savedToken := by
  have same : SameApplication after.client.cleared device.client.cleared :=
    congrArg CString.ofMemory application
  rw [Device.savedToken, Device.savedToken, flash]
  exact congrArg CString.bytes (loadClientState_fresh device.flash (cleared_fresh after.client)
    (cleared_fresh device.client) same).sameStrings.sessionToken

/-- **What a call leaves** that neither sets the token nor starts a client anew: the token, and the
flash, unless it saves the client. -/
structure LeavesToken (device : Device) (save : Option Course) (after : Device) : Prop where
  applicationId : after.client.applicationId = device.client.applicationId
  sessionToken : after.client.sessionToken = device.client.sessionToken
  flash : after.flash = device.flash ∨ ∃ course, save = some course ∧
    after.flash = saveClientState course device.flash after.client

theorem OnlyIds.leavesToken {device : Device} {client : Client}
    (ids : OnlyIds device.client client) (save : Option Course) (buffer : PushDataBuffer) :
    LeavesToken device save ⟨client, device.flash, buffer⟩ :=
  ⟨ids.applicationId, ids.sessionToken, .inl rfl⟩

theorem LeavesToken.of_saved {device next : Device} {client : Client} (course : Course)
    (flash : next.flash = device.flash)
    (application : client.applicationId = device.client.applicationId)
    (token : client.sessionToken = device.client.sessionToken) :
    LeavesToken device (some course) (next.saved course client) :=
  ⟨application, token, .inr ⟨course, rfl, congrArg (saveClientState course · client) flash⟩⟩

theorem keepsToken_leaves {device : Device} {call : ApiCall} (keeps : call.KeepsToken) :
    LeavesToken device call.save (apiStep device call).1 := by
  cases call with
  | parseInitialize applicationId clientKey osVersion => exact absurd keeps id
  | setInstallationId outside installationId =>
      rcases setInstallationId_saves outside device installationId with
        same | ⟨client, ids, saved⟩
      · rw [apiStep, same]
        exact ⟨rfl, rfl, .inl rfl⟩
      · rw [apiStep, saved]
        exact .of_saved outside.save rfl ids.applicationId ids.sessionToken
  | setSessionToken outside sessionToken => exact absurd keeps id
  | sendRequest outside httpVerb httpPath httpRequestBody =>
      exact (getInstallation_onlyIds outside device.client).leavesToken _ _
  | startPushService outside socketHandle send =>
      have ids := getInstallation_onlyIds outside device.client
      exact ⟨ids.applicationId, ids.sessionToken, .inl rfl⟩
  | stopPushService => exact ⟨rfl, rfl, .inl rfl⟩
  | setPushCallback callback => exact ⟨rfl, rfl, .inl rfl⟩
  | processNextPushNotification stray reads isPingTime send save =>
      rw [apiStep, Device.processNextPushNotification]
      dsimp only
      split
      · split
        · exact .of_saved save rfl rfl rfl
        · exact ⟨rfl, rfl, .inl rfl⟩
      · exact ⟨rfl, rfl, .inl rfl⟩

/-- The requests of `getInstallation` are built without the installation flag. -/
theorem getInstallationAsks_plain (outside : Outside) (client : Client) :
    ∀ asking ∈ getInstallationAsks outside client, asking.addInstallationHeader = false := by
  have created : ∀ next, ∀ asking ∈ createInstallationAsks outside next,
      asking.addInstallationHeader = false := by
    intro next
    rw [createInstallationAsks]
    split
    · exact List.forall_mem_singleton.mpr rfl
    · exact fun _ member => absurd member List.not_mem_nil
  rw [getInstallationAsks]
  split
  · exact fun _ member => absurd member List.not_mem_nil
  · refine List.forall_mem_append.mpr ⟨?_, created _⟩
    split
    · exact List.forall_mem_singleton.mpr rfl
    · split
      · exact List.forall_mem_singleton.mpr rfl
      · exact fun _ member => absurd member List.not_mem_nil

theorem sessionCallbackAsks_client (client : Client) (answer : Answer) (reply : Reply) :
    ∀ asking ∈ sessionCallbackAsks client answer reply, asking.client = client := by
  rw [sessionCallbackAsks]
  split
  · split
    · rw [associateAsks]
      split
      · exact List.forall_mem_singleton.mpr rfl
      · exact fun _ member => absurd member List.not_mem_nil
    · exact fun _ member => absurd member List.not_mem_nil
  · exact fun _ member => absurd member List.not_mem_nil

/-- The requests of `getSession` with the installation flag are built behind `getInstallation`. -/
theorem getSessionAsks_client (outside : Outside) (client : Client) :
    ∀ asking ∈ getSessionAsks outside client, asking.addInstallationHeader = true →
      asking.client = (getInstallation outside client).1 := by
  intro asking member flagged
  rcases List.mem_append.mp member with installation | session
  · rw [getInstallationAsks_plain outside client asking installation] at flagged
    exact absurd flagged Bool.false_ne_true
  · rcases List.mem_cons.mp session with rfl | callback
    · rfl
    · exact sessionCallbackAsks_client _ _ _ asking callback

/-- A request with the installation flag is built for a client with the token of the device. -/
theorem keepsToken_asks {device : Device} {call : ApiCall} (keeps : call.KeepsToken) :
    ∀ asking ∈ device.asks call, asking.addInstallationHeader = true →
      asking.client.sessionToken = device.client.sessionToken := by
  intro asking member flagged
  have plain : ∀ outside client, asking ∉ getInstallationAsks outside client := by
    intro outside client member
    rw [getInstallationAsks_plain outside client asking member] at flagged
    exact absurd flagged Bool.false_ne_true
  cases call with
  | parseInitialize applicationId clientKey osVersion => exact absurd keeps id
  | setInstallationId outside installationId =>
      rw [Device.asks] at member
      split at member
      · split at member
        · exact absurd member List.not_mem_nil
        · exact absurd member (plain _ _)
      · exact absurd member List.not_mem_nil
  | setSessionToken outside sessionToken => exact absurd keeps id
  | sendRequest outside httpVerb httpPath httpRequestBody =>
      rcases List.mem_append.mp member with installation | request
      · exact absurd installation (plain _ _)
      · rw [List.mem_singleton.mp request]
        exact (getInstallation_onlyIds outside device.client).sessionToken
  | startPushService outside socketHandle send => exact absurd member (plain _ _)
  | stopPushService => exact absurd member List.not_mem_nil
  | setPushCallback callback => exact absurd member List.not_mem_nil
  | processNextPushNotification stray reads isPingTime send save =>
      exact absurd member List.not_mem_nil

/-! ## Setting the token -/

section Set

variable {device : Device} (outside : Outside) {token : CString} (some : token.bytes ≠ [])

include some

theorem filter_token : (Option.some token).filter (·.bytes ≠ []) = Option.some token := by
  simp [some]

/-- A token that differs in the case of its letters only is not set. -/
theorem setSessionToken_same (same : sameIgnoringCase (CString.ofMemory device.client.sessionToken)
      token SESSION_TOKEN_MAX_LEN = true) :
    apiStep device (.setSessionToken outside (.some token)) = (device, []) ∧
      device.asks (.setSessionToken outside (.some token)) = [] := by
  rw [apiStep, Device.setSessionToken, Device.asks, filter_token some]
  dsimp only
  rw [if_pos same, if_pos same]
  exact ⟨rfl, rfl⟩

/-- **What setting another token does.** -/
theorem setSessionToken_other (wellFormed : device.WellFormed)
    (fits : token.length ≤ SESSION_TOKEN_MAX_LEN)
    (other : ¬ sameIgnoringCase (CString.ofMemory device.client.sessionToken) token
      SESSION_TOKEN_MAX_LEN = true) :
    let after := (apiStep device (.setSessionToken outside (.some token))).1
    stringOf after.client.sessionToken = token.bytes ∧
      after.flash = saveClientState outside.save device.flash after.client ∧
      ∀ asking ∈ device.asks (.setSessionToken outside (.some token)),
        asking.addInstallationHeader = true →
          stringOf asking.client.sessionToken = token.bytes := by
  have copied := wellFormed.client.sessionToken.string_strncpy fits
  have ids := getInstallation_onlyIds outside { device.client with
    sessionToken := strncpy device.client.sessionToken token SESSION_TOKEN_MAX_LEN }
  have got : stringOf (getInstallation outside { device.client with
      sessionToken := strncpy device.client.sessionToken token
        SESSION_TOKEN_MAX_LEN }).1.sessionToken = token.bytes := by
    rw [ids.sessionToken]
    exact copied
  rw [apiStep, Device.setSessionToken, Device.asks, filter_token some]
  dsimp only
  rw [if_neg other, if_neg other]
  refine ⟨got, rfl, fun asking member flagged => ?_⟩
  rw [getSessionAsks_client outside _ asking member flagged]
  exact got

end Set

/-- The call leaves the token to `parseGetSessionToken`, and its requests with the installation flag
carry it. -/
structure HasToken (token : CString) (t : ApiTransition) : Prop where
  get : t.after.getSessionToken = some token
  carries : ∀ asking ∈ t.before.asks t.input, asking.addInstallationHeader = true →
    asking.CarriesToken token

/-- **The token is remembered.** Whatever a call of `parseSetSessionToken` meets, it and the calls
behind it have the token until it is set again, and it is the saved one if the saves succeed. -/
def Remembers (device : Device) (token : CString) : Prop :=
  ∀ outside calls, (∀ call ∈ calls, ApiCall.KeepsToken call) →
    (∀ t ∈ run apiStep device (.setSessionToken outside (some token) :: calls), HasToken token t) ∧
      ((∀ call ∈ ApiCall.setSessionToken outside (some token) :: calls, call.Saves) →
        ∀ t ∈ run apiStep device (.setSessionToken outside (some token) :: calls),
          t.after.savedToken = token.bytes)

/-- What a call keeps of the token that is there. -/
theorem keepsToken_step {device : Device} {token : CString} (some : token.bytes ≠ [])
    (has : stringOf device.client.sessionToken = token.bytes) {call : ApiCall}
    (keeps : call.KeepsToken) :
    stringOf (apiStep device call).1.client.sessionToken = token.bytes ∧
      HasToken token (fire apiStep device call) := by
  have after : stringOf (apiStep device call).1.client.sessionToken = token.bytes := by
    rw [(keepsToken_leaves keeps).sessionToken]
    exact has
  refine ⟨after, getSessionToken_eq some after, fun asking member flagged => ?_⟩
  refine Asking.carriesToken ?_ flagged
  rw [keepsToken_asks keeps asking member flagged]
  exact has

theorem keepsToken_saved {device : Device} (wellFormed : device.WellFormed) {call : ApiCall}
    (keeps : call.KeepsToken) (saves : call.Saves)
    (saved : device.savedToken = stringOf device.client.sessionToken) :
    (apiStep device call).1.savedToken = stringOf (apiStep device call).1.client.sessionToken := by
  have leaves : LeavesToken device call.save (apiStep device call).1 := keepsToken_leaves keeps
  rcases leaves.flash with flash | ⟨course, made, flash⟩
  · rw [savedToken_same flash leaves.applicationId, leaves.sessionToken]
    exact saved
  · rw [saves course made] at flash
    exact savedToken_saved (apiStep_wellFormed wellFormed call).client flash

section Remembers

variable {device : Device} {token : CString} (some : token.bytes ≠ [])

include some

/-- The calls behind the one that sets the token. -/
theorem keepsToken_run (has : stringOf device.client.sessionToken = token.bytes)
    {calls : List ApiCall} (keep : ∀ call ∈ calls, call.KeepsToken) :
    ∀ t ∈ run apiStep device calls, HasToken token t := by
  have along := run_invariant apiStep
    (fun device => stringOf device.client.sessionToken = token.bytes) (fun t => t.input.KeepsToken)
    (fun device call has keeps => (keepsToken_step some has keeps).1) calls has
    (fun t member => keep _ (input_mem_of_mem apiStep member))
  intro t member
  have here := keepsToken_step some (along.1 t member).1 (keep _ (input_mem_of_mem apiStep member))
  rw [eq_fire_of_mem apiStep member]
  exact here.2

omit some in
theorem keepsToken_run_saved (wellFormed : device.WellFormed)
    (has : stringOf device.client.sessionToken = token.bytes)
    (saved : device.savedToken = token.bytes) {calls : List ApiCall}
    (keep : ∀ call ∈ calls, call.KeepsToken) (saves : ∀ call ∈ calls, call.Saves) :
    ∀ t ∈ run apiStep device calls, t.after.savedToken = token.bytes := by
  have along := run_invariant apiStep
    (fun device => device.WellFormed ∧ stringOf device.client.sessionToken = token.bytes ∧
      device.savedToken = token.bytes)
    (fun t => t.input.KeepsToken ∧ t.input.Saves)
    (by
      rintro device call ⟨wellFormed, has, saved⟩ ⟨keeps, saves⟩
      have keeps : call.KeepsToken := keeps
      have after : stringOf (apiStep device call).1.client.sessionToken = token.bytes := by
        rw [(keepsToken_leaves keeps).sessionToken]
        exact has
      have loads := keepsToken_saved wellFormed keeps saves (saved.trans has.symm)
      exact ⟨apiStep_wellFormed wellFormed call, after, loads.trans after⟩)
    calls ⟨wellFormed, has, saved⟩
    (fun t member => ⟨keep _ (input_mem_of_mem apiStep member),
      saves _ (input_mem_of_mem apiStep member)⟩)
  exact fun t member => (along.1 t member).2.2.2

/-- A device that has the token behind the call, and has saved it, remembers it. -/
theorem remembers_of_step (wellFormed : device.WellFormed)
    (step : ∀ outside, stringOf
        (apiStep device (.setSessionToken outside (.some token))).1.client.sessionToken =
      token.bytes)
    (asks : ∀ outside, ∀ asking ∈ device.asks (.setSessionToken outside (.some token)),
      asking.addInstallationHeader = true → asking.CarriesToken token)
    (saved : ∀ outside, outside.save = .success →
      (apiStep device (.setSessionToken outside (.some token))).1.savedToken = token.bytes) :
    Remembers device token := by
  intro outside calls keep
  have has := step outside
  refine ⟨?_, fun saves => ?_⟩
  · rw [run_cons, List.forall_mem_cons]
    exact ⟨⟨getSessionToken_eq some has, asks outside⟩, keepsToken_run some has keep⟩
  · obtain ⟨first, rest⟩ := List.forall_mem_cons.mp saves
    have loads := saved outside (first outside.save rfl)
    rw [run_cons, List.forall_mem_cons]
    exact ⟨loads, keepsToken_run_saved (apiStep_wellFormed wellFormed _) has loads keep rest⟩

/-- A token that is not set is remembered only where it is there already. -/
theorem has_of_remembers (same : sameIgnoringCase (CString.ofMemory device.client.sessionToken)
    token SESSION_TOKEN_MAX_LEN = true) (remembers : Remembers device token) :
    stringOf device.client.sessionToken = token.bytes ∧ device.savedToken = token.bytes := by
  let outside := meeting unanswered unanswered
  have unchanged := (setSessionToken_same outside some same).1
  obtain ⟨has, saved⟩ := remembers outside [] fun _ member => absurd member List.not_mem_nil
  have get := (has _ (List.mem_cons_self ..)).get
  have loads := saved (List.forall_mem_singleton.mpr fun _ made => (Option.some.inj made).symm)
    _ (List.mem_cons_self ..)
  change (apiStep device _).1.getSessionToken = _ at get
  change (apiStep device _).1.savedToken = _ at loads
  rw [unchanged] at get loads
  exact ⟨stringOf_of_getSessionToken get, loads⟩

/-- **Which tokens are remembered.** A token that differs from the one of the client in more than
the case of its letters, or that is the token of the client and the saved one already. -/
theorem session_token_iff (wellFormed : device.WellFormed)
    (fits : token.length ≤ SESSION_TOKEN_MAX_LEN) :
    Remembers device token ↔
      ¬ sameIgnoringCase (CString.ofMemory device.client.sessionToken) token
          SESSION_TOKEN_MAX_LEN = true ∨
        (stringOf device.client.sessionToken = token.bytes ∧ device.savedToken = token.bytes) := by
  by_cases same : sameIgnoringCase (CString.ofMemory device.client.sessionToken) token
      SESSION_TOKEN_MAX_LEN = true
  · rw [or_iff_right (not_not.mpr same)]
    constructor
    · exact has_of_remembers some same
    · rintro ⟨has, saved⟩
      refine remembers_of_step some wellFormed (fun outside => ?_) (fun outside => ?_)
        (fun outside _ => ?_)
      · rw [(setSessionToken_same outside some same).1]
        exact has
      · rw [(setSessionToken_same outside some same).2]
        exact fun _ member => absurd member List.not_mem_nil
      · rw [(setSessionToken_same outside some same).1]
        exact saved
  · refine iff_of_true ?_ (.inl same)
    refine remembers_of_step some wellFormed (fun outside => ?_) (fun outside asking member => ?_)
      (fun outside succeeds => ?_)
    · exact (setSessionToken_other outside some wellFormed fits same).1
    · intro flagged
      obtain ⟨-, -, asks⟩ := setSessionToken_other outside some wellFormed fits same
      exact Asking.carriesToken (asks asking member flagged) flagged
    · obtain ⟨has, flash, -⟩ := setSessionToken_other outside some wellFormed fits same
      rw [succeeds] at flash
      rw [savedToken_saved (apiStep_wellFormed wellFormed _).client flash]
      exact has

end Remembers

/-- A device with an installation whose token is `old`. -/
def oldDevice : Device :=
  final apiStep exampleStart
    [setting (CString.literal "a") unanswered unanswered,
      .setSessionToken (meeting unanswered unanswered) (some (CString.literal "old"))]

theorem oldDevice_wellFormed : oldDevice.WellFormed :=
  (run_wellFormed (parseInitialize_wellFormed noFiles_written _ _ _) _).2

/-- The token is replaced. -/
theorem session_token_replaced :
    stringOf oldDevice.client.sessionToken = ascii "old" ∧
      Remembers oldDevice (CString.literal "abc") :=
  ⟨by decide +kernel, (session_token_iff (by decide) oldDevice_wellFormed (by decide)).mpr
    (.inl (by decide +kernel))⟩

/-- A device whose token is `ABC`. -/
def capitalsDevice : Device :=
  final apiStep exampleStart
    [.setSessionToken (meeting unanswered unanswered) (some (CString.literal "ABC"))]

/-- The token `abc` is not set. -/
theorem session_token_counterexample : ¬ Remembers capitalsDevice (CString.literal "abc") := by
  have capitals : stringOf capitalsDevice.client.sessionToken = ascii "ABC" := by
    decide +kernel
  have same : sameIgnoringCase (CString.ofMemory capitalsDevice.client.sessionToken)
      (CString.literal "abc") SESSION_TOKEN_MAX_LEN = true := by
    decide +kernel
  intro remembers
  have has := (has_of_remembers (by decide) same remembers).1
  rw [capitals] at has
  exact absurd has (by decide)

end ParseEmbedded.Rtos
