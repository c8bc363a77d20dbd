import ParseEmbedded.Rtos.QueryResult
import ParseEmbedded.Rtos.Session

/-!
# The identity of an installation on an RTOS

A server assigns an object id to each installation id. `Paired` says that the client holds no
object id, or the one assigned to its installation id, and `identity_stays_paired_iff` that every
call keeps this as long as the installation id is changed only while there is no object id.
`parseSetInstallationId` itself does not look at the object id, and so breaks it.

The server answers with documents, and `Exchange.Agrees` says that the ids in a document are the
assigned ones. What the client takes is another matter: it looks for the ids in what it has of the
document, of a query in 400 bytes of its results, and `Exchange.Reads` says that it takes an id
whole or not at all.
-/

set_option autoImplicit false

namespace ParseEmbedded.Rtos

open Json SimpleJson Push Runs

/-! ## The server -/

/-- The first of the results in the answer to a query. -/
def firstInstallation (document : Document) : Option Object :=
  match objectValue resultsKey.bytes document.object with
  | some (.array (.of elements)) =>
      match firstElement elements with
      | (_, .object installation) => some installation
      | _ => none
  | _ => none

/-- A string without escapes that stands under the name is this one. -/
def States (key : PlainKey) (object : Object) (id : CString) : Prop :=
  ∀ body : StringBody, objectValue key.bytes object = some (.string body) →
    (∀ b ∈ body.text, IsPlain b) → body.text = id.bytes

/-- A request for an installation fails, or is answered according to what the server assigns: a
request that creates or queries the one with an id, and a request for one with an object id. Of the
document a first part reaches the callback. -/
structure Exchange.Agrees (assign : CString → CString) (document : Document)
    (exchange : Exchange) : Prop where
  passes : ∀ body, exchange.reply.httpResponseBody = some body → exchange.reply.Succeeds →
    body.bytes <+: document.text
  created : ∀ id : CString, exchange.httpVerb = CString.literal "POST" →
    exchange.httpPath = installationsPath →
    exchange.httpRequestBody = some (createContent id.bytes) → exchange.reply.Succeeds →
    States objectIdKey document.object (assign id)
  queried : ∀ id : CString, exchange.httpVerb = CString.literal "GET" →
    exchange.httpPath = installationsPath →
    exchange.httpRequestBody = some (queryContent id.bytes) → exchange.reply.Succeeds →
    ∀ installation, firstInstallation document = some installation →
      States objectIdKey installation (assign id) ∧ States installationIdKey installation id
  fetched : ∀ objectId : CString, exchange.httpVerb = CString.literal "GET" →
    exchange.httpPath = objectContent objectId.bytes → exchange.httpRequestBody = none →
    exchange.reply.Succeeds → ∃ id, assign id = objectId ∧
      States objectIdKey document.object objectId ∧ States installationIdKey document.object id

/-! ## What the client takes -/

/-- What the scanner stores of an answer's object id. -/
def Exchange.objectId (exchange : Exchange) (installation : Option CString) : List Byte :=
  (lookUpBody exchange.answer.objectId installation "objectId" [] (OBJECT_ID_MAX_LEN + 1)).2

/-- What the scanner stores of an answer's installation id. -/
def Exchange.installationId (exchange : Exchange) (installation : Option CString) : List Byte :=
  (lookUpBody exchange.answer.installationId installation "installationId" []
    (INSTALLATION_ID_MAX_LEN + 1)).2

/-- A lookup stores nothing, or the whole of the string without escapes under its name. -/
def TakesText (key : PlainKey) (object : Object) (stored : List Byte) : Prop :=
  stored = [] ∨ ∃ body : StringBody, objectValue key.bytes object = some (.string body) ∧
    (∀ b ∈ body.text, IsPlain b) ∧ stored = body.text ++ [Byte.nul]

/-- The callback of a request for an installation takes the ids of the document whole, or not at
all: the lookups find the members that they are for, and nothing of them is cut off. -/
structure Exchange.Reads (document : Document) (exchange : Exchange) : Prop where
  created : ∀ id : CString, exchange.httpVerb = CString.literal "POST" →
    exchange.httpPath = installationsPath →
    exchange.httpRequestBody = some (createContent id.bytes) → exchange.reply.Succeeds →
    TakesText objectIdKey document.object (exchange.objectId exchange.reply.httpResponseBody)
  queried : ∀ id : CString, exchange.httpVerb = CString.literal "GET" →
    exchange.httpPath = installationsPath →
    exchange.httpRequestBody = some (queryContent id.bytes) → exchange.reply.Succeeds →
    ∀ found, firstResult exchange.answer exchange.reply.httpResponseBody = some found →
      ∃ installation, firstInstallation document = some installation ∧
        TakesText objectIdKey installation (exchange.objectId (some found)) ∧
        TakesText installationIdKey installation (exchange.installationId (some found))
  fetched : ∀ objectId : CString, exchange.httpVerb = CString.literal "GET" →
    exchange.httpPath = objectContent objectId.bytes → exchange.httpRequestBody = none →
    exchange.reply.Succeeds →
    TakesText objectIdKey document.object (exchange.objectId exchange.reply.httpResponseBody) ∧
      TakesText installationIdKey document.object
        (exchange.installationId exchange.reply.httpResponseBody)

/-- What a lookup stores that finds the whole of a string. -/
theorem takesText_of_storesExactly {stray : Stray} {key : PlainKey} {object : Object}
    {text : CString} {limit : Nat} {chars : List Byte} (has : HasText key object limit chars)
    (stores : StoresExactly key text.bytes limit chars) :
    TakesText key object (lookUp stray text key.key [] (limit + 1)).2 := by
  obtain ⟨⟨body, isValue, rfl⟩, plain, -⟩ := has
  obtain ⟨stored, found, whole⟩ := stores
  obtain ⟨-, same⟩ : _ ∧ (lookUp stray text key.key [] (limit + 1)).2 = _ := lookUp_stored found
  refine Or.inr ⟨body, isValue, plain, ?_⟩
  rw [same, whole, overwrite, List.drop_nil, List.append_nil]

theorem QueryResult.isFirst (q : QueryResult) :
    firstInstallation q.document = some q.installation := by
  rw [firstInstallation, q.results]
  dsimp only
  rw [q.first]

/-- **A query result in which the lookups find the two ids is taken whole.** -/
theorem QueryResult.Found.takes {q : QueryResult} (found : q.Found) {exchange : Exchange}
    (body : exchange.reply.httpResponseBody = some q.document.string) {first : CString}
    (isFirst : firstResult exchange.answer exchange.reply.httpResponseBody = some first) :
    firstInstallation q.document = some q.installation ∧
      TakesText objectIdKey q.installation (exchange.objectId (some first)) ∧
      TakesText installationIdKey q.installation (exchange.installationId (some first)) := by
  obtain ⟨array, stores, -, objectId, installationId⟩ := found
  rw [body] at isFirst
  rcases firstResult_document exchange.answer q.document with
    ⟨array', stores', -, installation, isCut, same⟩ | ⟨-, none⟩
  · cases stores.symm.trans stores'
    cases same.symm.trans isFirst
    rw [← isCut] at objectId installationId
    exact ⟨q.isFirst, takesText_of_storesExactly q.hasObjectId objectId,
      takesText_of_storesExactly q.hasInstallationId installationId⟩
  · cases none.symm.trans isFirst

/-! ## What the client stores -/

/-- A lookup stores nothing, or this string. -/
def StoresOnly (stored : List Byte) (value : CString) : Prop :=
  stored = [] ∨ stored = value.bytes ++ [Byte.nul]

instance (stored : List Byte) (value : CString) : Decidable (StoresOnly stored value) :=
  inferInstanceAs (Decidable (_ ∨ _))

theorem StoresOnly.string {stored : List Byte} {value : CString}
    (stores : StoresOnly stored value) (array : List Byte) :
    stringOf (overwrite array stored) = stringOf array ∨
      stringOf (overwrite array stored) = value.bytes := by
  rcases stores with rfl | rfl
  · exact Or.inl rfl
  · exact Or.inr (stringOf_overwrite array value.noNul)

/-- The ids that the client stores of an answer are the assigned ones. -/
structure Exchange.Stores (assign : CString → CString) (exchange : Exchange) : Prop where
  created : ∀ id : CString, exchange.httpVerb = CString.literal "POST" →
    exchange.httpPath = installationsPath →
    exchange.httpRequestBody = some (createContent id.bytes) → exchange.reply.Succeeds →
    StoresOnly (exchange.objectId exchange.reply.httpResponseBody) (assign id)
  queried : ∀ id : CString, exchange.httpVerb = CString.literal "GET" →
    exchange.httpPath = installationsPath →
    exchange.httpRequestBody = some (queryContent id.bytes) → exchange.reply.Succeeds →
    ∀ installation, firstResult exchange.answer exchange.reply.httpResponseBody =
        some installation →
      StoresOnly (exchange.objectId (some installation)) (assign id) ∧
        StoresOnly (exchange.installationId (some installation)) id
  fetched : ∀ objectId : CString, exchange.httpVerb = CString.literal "GET" →
    exchange.httpPath = objectContent objectId.bytes → exchange.httpRequestBody = none →
    exchange.reply.Succeeds → ∃ id, assign id = objectId ∧
      StoresOnly (exchange.objectId exchange.reply.httpResponseBody) objectId ∧
        StoresOnly (exchange.installationId exchange.reply.httpResponseBody) id

theorem TakesText.storesOnly {key : PlainKey} {object : Object} {stored : List Byte}
    {id : CString} (takes : TakesText key object stored) (states : States key object id) :
    StoresOnly stored id := by
  refine takes.imp_right ?_
  rintro ⟨body, isValue, plain, rfl⟩
  rw [states body isValue plain]

/-- **Of a right answer that is taken whole the client stores the assigned ids.** -/
theorem Exchange.Agrees.stores {assign : CString → CString} {document : Document}
    {exchange : Exchange} (agrees : exchange.Agrees assign document)
    (reads : exchange.Reads document) : exchange.Stores assign where
  created id verb path body succeeds :=
    (reads.created id verb path body succeeds).storesOnly
      (agrees.created id verb path body succeeds)
  queried id verb path body succeeds found isFirst := by
    obtain ⟨installation, isInstallation, objectId, installationId⟩ :=
      reads.queried id verb path body succeeds found isFirst
    obtain ⟨statesObjectId, statesInstallationId⟩ :=
      agrees.queried id verb path body succeeds installation isInstallation
    exact ⟨objectId.storesOnly statesObjectId, installationId.storesOnly statesInstallationId⟩
  fetched objectId verb path body succeeds := by
    obtain ⟨takesObjectId, takesId⟩ := reads.fetched objectId verb path body succeeds
    obtain ⟨id, assigned, statesObjectId, statesId⟩ :=
      agrees.fetched objectId verb path body succeeds
    exact ⟨id, assigned, takesObjectId.storesOnly statesObjectId, takesId.storesOnly statesId⟩

/-- The client holds no object id, or the one assigned to its installation id. -/
def Paired (assign : CString → CString) (client : Client) : Prop :=
  stringOf client.installationObjectId = [] ∨
    (stringOf client.installationId ≠ [] ∧
      stringOf client.installationObjectId =
        (assign (CString.ofMemory client.installationId)).bytes)

instance (assign : CString → CString) (client : Client) : Decidable (Paired assign client) :=
  inferInstanceAs (Decidable (_ ∨ (_ ∧ _)))

/-! ## Getting an installation -/

section Get

variable {assign : CString → CString} {outside : Outside} {client : Client}

theorem stringOf_takeObjectId (client : Client) (exchange : Exchange)
    (installation : Option CString) {id : CString}
    (stores : StoresOnly (exchange.objectId installation) id) :
    stringOf (client.takeObjectId exchange.answer installation).installationObjectId =
        stringOf client.installationObjectId ∨
      stringOf (client.takeObjectId exchange.answer installation).installationObjectId =
        id.bytes := by
  have string := stores.string client.installationObjectId
  rw [Client.takeObjectId, lookUpBody_onto]
  exact string

theorem stringOf_takeInstallationId (client : Client) (exchange : Exchange)
    (installation : Option CString) {id : CString}
    (stores : StoresOnly (exchange.installationId installation) id) :
    stringOf (client.takeInstallationId exchange.answer installation).installationId =
        stringOf client.installationId ∨
      stringOf (client.takeInstallationId exchange.answer installation).installationId =
        id.bytes := by
  have string := stores.string client.installationId
  rw [Client.takeInstallationId, lookUpBody_onto]
  exact string

/-- A created installation is paired with the id that was sent. -/
theorem createInstallationCallback_pairs {exchange : Exchange}
    (none : stringOf client.installationObjectId = [])
    (some : stringOf client.installationId ≠ [])
    (stores : exchange.reply.Succeeds → StoresOnly
      (exchange.objectId exchange.reply.httpResponseBody)
      (assign (CString.ofMemory client.installationId))) :
    let client' := createInstallationCallback client exchange.answer exchange.reply
    Paired assign client' ∧ client'.installationId = client.installationId := by
  rw [createInstallationCallback]
  split
  · rename_i succeeds
    refine ⟨?_, rfl⟩
    rcases stringOf_takeObjectId client exchange _ (stores succeeds) with same | taken
    · exact Or.inl (same.trans none)
    · exact Or.inr ⟨some, taken⟩
  · exact ⟨Or.inl (stringOf_memset ..), rfl⟩

/-- An installation that the query finds is paired with the id that was asked for. -/
theorem getInstallationByIdCallback_pairs {exchange : Exchange}
    (none : stringOf client.installationObjectId = [])
    (some : stringOf client.installationId ≠ [])
    (stores : exchange.reply.Succeeds → ∀ installation,
      firstResult exchange.answer exchange.reply.httpResponseBody = .some installation →
      StoresOnly (exchange.objectId (.some installation))
          (assign (CString.ofMemory client.installationId)) ∧
        StoresOnly (exchange.installationId (.some installation))
          (CString.ofMemory client.installationId)) :
    let client' := getInstallationByIdCallback client exchange.answer exchange.reply
    Paired assign client' ∧
      stringOf client'.installationId = stringOf client.installationId := by
  rw [getInstallationByIdCallback]
  split
  · rename_i succeeds
    split
    · rename_i installation found
      obtain ⟨objectId, installationId⟩ := stores succeeds installation found
      have sameId : stringOf (client.takeInstallationId exchange.answer
          (.some installation)).installationId = stringOf client.installationId := by
        rcases stringOf_takeInstallationId client exchange _ installationId with
          same | same
        · exact same
        · exact same
      refine ⟨?_, sameId⟩
      rcases stringOf_takeObjectId client exchange _ objectId with same | taken
      · exact Or.inl (same.trans none)
      · refine Or.inr ⟨fun empty => some (sameId.symm.trans empty), ?_⟩
        have same : CString.ofMemory (client.takeInstallationId exchange.answer
            (.some installation)).installationId = CString.ofMemory client.installationId :=
          CString.ext_bytes sameId
        exact taken.trans (congrArg (fun id => (assign id).bytes) same.symm)
    · exact ⟨Or.inl none, rfl⟩
  · exact ⟨Or.inl (stringOf_memset ..), rfl⟩

/-- The id of a client that needs one. -/
def neededId (outside : Outside) (client : Client) : List Byte :=
  if stringOf client.installationId = [] then newInstallationId outside.rand
  else stringOf client.installationId

theorem createInstallation_pairs (paired : Paired assign client)
    (stores : ∀ exchange ∈ (createInstallation outside client).2, exchange.Stores assign) :
    Paired assign (createInstallation outside client).1 ∧
      stringOf (createInstallation outside client).1.installationId = neededId outside client := by
  rw [createInstallation] at stores ⊢
  by_cases none : stringOf client.installationObjectId = []
  · rw [if_pos none] at stores ⊢
    dsimp only at stores ⊢
    have needed : stringOf (if stringOf client.installationId = [] then
          createNewInstallationId outside.rand client else client).installationId =
        neededId outside client := by
      rw [neededId]
      split
      · exact stringOf_createNew outside.rand client
      · rfl
    have still : stringOf (if stringOf client.installationId = [] then
          createNewInstallationId outside.rand client else client).installationObjectId = [] := by
      split
      · exact none
      · exact none
    generalize (if stringOf client.installationId = [] then
      createNewInstallationId outside.rand client else client) = client' at *
    have some : stringOf client'.installationId ≠ [] := by
      rw [needed, neededId]
      split
      · intro empty
        have length := (newInstallationId_text outside.rand).2
        rw [empty] at length
        cases length
      · assumption
    obtain ⟨pairs, id⟩ := createInstallationCallback_pairs still some
      ((stores _ (List.mem_singleton_self _)).created (CString.ofMemory client'.installationId)
        rfl rfl rfl)
    refine ⟨pairs, ?_⟩
    exact (congrArg stringOf id).trans needed
  · rw [if_neg none]
    have some := (paired.resolve_left none).1
    exact ⟨paired, (if_neg some).symm⟩

/-- **A request for the installation keeps the pair.** Only a client without an installation id
gets another one, and that is a new one. -/
theorem getInstallation_pairs (paired : Paired assign client)
    (stores : ∀ exchange ∈ (getInstallation outside client).2, exchange.Stores assign) :
    Paired assign (getInstallation outside client).1 ∧
      stringOf (getInstallation outside client).1.installationId = neededId outside client := by
  rw [getInstallation] at stores ⊢
  by_cases both : stringOf client.installationObjectId ≠ [] ∧ stringOf client.installationId ≠ []
  · rw [if_pos both]
    exact ⟨paired, (if_neg both.2).symm⟩
  · have none : stringOf client.installationObjectId = [] := by
      by_contra some
      exact both ⟨some, (paired.resolve_left some).1⟩
    rw [if_neg both, if_neg (not_not_intro none)] at stores ⊢
    by_cases some : stringOf client.installationId ≠ []
    · rw [if_pos some] at stores ⊢
      dsimp only at stores ⊢
      obtain ⟨pairs, id⟩ := getInstallationByIdCallback_pairs none some
        ((stores _ (List.mem_append_left _ (List.mem_singleton_self _))).queried
          (CString.ofMemory client.installationId) rfl rfl rfl)
      obtain ⟨pairs, id'⟩ := createInstallation_pairs pairs fun exchange member =>
        stores exchange (List.mem_append_right _ member)
      refine ⟨pairs, id'.trans ?_⟩
      simp only [neededId]
      rw [id]
    · rw [if_neg some] at stores ⊢
      exact createInstallation_pairs paired fun exchange member =>
        stores exchange (List.mem_append_right _ member)

end Get

/-! ## Setting the id -/

theorem tolower_ne_nul {c : Byte} (notNul : c ≠ Byte.nul) : tolower c ≠ Byte.nul := by
  rw [tolower]
  split
  · rename_i letter
    intro zero
    have low : 65 ≤ c.toNat := letter.1
    have high : c.toNat ≤ 90 := letter.2
    have value : (c.toNat + 32) % 256 = 0 := congrArg UInt8.toNat zero
    omega
  · exact notNul

/-- The array of the installation id that `parseSetInstallationId` writes, unless it returns at
once. -/
def writtenId (client : Client) (installationId : Option CString) : Option (List Byte) :=
  match installationId.filter (·.bytes ≠ []) with
  | some id =>
      if sameIgnoringCase (CString.ofMemory client.installationId) id INSTALLATION_ID_MAX_LEN then
        none
      else some ((strncpy client.installationId id INSTALLATION_ID_MAX_LEN).map tolower)
  | none =>
      if stringOf client.installationId = [] then none
      else some (memset client.installationId INSTALLATION_ID_MAX_LEN)

/-- An id that is not empty is not empty where it is copied to either. -/
theorem stringOf_lowerCase (array : List Byte) {id : CString} (some : id.bytes ≠ []) :
    stringOf ((strncpy array id INSTALLATION_ID_MAX_LEN).map tolower) ≠ [] := by
  obtain ⟨c, rest, starts⟩ := List.exists_cons_of_ne_nil some
  have notNul : tolower c ≠ Byte.nul :=
    tolower_ne_nul (CString.ne_nul (starts ▸ List.mem_cons_self ..))
  rw [strncpy, starts, List.cons_append, List.take_succ_cons, SimpleJson.overwrite,
    List.cons_append, List.map_cons]
  change List.takeWhile (· ≠ Byte.nul) (tolower c :: _) ≠ []
  rw [List.takeWhile_cons_of_pos (by simpa using notNul)]
  exact List.cons_ne_nil _ _

section Calls

variable {assign : CString → CString} {device : Device}

/-- Where `parseSetInstallationId` writes an id, the client has no object id, or it happens to have
the one that is assigned to that id. -/
def SetsPairedId (assign : CString → CString) (client : Client)
    (installationId : Option CString) : Prop :=
  stringOf client.installationObjectId = [] ∨
    ∀ array, writtenId client installationId = some array → stringOf array ≠ [] ∧
      stringOf client.installationObjectId = (assign (CString.ofMemory array)).bytes

/-- **Exactly then the pair is kept.** -/
theorem setInstallationId_pairs_iff (outside : Outside) (installationId : Option CString)
    (paired : Paired assign device.client)
    (stores : ∀ exchange ∈ (device.setInstallationId outside installationId).2,
      exchange.Stores assign) :
    SetsPairedId assign device.client installationId ↔
      Paired assign (device.setInstallationId outside installationId).1.client := by
  rw [SetsPairedId, writtenId]
  rw [Device.setInstallationId] at stores ⊢
  dsimp only at stores ⊢
  cases given : installationId.filter (·.bytes ≠ []) with
  | some id =>
      rw [given] at stores
      dsimp only at stores ⊢
      by_cases same : sameIgnoringCase (CString.ofMemory device.client.installationId) id
          INSTALLATION_ID_MAX_LEN
      · rw [if_pos same, if_pos same]
        exact iff_of_true (Or.inr fun array written => nomatch written) paired
      · rw [if_neg same] at stores
        rw [if_neg same, if_neg same]
        have some : stringOf ((strncpy device.client.installationId id
            INSTALLATION_ID_MAX_LEN).map tolower) ≠ [] :=
          stringOf_lowerCase _ (by simpa using (Option.filter_eq_some_iff.mp given).2)
        generalize (strncpy device.client.installationId id
          INSTALLATION_ID_MAX_LEN).map tolower = array at *
        constructor
        · intro sets
          have paired' : Paired assign { device.client with installationId := array } :=
            sets.imp_right fun pairs => pairs array rfl
          exact (getInstallation_pairs paired' stores).1
        · -- with both ids there is no request, and the object id stays
          intro paired'
          by_cases none : stringOf device.client.installationObjectId = []
          · exact Or.inl none
          · rw [getInstallation, if_pos ⟨none, some⟩] at paired'
            refine Or.inr fun _ written => ?_
            cases written
            exact paired'.resolve_left none
  | none =>
      dsimp only
      by_cases empty : stringOf device.client.installationId = []
      · rw [if_pos empty, if_pos empty]
        exact iff_of_true (Or.inr fun array written => nomatch written) paired
      · rw [if_neg empty, if_neg empty]
        have cleared := stringOf_memset device.client.installationId INSTALLATION_ID_MAX_LEN
        constructor
        · rintro (none | pairs)
          · exact Or.inl none
          · exact absurd cleared (pairs _ rfl).1
        · rintro (none | ⟨some, -⟩)
          · exact Or.inl none
          · exact absurd cleared some

/-! ## Requests -/

/-- What a call that requests the installation meets, other than one that sets the id. -/
def ApiCall.requests : ApiCall → Option Outside
  | .setSessionToken outside _ => some outside
  | .sendRequest outside _ _ _ => some outside
  | .startPushService outside _ _ => some outside
  | _ => none

/-- A call that requests the installation keeps the pair, and the id where there is one. -/
theorem requests_pairs {call : ApiCall} {outside : Outside}
    (requests : call.requests = some outside) (paired : Paired assign device.client)
    (stores : ∀ exchange ∈ (apiStep device call).2, exchange.Stores assign) :
    Paired assign (apiStep device call).1.client ∧
      (stringOf (apiStep device call).1.client.installationId =
          stringOf device.client.installationId ∨
        stringOf (apiStep device call).1.client.installationId =
          neededId outside device.client) := by
  cases call with
  | setSessionToken outside' sessionToken =>
      cases requests
      rw [apiStep, Device.setSessionToken] at stores ⊢
      dsimp only at stores ⊢
      cases given : sessionToken.filter (·.bytes ≠ []) with
      | some token =>
          rw [given] at stores
          dsimp only at stores ⊢
          split
          · exact ⟨paired, Or.inl rfl⟩
          · rename_i differs
            rw [if_neg differs] at stores
            have paired' : Paired assign { device.client with
                sessionToken := strncpy device.client.sessionToken token SESSION_TOKEN_MAX_LEN } :=
              paired
            obtain ⟨pairs, id⟩ := getInstallation_pairs paired' fun exchange member =>
              stores exchange (List.mem_append_left _ member)
            exact ⟨pairs, Or.inr id⟩
      | none =>
          dsimp only
          split
          · exact ⟨paired, Or.inl rfl⟩
          · exact ⟨paired, Or.inl rfl⟩
  | sendRequest outside' httpVerb httpPath httpRequestBody =>
      cases requests
      obtain ⟨pairs, id⟩ := getInstallation_pairs paired fun exchange member =>
        stores exchange (List.mem_append_left _ member)
      exact ⟨pairs, Or.inr id⟩
  | startPushService outside' socketHandle send =>
      cases requests
      obtain ⟨pairs, id⟩ := getInstallation_pairs paired stores
      exact ⟨pairs, Or.inr id⟩
  | _ => cases requests

theorem loadClientState_objectId (flash : Flash) (client : Client) :
    (loadClientState flash client).installationObjectId = client.installationObjectId := by
  rw [loadClientState]
  split
  · rfl
  · rfl

/-- A call that neither requests the installation nor sets the id keeps the pair. -/
theorem others_pair {call : ApiCall} (requests : call.requests = none)
    (sets : ∀ outside installationId, call ≠ .setInstallationId outside installationId)
    (paired : Paired assign device.client) : Paired assign (apiStep device call).1.client := by
  cases call with
  | parseInitialize applicationId clientKey osVersion =>
      refine Or.inl ?_
      rw [apiStep, parseInitialize, loadClientState_objectId]
      exact stringOf_memset (zeros OBJECT_ID_MAX_LEN) OBJECT_ID_MAX_LEN
  | setInstallationId outside installationId => exact absurd rfl (sets outside installationId)
  | stopPushService => exact paired
  | setPushCallback callback => exact paired
  | processNextPushNotification stray reads isPingTime send save =>
      rw [apiStep, Device.processNextPushNotification]
      dsimp only
      split
      · split
        · exact paired
        · exact paired
      · exact paired
  | _ => cases requests

end Calls

/-! ## Runs -/

/-- The identity behind a call: the ids are paired, so without an installation id there is no object
id, and a request for a client without an installation id leaves it so, or with a new one. -/
structure KeepsIdentity (assign : CString → CString) (t : ApiTransition) : Prop where
  paired : Paired assign t.after.client
  new : ∀ outside, t.input.requests = some outside →
    stringOf t.before.client.installationId = [] →
    stringOf t.after.client.installationId = [] ∨
      stringOf t.after.client.installationId = newInstallationId outside.rand

/-- If the call sets the id, it sets a paired one. -/
def SetsPaired (assign : CString → CString) (t : ApiTransition) : Prop :=
  ∀ outside installationId, t.input = .setInstallationId outside installationId →
    SetsPairedId assign t.before.client installationId

theorem setsPaired_iff {assign : CString → CString} {device : Device}
    (paired : Paired assign device.client) {call : ApiCall}
    (stores : ∀ exchange ∈ (apiStep device call).2, exchange.Stores assign) :
    SetsPaired assign (fire apiStep device call) ↔
      KeepsIdentity assign (fire apiStep device call) := by
  by_cases sets : ∃ outside installationId, call = .setInstallationId outside installationId
  · obtain ⟨outside, installationId, rfl⟩ := sets
    have pairs_iff := setInstallationId_pairs_iff outside installationId paired stores
    constructor
    · intro sets
      exact ⟨pairs_iff.mp (sets outside installationId rfl), fun _ requests => nomatch requests⟩
    · rintro ⟨paired', -⟩ outside' installationId' same
      cases same
      exact pairs_iff.mpr paired'
  · have notSets : ∀ outside installationId, call ≠ .setInstallationId outside installationId :=
      fun outside installationId same => sets ⟨outside, installationId, same⟩
    refine iff_of_true (fun outside installationId same =>
      absurd same (notSets outside installationId)) ?_
    cases requests : call.requests with
    | none =>
        exact ⟨others_pair requests notSets paired,
          fun _ some => nomatch requests.symm.trans some⟩
    | some outside =>
        obtain ⟨paired', id⟩ := requests_pairs requests paired stores
        refine ⟨paired', fun outside' same empty => ?_⟩
        obtain rfl : outside = outside' := Option.some.inj (requests.symm.trans same)
        refine id.imp (fun same => same.trans empty) fun needed => ?_
        exact needed.trans (if_pos empty)

/-- The server answers the requests of a run with these documents, and is right. -/
def Truthful (assign : CString → CString) (document : Exchange → Document) (device : Device)
    (calls : List ApiCall) : Prop :=
  ∀ t ∈ run apiStep device calls, ∀ exchange ∈ t.output,
    exchange.Agrees assign (document exchange)

/-- The client takes the ids of these documents whole, or not at all. -/
def ReadsWhole (document : Exchange → Document) (t : ApiTransition) : Prop :=
  ∀ exchange ∈ t.output, exchange.Reads (document exchange)

/-- **When the identity stays paired.** While the server is right and the client takes the ids of
its answers whole, the ids are paired after every call of a run exactly if every call that sets the
id sets a paired one. -/
theorem identity_stays_paired_iff (assign : CString → CString) (document : Exchange → Document)
    (flash : Flash) (applicationId clientKey : CString) (osVersion : Option (List Byte))
    (calls : List ApiCall)
    (agrees : Truthful assign document
      (parseInitialize flash applicationId clientKey osVersion) calls)
    (reads : ∀ t ∈ run apiStep (parseInitialize flash applicationId clientKey osVersion) calls,
      ReadsWhole document t) :
    (∀ t ∈ run apiStep (parseInitialize flash applicationId clientKey osVersion) calls,
        SetsPaired assign t) ↔
      ∀ t ∈ run apiStep (parseInitialize flash applicationId clientKey osVersion) calls,
        KeepsIdentity assign t := by
  have first : Paired assign (parseInitialize flash applicationId clientKey osVersion).client := by
    refine Or.inl ?_
    rw [parseInitialize, loadClientState_objectId]
    exact stringOf_memset (zeros OBJECT_ID_MAX_LEN) OBJECT_ID_MAX_LEN
  have stores : ∀ t ∈ run apiStep (parseInitialize flash applicationId clientKey osVersion) calls,
      ∀ exchange ∈ t.output, exchange.Stores assign := fun t member exchange asked =>
    (agrees t member exchange asked).stores (reads t member exchange asked)
  exact run_forall_iff_promised apiStep (fun device => Paired assign device.client)
    (fun t => ∀ exchange ∈ t.output, exchange.Stores assign) (SetsPaired assign)
    (KeepsIdentity assign) (fun device call paired stores => setsPaired_iff paired stores)
    (fun device call paired stores sets => ((setsPaired_iff paired stores).mp sets).paired)
    calls first stores

/-! ## Two servers -/

/-- The text around an id determines the id, if it is not cut off. -/
theorem content_injective {size : Nat} {front back : List Byte} (noNul : Byte.nul ∉ front ++ back)
    {id id' : CString} (short : (front ++ id'.bytes ++ back).length < size - 1)
    (same : CString.ofMemory (snprintf size (front ++ id.bytes ++ back)) =
      CString.ofMemory (snprintf size (front ++ id'.bytes ++ back))) : id = id' := by
  have whole : ∀ id : CString, (CString.ofMemory (snprintf size
      (front ++ id.bytes ++ back))).bytes = (front ++ id.bytes ++ back).take (size - 1) := by
    intro id
    refine CString.ofMemory_bytes fun member => ?_
    have member := List.mem_of_mem_take member
    rw [List.mem_append, List.mem_append] at member
    rw [List.mem_append, not_or] at noNul
    rcases member with (member | member) | member
    · exact noNul.1 member
    · exact id.noNul member
    · exact noNul.2 member
  have same := congrArg CString.bytes same
  rw [whole, whole, List.take_of_length_le (Nat.le_of_lt short)] at same
  have length := congrArg List.length same
  rw [List.length_take] at length
  rw [List.take_of_length_le (by omega)] at same
  exact CString.ext_bytes (List.append_cancel_left (List.append_cancel_right same))

section Example

/-- A server whose object ids are the installation ids behind an `o`. -/
def exampleAssign (id : CString) : CString := CString.ofMemory (ascii "o" ++ id.bytes)

def installationA : CString := CString.literal "a"

/-- The members of the installation, and of the answer to the request that creates it. -/
def fetchedMembers : Members :=
  .more [] (.plain "objectId") [] [] (.string (.plain "oa")) []
    (.last [] (.plain "installationId") [] [] (.string (.plain "a")) [])

def createdMembers : Members := .last [] (.plain "objectId") [] [] (.string (.plain "oa")) []

def queryDocument (results : Json.Array) : Document :=
  ⟨[], .of (.last [] (.plain "results") [] [] (.array results) []), []⟩

def createdA : Document := ⟨[], .of createdMembers, []⟩

def fetchedA : Document := ⟨[], .of fetchedMembers, []⟩

def foundNone : Document := queryDocument (.empty [])

def foundA : Document := queryDocument (.of (.last [] (.object (.of fetchedMembers)) []))

/-- The document arrives at once, behind the first line of a response. -/
def answeringWith (document : Document) : Answer :=
  ⟨arriving (ascii "HTTP/1.1 200 OK\r\n\r\n" ++ document.text), noStray, noStray, noStray⟩

/-- A request for an installation that is answered with this document. -/
def answered (httpVerb : String) (httpPath : CString) (httpRequestBody : Option CString)
    (document : Document) : Exchange :=
  ⟨CString.literal httpVerb, httpPath, httpRequestBody, answeringWith document,
    ⟨0, 200, some document.string⟩⟩

def querying (id : CString) (document : Document) : Exchange :=
  answered "GET" installationsPath (some (queryContent id.bytes)) document

def creating (document : Document) : Exchange :=
  answered "POST" installationsPath (some (createContent installationA.bytes)) document

def fetching (document : Document) : Exchange :=
  answered "GET" (objectContent (exampleAssign installationA).bytes) none document

/-- A request of the application that fails. -/
def posted : Exchange :=
  ⟨CString.literal "POST", CString.literal "/1/classes/A", none, unanswered, ⟨-1, -1, none⟩⟩

theorem answered_passes {httpVerb : String} {httpPath : CString}
    {httpRequestBody : Option CString} {document : Document} (body : CString)
    (same : (answered httpVerb httpPath httpRequestBody document).reply.httpResponseBody =
      some body) : body.bytes <+: document.text := by
  obtain rfl : document.string = body := Option.some.inj same
  exact List.prefix_rfl

/-- What a query finds is right if the first of its results is. -/
theorem querying_agrees {assign : CString → CString} {id : CString} {document : Document}
    (short : (ascii "where=%7b%22installationId%22%3a+%22" ++ id.bytes ++
      ascii "%22%7d").length < 148)
    (states : ∀ installation, firstInstallation document = some installation →
      States objectIdKey installation (assign id) ∧ States installationIdKey installation id) :
    (querying id document).Agrees assign document where
  passes := fun body same _ => answered_passes body same
  created := fun _ verb =>
    absurd (show CString.literal "GET" = CString.literal "POST" from verb) (by decide)
  queried := by
    intro id' _ _ body _
    obtain rfl : id' = id :=
      content_injective (by decide) short (Option.some.inj body).symm
    exact states
  fetched := fun _ _ _ body => nomatch body

theorem states_of_hasText {key : PlainKey} {object : Object} {limit : Nat} {id : CString}
    (has : HasText key object limit id.bytes) : States key object id := by
  obtain ⟨⟨body, isValue, text⟩, -, -⟩ := has
  intro body' same _
  cases isValue.symm.trans same
  exact text

/-- An answer in which the installation of this id comes first. -/
theorem QueryResult.agrees (q : QueryResult) {assign : CString → CString} {id : CString}
    (short : (ascii "where=%7b%22installationId%22%3a+%22" ++ id.bytes ++
      ascii "%22%7d").length < 148)
    (objectId : q.objectId = (assign id).bytes) (installationId : q.installationId = id.bytes) :
    (querying id q.document).Agrees assign q.document := by
  refine querying_agrees short fun installation isFirst => ?_
  obtain rfl : q.installation = installation :=
    Option.some.inj (q.isFirst.symm.trans isFirst)
  exact ⟨states_of_hasText (objectId ▸ q.hasObjectId),
    states_of_hasText (installationId ▸ q.hasInstallationId)⟩

theorem fetchedMembers_value :
    objectValue objectIdKey.bytes (.of fetchedMembers) = some (.string (.plain "oa")) ∧
      objectValue installationIdKey.bytes (.of fetchedMembers) = some (.string (.plain "a")) := by
  rw [objectValue, objectValue, fetchedMembers, memberValue, if_pos (by decide), memberValue,
    if_neg (by decide), memberValue, if_pos (by decide)]
  exact ⟨rfl, rfl⟩

theorem queryingNone_agrees : (querying installationA foundNone).Agrees exampleAssign foundNone :=
  querying_agrees (by decide) fun _ isFirst => nomatch isFirst

/-- The result of the query with its two ids. -/
def resultA : QueryResult where
  document := foundA
  elements := .last [] (.object (.of fetchedMembers)) []
  before := []
  installation := .of fetchedMembers
  objectId := ascii "oa"
  installationId := ascii "a"
  results := by rw [foundA, queryDocument, objectValue, memberValue, if_pos (by decide)]
  first := rfl
  hasObjectId := ⟨⟨.plain "oa", fetchedMembers_value.1, by decide⟩, forall_of_all (by decide),
    by decide⟩
  hasInstallationId := ⟨⟨.plain "a", fetchedMembers_value.2, by decide⟩,
    forall_of_all (by decide), by decide⟩

theorem queryingA_agrees : (querying installationA foundA).Agrees exampleAssign foundA :=
  resultA.agrees (by decide) (by decide) (by decide)

theorem creatingA_agrees : (creating createdA).Agrees exampleAssign createdA where
  passes := fun body same _ => answered_passes body same
  created := by
    intro id _ _ body _
    obtain rfl : id = installationA :=
      content_injective (by decide) (by decide) (Option.some.inj body).symm
    have has : HasText objectIdKey createdA.object OBJECT_ID_MAX_LEN (ascii "oa") := by
      refine ⟨⟨.plain "oa", ?_, by decide⟩, forall_of_all (by decide), by decide⟩
      rw [createdA, createdMembers, objectValue, memberValue, if_pos (by decide)]
    exact states_of_hasText has
  queried := fun _ verb => absurd verb (by decide)
  fetched := fun _ verb => absurd verb (by decide)

theorem fetchingA_agrees : (fetching fetchedA).Agrees exampleAssign fetchedA where
  passes := fun body same _ => answered_passes body same
  created := fun _ verb => absurd verb (by decide)
  queried := fun _ _ _ body => nomatch body
  fetched := by
    intro objectId _ path _ _
    have same : CString.ofMemory (snprintf 149 (ascii "/1/installations/" ++
          objectId.bytes ++ [])) =
        CString.ofMemory (snprintf 149 (ascii "/1/installations/" ++
          (exampleAssign installationA).bytes ++ [])) := by
      rw [List.append_nil, List.append_nil]
      exact path.symm
    obtain rfl : objectId = exampleAssign installationA :=
      content_injective (by decide) (by decide) same
    exact ⟨installationA, rfl, states_of_hasText resultA.hasObjectId,
      states_of_hasText resultA.hasInstallationId⟩

theorem posted_agrees (document : Document) : posted.Agrees exampleAssign document where
  passes := fun _ body => nomatch body
  created := fun _ _ path => absurd path (by decide)
  queried := fun _ verb => absurd verb (by decide)
  fetched := fun _ verb => absurd verb (by decide)

theorem posted_reads (document : Document) : posted.Reads document where
  created := fun _ _ path => absurd path (by decide)
  queried := fun _ verb => absurd verb (by decide)
  fetched := fun _ verb => absurd verb (by decide)

theorem resultA_found : resultA.Found :=
  ⟨ascii "[\x7b\"objectId\":\"oa\",\"installationId\":\"a\"\x7d]", by decide +kernel, by decide,
    ⟨ascii "oa", by decide +kernel, by decide⟩, ⟨ascii "a", by decide +kernel, by decide⟩⟩

theorem queryingA_reads : (querying installationA foundA).Reads foundA where
  created := fun _ verb => absurd verb (by decide)
  queried := fun _ _ _ _ _ _ isFirst => ⟨resultA.installation, resultA_found.takes rfl isFirst⟩
  fetched := fun _ _ _ body => nomatch body

/-- The documents of a server that finds this for every query. -/
def answers (found : Document) (exchange : Exchange) : Document :=
  if exchange.httpVerb = CString.literal "POST" then createdA
  else if exchange.httpPath = installationsPath then found
  else fetchedA

theorem answers_querying (found : Document) (id : CString) :
    answers found (querying id found) = found := by
  have verb : (querying id found).httpVerb ≠ CString.literal "POST" :=
    show CString.literal "GET" ≠ CString.literal "POST" by decide
  rw [answers, if_neg verb]
  exact if_pos rfl

theorem answers_creating (found : Document) : answers found (creating createdA) = createdA :=
  if_pos rfl

theorem answers_fetching (found : Document) : answers found (fetching fetchedA) = fetchedA := by
  rw [answers, if_neg (by decide), if_neg (by decide)]

/-- What holds of all requests sent in a run. -/
theorem forall_of_outputs {Holds : Exchange → Prop} {calls : List ApiCall}
    {outputs : List (List Exchange)}
    (sent : (run apiStep exampleStart calls).map (·.output) = outputs)
    (holds : ∀ exchange ∈ outputs.flatten, Holds exchange) :
    ∀ t ∈ run apiStep exampleStart calls, ∀ exchange ∈ t.output, Holds exchange := by
  intro t member exchange asked
  refine holds exchange (List.mem_flatten.mpr ⟨t.output, ?_, asked⟩)
  rw [← sent]
  exact List.mem_map.mpr ⟨t, member, rfl⟩

/-- The id is set and found, and a request follows. -/
def foundRun : List ApiCall :=
  [setting installationA (answeringWith foundA) unanswered, posting unanswered]

/-- The installation of an id is found, and requests go on with it. -/
theorem identity_stays_paired_example :
    Truthful exampleAssign (answers foundA) exampleStart foundRun ∧
      ∀ t ∈ run apiStep exampleStart foundRun, KeepsIdentity exampleAssign t := by
  have sent : (run apiStep exampleStart foundRun).map (·.output) =
      [[querying installationA foundA], [posted]] := by
    decide +kernel
  have agrees : Truthful exampleAssign (answers foundA) exampleStart foundRun :=
    forall_of_outputs sent (by
      simpa [answers_querying] using ⟨queryingA_agrees, posted_agrees _⟩)
  have reads : ∀ t ∈ run apiStep exampleStart foundRun, ReadsWhole (answers foundA) t :=
    forall_of_outputs sent (by
      simpa [answers_querying] using ⟨queryingA_reads, posted_reads _⟩)
  refine ⟨agrees, (identity_stays_paired_iff exampleAssign _ _ _ _ _ _ agrees reads).mp ?_⟩
  rw [foundRun, run_cons, run_cons, run_nil, List.forall_mem_cons, List.forall_mem_singleton]
  constructor
  · intro outside installationId same
    exact Or.inl (by decide +kernel)
  · intro outside installationId same
    cases same

/-- Another id is set. -/
def changingRun : List ApiCall :=
  [setting installationA (answeringWith foundNone) (answeringWith createdA),
    setting (CString.literal "b") unanswered unanswered]

/-- The id is cleared, and a request follows. -/
def clearingRun : List ApiCall :=
  [setting installationA (answeringWith foundA) unanswered,
    .setInstallationId (meeting unanswered unanswered) none, posting (answeringWith fetchedA)]

/-- A server that assigns an object id to this id. -/
def assignAB (id : CString) : CString :=
  if id = CString.literal "ab" then CString.literal "o" else CString.literal "x"

/-- The installation is found, with one character of its id behind the 399th byte. -/
def cutRun : List ApiCall :=
  [setting (CString.literal "ab") (answeringWith (paddedDocument 356)) unanswered]

/-- Another id keeps the object id of the one before, an id that was cleared is brought back, and
of an id that is cut off the rest is taken. -/
theorem identity_stays_paired_counterexample :
    (Truthful exampleAssign (answers foundNone) exampleStart changingRun ∧
        ¬ ∀ t ∈ run apiStep exampleStart changingRun, KeepsIdentity exampleAssign t) ∧
      Truthful exampleAssign (answers foundA) exampleStart clearingRun ∧
        (¬ ∀ t ∈ run apiStep exampleStart clearingRun, KeepsIdentity exampleAssign t) ∧
        stringOf (final apiStep exampleStart (clearingRun.take 2)).client.installationId = [] ∧
        stringOf (final apiStep exampleStart clearingRun).client.installationId = ascii "a" ∧
      Truthful assignAB (answers (paddedDocument 356)) exampleStart cutRun ∧
        ¬ ∀ t ∈ run apiStep exampleStart cutRun, KeepsIdentity assignAB t := by
  have changing : (run apiStep exampleStart changingRun).map (·.output) =
        [[querying installationA foundNone, creating createdA], []] ∧
      ¬ Paired exampleAssign (final apiStep exampleStart changingRun).client := by
    decide +kernel
  have clearing : (run apiStep exampleStart clearingRun).map (·.output) =
        [[querying installationA foundA], [], [fetching fetchedA, posted]] ∧
      stringOf (final apiStep exampleStart (clearingRun.take 2)).client.installationId = [] ∧
        stringOf (final apiStep exampleStart clearingRun).client.installationId = ascii "a" := by
    decide +kernel
  have cutting : (run apiStep exampleStart cutRun).map (·.output) =
        [[querying (CString.literal "ab") (paddedDocument 356)]] ∧
      ¬ Paired assignAB (final apiStep exampleStart cutRun).client := by
    decide +kernel
  refine ⟨⟨forall_of_outputs changing.1 ?_, ?_⟩, forall_of_outputs clearing.1 ?_, ?_,
    clearing.2.1, clearing.2.2, forall_of_outputs cutting.1 ?_, ?_⟩
  · simpa [answers_querying, answers_creating] using ⟨queryingNone_agrees, creatingA_agrees⟩
  · intro keeps
    have paired := (keeps _ (fire_final_mem apiStep
      [setting installationA (answeringWith foundNone) (answeringWith createdA)]
      (setting (CString.literal "b") unanswered unanswered) exampleStart)).paired
    rw [fire_final_after] at paired
    exact changing.2 paired
  · simpa [answers_querying, answers_fetching] using
      ⟨queryingA_agrees, fetchingA_agrees, posted_agrees _⟩
  · intro keeps
    have new := (keeps _ (fire_final_mem apiStep (clearingRun.take 2)
      (posting (answeringWith fetchedA)) exampleStart)).new _ rfl
    have whole : clearingRun.take 2 ++ [posting (answeringWith fetchedA)] = clearingRun := rfl
    rw [fire_before, fire_final_after, whole, clearing.2.2] at new
    rcases new clearing.2.1 with same | same
    · exact absurd same (by decide)
    · exact absurd same (by decide)
  · have agrees : (querying (CString.literal "ab") (paddedDocument 356)).Agrees assignAB
        (paddedDocument 356) :=
      (paddedResult 356).agrees (by decide) (by decide) (by decide)
    simpa [answers_querying] using agrees
  · intro keeps
    have paired := (keeps _ (fire_final_mem apiStep []
      (setting (CString.literal "ab") (answeringWith (paddedDocument 356)) unanswered)
      exampleStart)).paired
    rw [fire_final_after] at paired
    exact cutting.2 paired

end Example

end ParseEmbedded.Rtos
