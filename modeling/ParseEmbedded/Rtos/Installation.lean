import ParseEmbedded.Rtos.ClientState
import ParseEmbedded.Rtos.Exchange

/-!
# Installations on an RTOS

`installation.c`: the callbacks of the three requests for an installation, `createInstallation`
and `getInstallation`. What the network and the scanner answer is an input, one `Answer` for each
request; every request is recorded as an `Exchange` with its reply.

Each function has its lemma on what it keeps of `Client.WellFormed`, the zeros at the ends of the
arrays.
-/

set_option autoImplicit false

namespace ParseEmbedded.Rtos

open SimpleJson

/-- `memset(array, 0, sizeof(array))` for an array with room for `n` characters and a zero. -/
def memset (array : List Byte) (n : Nat) : List Byte := overwrite array (zeros n)

/-! ## Requests for an installation -/

/-- What a request meets: the network, and what the scanner finds if it leaves its text. -/
structure Answer where
  network : Network
  results : Stray
  objectId : Stray
  installationId : Stray
  deriving DecidableEq

/-- A request, with what it meets and the arguments of its callback. -/
structure Exchange where
  httpVerb : CString
  httpPath : CString
  httpRequestBody : Option CString
  answer : Answer
  reply : Reply
  deriving DecidableEq

/-- What a call meets: the C library, the values of `rand`, the answers to the requests it may
send, and the course of its save. -/
structure Outside where
  libc : Libc
  rand : Nat → Nat
  get : Answer
  create : Answer
  session : Answer
  associate : Answer
  request : Answer
  save : Course

/-- `parseSendRequestInternal`, with what its callback is called with. -/
def Outside.send (outside : Outside) (client : Client) (httpVerb httpPath : CString)
    (httpRequestBody : Option CString) (addInstallationHeader : Bool) (answer : Answer) :
    Exchange where
  httpVerb
  httpPath
  httpRequestBody
  answer
  reply := parseSendRequestInternal outside.libc client httpPath httpVerb httpRequestBody
    addInstallationHeader answer.network

/-- `(error == 0) && (httpStatus >= 200 && httpStatus < 300)` -/
def Reply.Succeeds (reply : Reply) : Prop :=
  reply.error = 0 ∧ 200 ≤ reply.httpStatus ∧ reply.httpStatus < 300

instance (reply : Reply) : Decidable reply.Succeeds := inferInstanceAs (Decidable (_ ∧ _ ∧ _))

/-- A lookup in a body that may be missing. -/
def lookUpBody (stray : Stray) (httpResponseBody : Option CString) (key : String)
    (array : List Byte) (size : Nat) : Nat × List Byte :=
  match httpResponseBody with
  | some body => lookUp stray body (CString.literal key) array size
  | none => (0, array)

/-- What a lookup in a body stores does not depend on the array. -/
theorem lookUpBody_onto (stray : Stray) (httpResponseBody : Option CString) (key : String)
    (array : List Byte) (size : Nat) :
    (lookUpBody stray httpResponseBody key array size).2 =
      overwrite array (lookUpBody stray httpResponseBody key [] size).2 := by
  cases httpResponseBody with
  | none => rfl
  | some body => exact congrArg Prod.snd (lookUp_onto stray body (CString.literal key) array size)

/-! ## The callbacks -/

def Client.clearObjectId (client : Client) : Client :=
  { client with installationObjectId := memset client.installationObjectId OBJECT_ID_MAX_LEN }

/-- The object id of an installation is taken. -/
def Client.takeObjectId (client : Client) (answer : Answer) (installation : Option CString) :
    Client :=
  { client with
    installationObjectId := (lookUpBody answer.objectId installation "objectId"
      client.installationObjectId (OBJECT_ID_MAX_LEN + 1)).2 }

/-- The installation id of an installation is taken. -/
def Client.takeInstallationId (client : Client) (answer : Answer)
    (installation : Option CString) : Client :=
  { client with
    installationId := (lookUpBody answer.installationId installation "installationId"
      client.installationId (INSTALLATION_ID_MAX_LEN + 1)).2 }

def createInstallationCallback (client : Client) (answer : Answer) (reply : Reply) : Client :=
  if reply.Succeeds then client.takeObjectId answer reply.httpResponseBody
  else client.clearObjectId

def getInstallationCallback (client : Client) (answer : Answer) (reply : Reply) : Client :=
  if reply.Succeeds then
    (client.takeObjectId answer reply.httpResponseBody).takeInstallationId answer
      reply.httpResponseBody
  else client.clearObjectId

/-- The first of the results, in an array of 400 bytes, if it is an object. -/
def firstResult (answer : Answer) (httpResponseBody : Option CString) : Option CString :=
  let (status, queryResults) := lookUpBody answer.results httpResponseBody "results" (zeros 399) 400
  if status ≠ 0 ∧ queryResults.getD 1 Byte.nul = Byte.openBrace then
    some (CString.ofMemory (queryResults.drop 1))
  else none

def getInstallationByIdCallback (client : Client) (answer : Answer) (reply : Reply) : Client :=
  if reply.Succeeds then
    match firstResult answer reply.httpResponseBody with
    | some installation =>
        (client.takeObjectId answer (some installation)).takeInstallationId answer
          (some installation)
    | none => client
  else client.clearObjectId

/-! ## Creating and getting an installation -/

def hexDigit (n : Nat) : Byte :=
  if n % 16 < 10 then 48 + UInt8.ofNat (n % 16) else 87 + UInt8.ofNat (n % 16)

/-- The digits of a new installation id, with the dashes between them. -/
def newInstallationId (rand : Nat → Nat) : List Byte :=
  let digits (first count : Nat) := (List.range count).map fun i => hexDigit (rand (first + i))
  digits 0 8 ++ ascii "-" ++ digits 8 4 ++ ascii "-" ++ digits 12 4 ++ ascii "-" ++
    digits 16 4 ++ ascii "-" ++ digits 20 12

def createNewInstallationId (rand : Nat → Nat) (client : Client) : Client :=
  { client with
    installationId := snprintfTo client.installationId (INSTALLATION_ID_MAX_LEN + 1)
      (newInstallationId rand) }

/-- The `content` of the request that creates an installation. -/
def createContent (installationId : List Byte) : CString :=
  CString.ofMemory (snprintf 119 (ascii "\x7b\"installationId\": \"" ++ installationId ++
    ascii "\", \"deviceType\": \"embedded\", \"parseVersion\": \"1.0.0\"\x7d"))

/-- The path of the installation with an object id. -/
def objectContent (installationObjectId : List Byte) : CString :=
  CString.ofMemory (snprintf 149 (ascii "/1/installations/" ++ installationObjectId))

/-- The query for the installation with an id. -/
def queryContent (installationId : List Byte) : CString :=
  CString.ofMemory (snprintf 149 (ascii "where=%7b%22installationId%22%3a+%22" ++ installationId ++
    ascii "%22%7d"))

def installationsPath : CString := CString.literal "/1/installations"

section Get

variable (outside : Outside) (client : Client)

def createInstallation : Client × List Exchange :=
  if stringOf client.installationObjectId = [] then
    let client := if stringOf client.installationId = [] then
        createNewInstallationId outside.rand client
      else client
    let exchange := outside.send client (CString.literal "POST") installationsPath
      (some (createContent (stringOf client.installationId))) false outside.create
    (createInstallationCallback client outside.create exchange.reply, [exchange])
  else (client, [])

def getInstallation : Client × List Exchange :=
  if stringOf client.installationObjectId ≠ [] ∧ stringOf client.installationId ≠ [] then
    (client, [])
  else
    let (client, asked) : Client × List Exchange :=
      if stringOf client.installationObjectId ≠ [] then
        let exchange := outside.send client (CString.literal "GET")
          (objectContent (stringOf client.installationObjectId)) none false outside.get
        (getInstallationCallback client outside.get exchange.reply, [exchange])
      else if stringOf client.installationId ≠ [] then
        let exchange := outside.send client (CString.literal "GET") installationsPath
          (some (queryContent (stringOf client.installationId))) false outside.get
        (getInstallationByIdCallback client outside.get exchange.reply, [exchange])
      else (client, [])
    let (client, created) := createInstallation outside client
    (client, asked ++ created)

end Get

/-! ## Strings behind a store -/

theorem stringOf_overwrite {text : List Byte} (array : List Byte) (noNul : Byte.nul ∉ text) :
    stringOf (overwrite array (text ++ [Byte.nul])) = text := by
  rw [overwrite, List.append_assoc]
  exact CString.ofMemory_append_nul noNul _

theorem stringOf_memset (array : List Byte) (n : Nat) : stringOf (memset array n) = [] := by
  rw [memset, overwrite, zeros, List.replicate_succ]
  rfl

theorem hexDigit_ne_nul (n : Nat) : hexDigit n ≠ Byte.nul := by
  have digits : ∀ d : Fin 16, (if d.val < 10 then 48 + UInt8.ofNat d.val
      else 87 + UInt8.ofNat d.val) ≠ Byte.nul := by
    decide
  exact digits ⟨n % 16, Nat.mod_lt n (by decide)⟩

/-- A new installation id has 36 characters. -/
theorem newInstallationId_text (rand : Nat → Nat) :
    Byte.nul ∉ newInstallationId rand ∧ (newInstallationId rand).length = 36 := by
  have digits : ∀ first count,
      Byte.nul ∉ (List.range count).map fun i => hexDigit (rand (first + i)) := by
    intro first count member
    obtain ⟨i, -, same⟩ := List.mem_map.mp member
    exact hexDigit_ne_nul _ same
  have dash : Byte.nul ∉ ascii "-" := by decide
  constructor
  · simp only [newInstallationId, List.mem_append, not_or]
    exact ⟨⟨⟨⟨⟨⟨⟨⟨digits 0 8, dash⟩, digits 8 4⟩, dash⟩, digits 12 4⟩, dash⟩, digits 16 4⟩, dash⟩,
      digits 20 12⟩
  · have one : (ascii "-").length = 1 := by decide
    simp only [newInstallationId, List.length_append, List.length_map, List.length_range, one]

theorem stringOf_createNew (rand : Nat → Nat) (client : Client) :
    stringOf (createNewInstallationId rand client).installationId = newInstallationId rand := by
  obtain ⟨noNul, length⟩ := newInstallationId_text rand
  have whole : snprintf (INSTALLATION_ID_MAX_LEN + 1) (newInstallationId rand) =
      newInstallationId rand :=
    List.take_of_length_le (Nat.le_of_eq length)
  rw [createNewInstallationId, snprintfTo, whole]
  exact stringOf_overwrite _ noNul

/-! ## What is kept of the arrays -/

theorem Terminated.memset {n : Nat} {array : List Byte} (terminated : Terminated n array) :
    memset array n = zeros n := by
  have size : array.length = (zeros n).length := by
    rw [terminated.holdsString.length, zeros, List.length_replicate]
  rw [Rtos.memset, SimpleJson.overwrite, List.drop_eq_nil_of_le (Nat.le_of_eq size),
    List.append_nil]

theorem Terminated.lookUpBody {n size : Nat} {array : List Byte}
    (terminated : Terminated n array) (stray : Stray) (body : Option CString) (key : String)
    (some : 0 < size) (fits : size ≤ n + 1) :
    Terminated n (lookUpBody stray body key array size).2 := by
  cases body with
  | none => exact terminated
  | some body => exact terminated.lookUp stray body (CString.literal key) some fits

namespace Client.WellFormed

variable {client : Client} (wellFormed : client.WellFormed)

include wellFormed

theorem clearObjectId : client.clearObjectId.WellFormed := by
  refine { wellFormed with installationObjectId := ?_ }
  rw [Client.clearObjectId, wellFormed.installationObjectId.memset]
  exact zeros_terminated OBJECT_ID_MAX_LEN

theorem takeObjectId (answer : Answer) (installation : Option CString) :
    (client.takeObjectId answer installation).WellFormed :=
  { wellFormed with
    installationObjectId := wellFormed.installationObjectId.lookUpBody _ _ _
      (Nat.succ_pos _) (Nat.le_refl _) }

theorem takeInstallationId (answer : Answer) (installation : Option CString) :
    (client.takeInstallationId answer installation).WellFormed :=
  { wellFormed with
    installationId := wellFormed.installationId.lookUpBody _ _ _ (Nat.succ_pos _)
      (Nat.le_refl _) }

theorem createInstallationCallback (answer : Answer) (reply : Reply) :
    (createInstallationCallback client answer reply).WellFormed := by
  rw [Rtos.createInstallationCallback]
  split
  · exact wellFormed.takeObjectId answer _
  · exact wellFormed.clearObjectId

theorem getInstallationCallback (answer : Answer) (reply : Reply) :
    (getInstallationCallback client answer reply).WellFormed := by
  rw [Rtos.getInstallationCallback]
  split
  · exact (wellFormed.takeObjectId answer _).takeInstallationId answer _
  · exact wellFormed.clearObjectId

theorem getInstallationByIdCallback (answer : Answer) (reply : Reply) :
    (getInstallationByIdCallback client answer reply).WellFormed := by
  rw [Rtos.getInstallationByIdCallback]
  split
  · split
    · exact (wellFormed.takeObjectId answer _).takeInstallationId answer _
    · exact wellFormed
  · exact wellFormed.clearObjectId

theorem createNewInstallationId (rand : Nat → Nat) :
    (createNewInstallationId rand client).WellFormed :=
  { wellFormed with
    installationId := wellFormed.installationId.snprintfTo _ (Nat.le_refl _) }

theorem createInstallation (outside : Outside) :
    (createInstallation outside client).1.WellFormed := by
  rw [Rtos.createInstallation]
  split
  · refine createInstallationCallback ?_ _ _
    split
    · exact wellFormed.createNewInstallationId _
    · exact wellFormed
  · exact wellFormed

theorem getInstallation (outside : Outside) : (getInstallation outside client).1.WellFormed := by
  rw [Rtos.getInstallation]
  split
  · exact wellFormed
  · refine createInstallation ?_ outside
    split
    · exact wellFormed.getInstallationCallback _ _
    · split
      · exact wellFormed.getInstallationByIdCallback _ _
      · exact wellFormed

end Client.WellFormed

end ParseEmbedded.Rtos
