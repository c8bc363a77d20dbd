import ParseEmbedded.Library.Block
import ParseEmbedded.Unix.Request

/-!
# Strings put together by `strncat`

The address of a request and the payload of an installation are put together in a block whose size
is computed first. `parseSendRequestInternal` and `parseSetInstallationId` of `parse.c` do so by a
chain of `strncat`, each with a bound that is the size less the length so far. The sizes are `int`s,
and become `size_t`s where they are used.

A chain leaves as much of the whole text as the size has room for (`appendAll_text`), and stays in
that room with the zero behind it (`appendAll_writes`). So all depends on whether the size, as the
`size_t` that it becomes, is as large as it was meant to be (`Kept`).
-/

set_option autoImplicit false

namespace ParseEmbedded.Unix

open Push

/-! ## The source -/

/-- The sum of two `int`s wraps around. -/
def addInt (a b : Int) : Int := (a + b + 2147483648) % 4294967296 - 2147483648

/-- A string in a block of memory of this size, and the cells that have been written. -/
structure Assembly where
  size : Nat
  text : List Byte
  writes : List Extent
  deriving DecidableEq

/-- `calloc`: an empty string. -/
def Assembly.calloc (size : Nat) : Assembly := ⟨size, [], []⟩

/-- `strncat` stores what it appends, and a zero behind it. -/
def Assembly.append (s : Assembly) (source : List Byte) (count : Nat) : Assembly where
  size := s.size
  text := strncat s.text source count
  writes := s.writes ++ [⟨s.text.length, (source.take count).length + 1⟩]

/-- The size that is meant for the address. -/
def urlBytes (client : Client) (httpPath : CString) (query : Option CString) : Nat :=
  client.serverURL.length + (httpPath.length + 1) +
    (match query with
      | some requestBody => requestBody.length + 1
      | none => 0)

/-- `fullUrl` in `parseSendRequestInternal`. -/
def assembleUrl (word : WordSize) (client : Client) (httpPath : CString)
    (query : Option CString) : Assembly :=
  let urlSize := toInt (urlBytes client httpPath query)
  let left (url : Assembly) : Nat := toSizeT word (urlSize - url.text.length)
  let fullUrl := Assembly.calloc (toSizeT word (addInt urlSize 1))
  let fullUrl := fullUrl.append client.serverURL.bytes (left fullUrl)
  let fullUrl := fullUrl.append httpPath.bytes (left fullUrl)
  match query with
  | some requestBody =>
      let fullUrl := fullUrl.append (ascii "?") (left fullUrl)
      fullUrl.append requestBody.bytes (left fullUrl)
  | none => fullUrl

def payloadPrefix : List Byte := ascii "\x7b\"installationId\":\""

def payloadSuffix : List Byte := ascii "\",\"deviceType\":\"embedded\"\x7d"

/-- The size that is meant for the payload. -/
def payloadBytes (installationId : CString) : Nat :=
  payloadPrefix.length + installationId.length + (payloadSuffix.length + 1)

/-- `payload` in `parseSetInstallationId`. -/
def assemblePayload (word : WordSize) (installationId : CString) : Assembly :=
  let payloadLength := toInt (payloadBytes installationId)
  let left (payload : Assembly) : Nat := toSizeT word (payloadLength - payload.text.length)
  let payload := Assembly.calloc (toSizeT word payloadLength)
  let payload := payload.append payloadPrefix (left payload)
  let payload := payload.append installationId.bytes (left payload)
  payload.append payloadSuffix (left payload)

/-- It is the address of the request. -/
theorem assembleUrl_text (word : WordSize) (client : Client) (httpPath : CString)
    (query : Option CString) :
    (assembleUrl word client httpPath query).text = buildUrl word client httpPath query := by
  cases query with
  | none => rfl
  | some requestBody => rfl

/-! ## Chains of appends -/

/-- A chain of `strncat`, each with the size less the length so far for a bound. -/
def appendAll (word : WordSize) (size : Int) (s : Assembly) (parts : List (List Byte)) : Assembly :=
  parts.foldl (fun s part => s.append part (toSizeT word (size - s.text.length))) s

/-- The parts of the address. -/
def urlParts (client : Client) (httpPath : CString) (query : Option CString) : List (List Byte) :=
  [client.serverURL.bytes, httpPath.bytes] ++
    (match query with
      | some requestBody => [ascii "?", requestBody.bytes]
      | none => [])

theorem assembleUrl_eq (word : WordSize) (client : Client) (httpPath : CString)
    (query : Option CString) :
    assembleUrl word client httpPath query =
      appendAll word (toInt (urlBytes client httpPath query))
        (.calloc (toSizeT word (addInt (toInt (urlBytes client httpPath query)) 1)))
        (urlParts client httpPath query) := by
  cases query with
  | none => rfl
  | some requestBody => rfl

def payloadParts (installationId : CString) : List (List Byte) :=
  [payloadPrefix, installationId.bytes, payloadSuffix]

theorem assemblePayload_eq (word : WordSize) (installationId : CString) :
    assemblePayload word installationId =
      appendAll word (toInt (payloadBytes installationId))
        (.calloc (toSizeT word (toInt (payloadBytes installationId))))
        (payloadParts installationId) := rfl

section Chain

variable {word : WordSize} {size : Int}

/-- What is left of a size. -/
theorem toSizeT_sub {n : Nat} (inside : n ≤ toSizeT word size) :
    toSizeT word (size - n) = toSizeT word size - n := by
  cases word <;> simp only [toSizeT, WordSize.values] at inside ⊢ <;> omega

theorem append_text {s : Assembly} (inside : s.text.length ≤ toSizeT word size)
    (part : List Byte) :
    (s.append part (toSizeT word (size - s.text.length))).text =
      (s.text ++ part).take (toSizeT word size) := by
  rw [Assembly.append, strncat, toSizeT_sub inside, List.take_append,
    List.take_of_length_le inside]

/-- **A chain leaves as much of the whole text** as the size has room for. -/
theorem appendAll_text (word : WordSize) (size : Int) (parts : List (List Byte)) :
    ∀ {s : Assembly}, s.text.length ≤ toSizeT word size →
      (appendAll word size s parts).text = (s.text ++ parts.flatten).take (toSizeT word size) := by
  induction parts with
  | nil =>
      intro s inside
      rw [List.flatten_nil, List.append_nil, List.take_of_length_le inside]
      rfl
  | cons part parts ih =>
      intro s inside
      have text := append_text inside part
      have next : (s.append part (toSizeT word (size - s.text.length))).text.length ≤
          toSizeT word size := by
        rw [text]
        exact List.length_take_le ..
      have again : ∀ front back : List Byte,
          (front.take (toSizeT word size) ++ back).take (toSizeT word size) =
            (front ++ back).take (toSizeT word size) := by
        intro front back
        have room : toSizeT word size - min (toSizeT word size) front.length =
            toSizeT word size - front.length := by omega
        rw [List.take_append, List.take_take, Nat.min_self, List.length_take, room,
          List.take_append]
      rw [appendAll, List.foldl_cons]
      refine (ih next).trans ?_
      rw [text, again, List.append_assoc, List.flatten_cons]

/-- What has been written is the text with a zero behind it. -/
def Assembly.Written (s : Assembly) : Prop :=
  ∀ write ∈ s.writes, write.offset + write.count ≤ s.text.length + 1

/-- **A chain writes its text** and a zero behind it. -/
theorem appendAll_writes (word : WordSize) (size : Int) (parts : List (List Byte)) :
    ∀ {s : Assembly}, s.Written → (appendAll word size s parts).Written := by
  induction parts with
  | nil =>
      intro s written
      exact written
  | cons part parts ih =>
      intro s written
      refine ih fun write member => ?_
      have longer : (s.append part (toSizeT word (size - s.text.length))).text.length =
          s.text.length + (part.take (toSizeT word (size - s.text.length))).length :=
        List.length_append
      rw [longer]
      rcases List.mem_append.mp member with earlier | new
      · have := written write earlier
        omega
      · rw [List.mem_singleton.mp new]
        dsimp only
        omega

/-- What has been written stays written. -/
theorem appendAll_keeps (parts : List (List Byte)) : ∀ {s : Assembly} {write : Extent},
    write ∈ s.writes → write ∈ (appendAll word size s parts).writes := by
  induction parts with
  | nil =>
      intro s write member
      exact member
  | cons part parts ih =>
      intro s write member
      exact ih (List.mem_append_left _ member)

theorem appendAll_size (parts : List (List Byte)) : ∀ {s : Assembly},
    (appendAll word size s parts).size = s.size := by
  induction parts with
  | nil =>
      intro s
      rfl
  | cons part parts ih =>
      intro s
      exact ih

end Chain

/-! ## Sizes -/

/-- The size is not lost in the `int` that holds it: as a `size_t` it is large enough again. -/
def Kept (word : WordSize) (n : Nat) : Prop := n ≤ toSizeT word (toInt n)

/-- The sizes that an `int` does not lose. Where a `size_t` has 64 bits, those from 2 to the power
of 31 on are among them whose `int` is negative: as a `size_t` they are larger than any block. -/
def Fits : WordSize → Nat → Prop
  | .bits32, n => n < 4294967296
  | .bits64, n => n < 2147483648 ∨ 2147483648 ≤ n % 4294967296 ∧ n < 18446744073709551616

theorem kept_iff_fits (word : WordSize) (n : Nat) : Kept word n ↔ Fits word n := by
  cases word <;> simp only [Kept, Fits, toSizeT, WordSize.values, toInt] <;> omega

/-- A size in the range of an `int` fits. -/
theorem fits_of_lt (word : WordSize) {n : Nat} (small : n < 2147483648) : Fits word n := by
  cases word <;> simp only [Fits] <;> omega

/-- A size that is not kept is much too small. -/
theorem lost_lt {word : WordSize} {n : Nat} (lost : ¬ Kept word n) :
    toSizeT word (toInt n) + 1 < n := by
  cases word <;> simp only [Kept, toSizeT, WordSize.values, toInt] at lost ⊢ <;> omega

/-- One byte more is not less, unless the size is the largest `size_t`. -/
theorem toSizeT_addInt_one (word : WordSize) {n : Nat}
    (notLargest : n % 4294967296 ≠ 4294967295) :
    toSizeT word (toInt n) ≤ toSizeT word (addInt (toInt n) 1) := by
  cases word <;> simp only [toSizeT, WordSize.values, toInt, addInt] <;> omega

/-- One byte more than the largest `size_t` is none. -/
theorem toSizeT_addInt_largest (word : WordSize) {n : Nat} (largest : n % 4294967296 = 4294967295) :
    toSizeT word (addInt (toInt n) 1) = 0 := by
  cases word <;> simp only [toSizeT, WordSize.values, toInt, addInt] <;> omega

/-! ## Exact assembly -/

/-- The block holds the text as a whole, and every byte was written inside it. -/
structure Assembly.Exact (s : Assembly) (text : List Byte) : Prop where
  text : s.text = text
  inside : ∀ write ∈ s.writes, write.Inside s.size

/-- What is put together in a block of enough bytes is exact if and only if the size is kept. -/
theorem exact_iff {word : WordSize} {n block : Nat} {parts : List (List Byte)}
    (meant : n = parts.flatten.length + 1)
    (enough : Kept word n → toSizeT word (toInt n) ≤ block) :
    (appendAll word (toInt n) (.calloc block) parts).Exact parts.flatten ↔ Kept word n := by
  have text := appendAll_text word (toInt n) parts (s := .calloc block) (Nat.zero_le _)
  constructor
  · rintro ⟨whole, -⟩
    by_contra lost
    have short := congrArg List.length (text.symm.trans whole)
    have small := lost_lt lost
    rw [Assembly.calloc, List.nil_append, List.length_take] at short
    omega
  · intro kept
    have room := enough kept
    have fits : parts.flatten.length ≤ toSizeT word (toInt n) := by
      rw [Kept] at kept
      omega
    rw [Assembly.calloc, List.nil_append, List.take_of_length_le fits] at text
    refine ⟨text, fun write member => ?_⟩
    have written := appendAll_writes word (toInt n) parts (s := .calloc block)
      (fun _ none => absurd none List.not_mem_nil) write member
    rw [Assembly.calloc, text] at written
    rw [Extent.Inside, appendAll_size, Assembly.calloc]
    rw [Kept] at kept
    dsimp only
    omega

/-- Nothing is put together exactly in a block without a byte. -/
theorem not_exact_empty {word : WordSize} {size : Int} {part : List Byte}
    {parts : List (List Byte)} {text : List Byte} :
    ¬ (appendAll word size (.calloc 0) (part :: parts)).Exact text := by
  rintro ⟨-, inside⟩
  have first : ∀ write ∈ ((Assembly.calloc 0).append part (toSizeT word (size - 0))).writes,
      write ∈ (appendAll word size (.calloc 0) (part :: parts)).writes :=
    fun write member => appendAll_keeps parts member
  have fits := inside _ (first _ (List.mem_singleton.mpr rfl))
  rw [Extent.Inside, appendAll_size, Assembly.calloc] at fits
  dsimp only at fits
  omega

/-! ## The address -/

/-- What of the request is in its address. -/
def inAddress (httpVerb : CString) (requestBody : Option CString) : Option CString :=
  if isGet httpVerb then requestBody else none

/-- The address that is meant. -/
def meantUrl (client : Client) (httpVerb httpPath : CString) (requestBody : Option CString) :
    List Byte :=
  client.serverURL.bytes ++ httpPath.bytes ++
    match inAddress httpVerb requestBody with
    | some requestBody => ascii "?" ++ requestBody.bytes
    | none => []

theorem meantUrl_eq (client : Client) (httpVerb httpPath : CString)
    (requestBody : Option CString) :
    meantUrl client httpVerb httpPath requestBody =
      (urlParts client httpPath (inAddress httpVerb requestBody)).flatten := by
  rw [meantUrl]
  cases inAddress httpVerb requestBody with
  | none => simp [urlParts]
  | some requestBody => simp [urlParts]

theorem urlBytes_eq (client : Client) (httpPath : CString) (query : Option CString) :
    urlBytes client httpPath query = (urlParts client httpPath query).flatten.length + 1 := by
  have mark : (ascii "?").length = 1 := rfl
  cases query with
  | none =>
      simp only [urlBytes, urlParts, CString.length, List.append_nil, List.flatten_cons,
        List.flatten_nil, List.length_append]
      omega
  | some requestBody =>
      simp only [urlBytes, urlParts, CString.length, List.cons_append, List.nil_append,
        List.flatten_cons, List.flatten_nil, List.length_append, List.append_nil, mark]
      omega

theorem mem_of_mem_tried {curl : Libcurl} {setting : Setting} {settings : List Setting}
    (member : .setopt setting ∈ curl.tried settings) : setting ∈ settings := by
  induction settings with
  | nil => exact absurd member List.not_mem_nil
  | cons first settings ih =>
      rw [Libcurl.tried] at member
      rcases List.mem_cons.mp member with here | later
      · rw [CurlCall.setopt.inj here]
        exact List.mem_cons_self
      · split at later
        · exact absurd later List.not_mem_nil
        · exact List.mem_cons_of_mem first (ih later)

/-- A setting of a request is one of those in front of the address or one of those from it on. -/
theorem setting_of_request {word : WordSize} {client : Client} {httpVerb httpPath : CString}
    {requestBody : Option CString} {useInstallationIdHeader : Bool} {curl : Libcurl}
    {setting : Setting}
    (set : .setopt setting ∈ (parseSendRequestInternal word client httpVerb httpPath requestBody
      useInstallationIdHeader curl).curlCalls) :
    setting ∈ requestSettings httpVerb requestBody ∨
      setting ∈ transferSettings word client httpVerb httpPath requestBody
        useInstallationIdHeader curl.seconds := by
  have opened : ∀ {calls : List CurlCall}, .setopt setting ∈ .init :: calls →
      .setopt setting ∈ calls := fun member =>
    (List.mem_cons.mp member).resolve_left CurlCall.noConfusion
  simp only [parseSendRequestInternal] at set
  split at set
  · exact absurd (opened set) List.not_mem_nil
  · split at set
    · exact Or.inl (mem_of_mem_tried (opened set))
    · split at set
      · exact Or.inl (mem_of_mem_tried (opened set))
      · split at set
        · exact (List.mem_append.mp (opened set)).imp mem_of_mem_tried mem_of_mem_tried
        · have tried : .setopt setting ∈ curl.tried (requestSettings httpVerb requestBody) ++
              curl.tried (transferSettings word client httpVerb httpPath requestBody
                useInstallationIdHeader curl.seconds) := by
            simp only [Request.perform] at set
            split at set
            · simpa using set
            · simpa using set
          exact (List.mem_append.mp tried).imp mem_of_mem_tried mem_of_mem_tried

/-- The address that a request hands to libcurl is the one that has been put together. -/
theorem url_of_request {word : WordSize} {client : Client} {httpVerb httpPath : CString}
    {requestBody : Option CString} {useInstallationIdHeader : Bool} {curl : Libcurl}
    {fullUrl : List Byte}
    (set : .setopt (.url fullUrl) ∈ (parseSendRequestInternal word client httpVerb httpPath
      requestBody useInstallationIdHeader curl).curlCalls) :
    fullUrl = (assembleUrl word client httpPath (inAddress httpVerb requestBody)).text := by
  rcases setting_of_request set with early | late
  · cases requestBody with
    | none => simp [requestSettings] at early
    | some requestBody =>
        simp only [requestSettings] at early
        split at early <;> simp at early
  · rw [assembleUrl_text, inAddress]
    simpa [transferSettings] using late

/-- The address is put together exactly, and it is the one that a request hands to libcurl. -/
structure AddressExact (word : WordSize) (client : Client) (httpVerb httpPath : CString)
    (requestBody : Option CString) : Prop where
  assembled : (assembleUrl word client httpPath (inAddress httpVerb requestBody)).Exact
    (meantUrl client httpVerb httpPath requestBody)
  handed : ∀ useInstallationIdHeader curl fullUrl,
    .setopt (.url fullUrl) ∈ (parseSendRequestInternal word client httpVerb httpPath requestBody
      useInstallationIdHeader curl).curlCalls →
    fullUrl = meantUrl client httpVerb httpPath requestBody

/-- **The address is exact** if and only if its size fits, and is not the largest of an `int` with
32 bits, which leaves no byte for the zero. -/
theorem addressExact_iff (word : WordSize) (client : Client) (httpVerb httpPath : CString)
    (requestBody : Option CString) :
    AddressExact word client httpVerb httpPath requestBody ↔
      Fits word (urlBytes client httpPath (inAddress httpVerb requestBody)) ∧
        urlBytes client httpPath (inAddress httpVerb requestBody) % 4294967296 ≠ 4294967295 := by
  have assembled : AddressExact word client httpVerb httpPath requestBody ↔
      (assembleUrl word client httpPath (inAddress httpVerb requestBody)).Exact
        (meantUrl client httpVerb httpPath requestBody) :=
    ⟨AddressExact.assembled,
      fun exact => ⟨exact, fun _ _ _ set => (url_of_request set).trans exact.text⟩⟩
  have meant := urlBytes_eq client httpPath (inAddress httpVerb requestBody)
  rw [assembled, meantUrl_eq, assembleUrl_eq, ← kept_iff_fits]
  by_cases largest :
      urlBytes client httpPath (inAddress httpVerb requestBody) % 4294967296 = 4294967295
  · rw [toSizeT_addInt_largest word largest]
    exact ⟨fun exact => absurd exact not_exact_empty, fun fits => absurd largest fits.2⟩
  · rw [exact_iff meant fun _ => toSizeT_addInt_one word largest]
    exact ⟨fun kept => ⟨kept, largest⟩, And.left⟩

/-! ## The payload -/

/-- **The payload is exact** if and only if its size fits. -/
theorem payloadExact_iff (word : WordSize) (installationId : CString) :
    (assemblePayload word installationId).Exact
        (payloadPrefix ++ installationId.bytes ++ payloadSuffix) ↔
      Fits word (payloadBytes installationId) := by
  have parts : payloadPrefix ++ installationId.bytes ++ payloadSuffix =
      (payloadParts installationId).flatten := by
    simp [payloadParts]
  have meant : payloadBytes installationId = (payloadParts installationId).flatten.length + 1 := by
    simp only [payloadBytes, payloadParts, CString.length, List.flatten_cons, List.flatten_nil,
      List.length_append, List.length_nil]
    omega
  rw [parts, assemblePayload_eq, exact_iff meant fun _ => Nat.le_refl _, kept_iff_fits]

/-- The payload that is sent is the one put together, where that is exact. -/
theorem payload_sent {word : WordSize} {installationId : CString}
    (exact : (assemblePayload word installationId).Exact
      (payloadPrefix ++ installationId.bytes ++ payloadSuffix)) (client : ParseClientInternal) :
    .sendRequest (CString.literal "POST") (CString.literal "/installations/")
      (CString.ofMemory (assemblePayload word installationId).text) ∈
        (parseSetInstallationId client installationId).2 := by
  rw [exact.text]
  exact List.mem_cons_of_mem _ List.mem_cons_self

/-! ## Both -/

/-- Where the size of the address with its zero is in the range of an `int`, the address is exact.
-/
theorem addressExact_of_lt {word : WordSize} {client : Client} {httpVerb httpPath : CString}
    {requestBody : Option CString}
    (small : urlBytes client httpPath (inAddress httpVerb requestBody) + 1 < 2147483648) :
    AddressExact word client httpVerb httpPath requestBody :=
  (addressExact_iff ..).mpr ⟨fits_of_lt word (Nat.lt_of_succ_lt small), by omega⟩

/-- So is the payload. -/
theorem payloadExact_of_lt {word : WordSize} {installationId : CString}
    (small : payloadBytes installationId < 2147483648) :
    (assemblePayload word installationId).Exact
      (payloadPrefix ++ installationId.bytes ++ payloadSuffix) :=
  (payloadExact_iff ..).mpr (fits_of_lt word small)

/-- An installation id of this length. -/
def longId (length : Nat) : CString where
  bytes := List.replicate length (97 : Byte)
  noNul := fun member => absurd (List.eq_of_mem_replicate member) (by decide)

theorem longId_payloadBytes (length : Nat) : payloadBytes (longId length) = length + 46 := by
  have front : payloadPrefix.length = 19 := by decide
  have behind : payloadSuffix.length = 26 := by decide
  rw [payloadBytes, CString.length, longId, List.length_replicate, front, behind]
  omega

/-- Where the size is a multiple of 2 to the power of 32, `payloadLength` is 0, and the payload
empty. -/
theorem payload_empty {word : WordSize} {installationId : CString}
    (lost : payloadBytes installationId % 4294967296 = 0) :
    (assemblePayload word installationId).text = [] := by
  have none : toSizeT word (toInt (payloadBytes installationId)) = 0 := by
    cases word <;> simp only [toSizeT, WordSize.values, toInt] <;> omega
  have text := appendAll_text word (toInt (payloadBytes installationId))
    (payloadParts installationId) (s := .calloc 0) (Nat.zero_le _)
  rw [assemblePayload_eq, none, text, none, List.take_zero]

/-- An installation id of 4 GB less the 46 bytes of the prefix, the suffix and the zero, where a
`size_t` has 64 bits. -/
theorem string_assembly_counterexample :
    ¬ (assemblePayload .bits64 (longId 4294967250)).Exact
        (payloadPrefix ++ (longId 4294967250).bytes ++ payloadSuffix) ∧
      (assemblePayload .bits64 (longId 4294967250)).text = [] := by
  have size := longId_payloadBytes 4294967250
  constructor
  · intro exact
    have fits := (payloadExact_iff .bits64 _).mp exact
    rw [size, Fits] at fits
    omega
  · refine payload_empty ?_
    rw [size]

/-- **Both are exact** if and only if their sizes fit. -/
theorem string_assembly_iff (word : WordSize) :
    (∀ (client : Client) (httpVerb httpPath : CString) (requestBody : Option CString),
      AddressExact word client httpVerb httpPath requestBody ↔
        Fits word (urlBytes client httpPath (inAddress httpVerb requestBody)) ∧
          urlBytes client httpPath (inAddress httpVerb requestBody) % 4294967296 ≠ 4294967295) ∧
      ∀ installationId : CString,
        (assemblePayload word installationId).Exact
            (payloadPrefix ++ installationId.bytes ++ payloadSuffix) ↔
          Fits word (payloadBytes installationId) :=
  ⟨addressExact_iff word, payloadExact_iff word⟩

end ParseEmbedded.Unix
