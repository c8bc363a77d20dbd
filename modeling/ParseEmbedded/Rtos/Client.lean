import ParseEmbedded.Rtos.Push
import ParseEmbedded.SimpleJson.Destination

/-!
# The client of an RTOS and its arrays

`ParseClientInternal` of `parse_impl.h` with all of its `char` arrays, and the ways the SDK writes
to an array: `memset`, `strncpy`, `snprintf`, a lookup of the scanner and the loop over `tolower`.

An array is the list of its bytes. A store overwrites the front of the list, and a store that is
longer than the array leaves a longer list, so that an array of the length it was made with has
never been written past its end. `Terminated` is what all of these stores keep: the last byte of
the array is zero.
-/

set_option autoImplicit false

namespace ParseEmbedded.Rtos

open SimpleJson

abbrev APPLICATION_ID_MAX_LEN : Nat := 40
abbrev CLIENT_KEY_MAX_LEN : Nat := 40
abbrev OBJECT_ID_MAX_LEN : Nat := 16
abbrev INSTALLATION_ID_MAX_LEN : Nat := 36
abbrev SESSION_TOKEN_MAX_LEN : Nat := 40
abbrev OS_VERSION_MAX_LEN : Nat := 19
abbrev CLIENT_VERSION_MAX_LEN : Nat := 26

def CLIENT_VERSION : CString := CString.literal "c-ti-cc3200-rtos-1.0.0"

/-! ## Arrays -/

/-- `memset(array, 0, sizeof(array))` for an array with room for `n` characters and a zero. -/
def zeros (n : Nat) : List Byte := List.replicate (n + 1) Byte.nul

/-- `strncpy`: exactly `n` bytes are stored, the string and zeros behind it. -/
def strncpy (array : List Byte) (source : CString) (n : Nat) : List Byte :=
  overwrite array ((source.bytes ++ List.replicate n Byte.nul).take n)

/-- `snprintf` into an array. -/
def snprintfTo (array : List Byte) (size : Nat) (text : List Byte) : List Byte :=
  overwrite array (snprintf size text ++ [Byte.nul])

/-- `tolower` -/
def tolower (c : Byte) : Byte := if 65 ≤ c ∧ c ≤ 90 then c + 32 else c

/-- The bytes of the string in an array. -/
abbrev stringOf (array : List Byte) : List Byte := (CString.ofMemory array).bytes

/-- `strncasecmp(s, t, n) == 0` -/
def sameIgnoringCase (s t : CString) (n : Nat) : Bool :=
  (s.bytes.take n).map tolower = (t.bytes.take n).map tolower

/-- What a scan that has left its text finds there: what it stores, whether it adds the zero, and
what it returns. -/
structure Stray where
  text : CString
  ended : Bool
  result : Bool
  deriving DecidableEq

/-- `simpleJsonProcessor` into an array: what it returns, and the array. A scan that leaves its
text still stores fewer bytes than it may. -/
def lookUp (stray : Stray) (data key : CString) (array : List Byte) (size : Nat) :
    Nat × List Byte :=
  match simpleJsonProcessor data key (some array) size with
  | .ok ⟨result, some array⟩ => (result, array)
  | .ok ⟨result, none⟩ => (result, array)
  | .error _ =>
      (stray.result.toNat, overwrite array
        (stray.text.bytes.take (size - 1) ++ if stray.ended then [Byte.nul] else []))

/-- What a lookup returns and stores does not depend on the array. -/
theorem lookUp_onto (stray : Stray) (data key : CString) (array : List Byte) (size : Nat) :
    lookUp stray data key array size =
      ((lookUp stray data key [] size).1,
        overwrite array (lookUp stray data key [] size).2) := by
  rw [lookUp, lookUp, simpleJsonProcessor_onto]
  cases looked : simpleJsonProcessor data key (some []) size with
  | ok lookup =>
      obtain ⟨after, value, -⟩ := simpleJsonProcessor_leaves looked
      cases lookup with
      | mk result stored =>
          cases value
          rfl
  | error overread =>
      refine congrArg (Prod.mk _) ?_
      rw [overwrite, overwrite, overwrite, List.drop_nil, List.append_nil]

theorem lookUp_ok (stray : Stray) {data key : CString} {array after : List Byte} {size result : Nat}
    (looked : simpleJsonProcessor data key (some array) size = .ok ⟨result, some after⟩) :
    lookUp stray data key array size = (result, after) := by
  rw [lookUp, looked]

/-- The array has the size it was made with, room for `n` characters and a zero, and there is a
zero in it. -/
structure HoldsString (n : Nat) (array : List Byte) : Prop where
  length : array.length = n + 1
  ended : Byte.nul ∈ array

/-- A string ends at the first zero. -/
theorem string_append_nul (front back : List Byte) :
    stringOf (front ++ Byte.nul :: back) = stringOf front := by
  change (front ++ Byte.nul :: back).takeWhile (· ≠ Byte.nul) = front.takeWhile (· ≠ Byte.nul)
  rw [List.takeWhile_append]
  split
  · rename_i all
    rw [List.takeWhile_cons_of_neg (by simp), List.append_nil]
    exact (List.takeWhile_prefix _).eq_of_length all |>.symm
  · rfl

/-- The string in the array has at most as many characters as there is room for. -/
theorem HoldsString.string_length {n : Nat} {array : List Byte} (holds : HoldsString n array) :
    (CString.ofMemory array).length ≤ n := by
  obtain ⟨front, back, rfl⟩ := List.append_of_mem holds.ended
  have size := holds.length
  rw [List.length_append, List.length_cons] at size
  have shorter : (stringOf front).length ≤ front.length := (List.takeWhile_sublist _).length_le
  change (stringOf (front ++ Byte.nul :: back)).length ≤ n
  rw [string_append_nul]
  omega

/-- The array has room for `n` characters, and its last byte is zero. -/
def Terminated (n : Nat) (array : List Byte) : Prop :=
  ∃ front : List Byte, front.length = n ∧ array = front ++ [Byte.nul]

theorem Terminated.holdsString {n : Nat} {array : List Byte} (terminated : Terminated n array) :
    HoldsString n array := by
  obtain ⟨front, rfl, rfl⟩ := terminated
  exact ⟨List.length_append, List.mem_append_right front (List.mem_singleton_self Byte.nul)⟩

theorem zeros_terminated (n : Nat) : Terminated n (zeros n) :=
  ⟨List.replicate n Byte.nul, List.length_replicate, List.replicate_succ'⟩

/-- A text that fits leaves the zero at the end alone. -/
theorem Terminated.overwrite {n : Nat} {array text : List Byte}
    (terminated : Terminated n array) (fits : text.length ≤ n) :
    Terminated n (overwrite array text) := by
  obtain ⟨front, rfl, rfl⟩ := terminated
  refine ⟨text ++ front.drop text.length, ?_, ?_⟩
  · rw [List.length_append, List.length_drop]
    omega
  · rw [SimpleJson.overwrite, List.drop_append_of_le_length fits, List.append_assoc]

/-- So does a text that fits with a zero behind it. -/
theorem Terminated.overwrite_nul {n : Nat} {array text : List Byte}
    (terminated : Terminated n array) (fits : text.length ≤ n) :
    Terminated n (SimpleJson.overwrite array (text ++ [Byte.nul])) := by
  rcases Nat.lt_or_eq_of_le fits with short | full
  · refine terminated.overwrite ?_
    rw [List.length_append, List.length_singleton]
    exact short
  · refine ⟨text, full, ?_⟩
    rw [SimpleJson.overwrite, List.drop_eq_nil_of_le, List.append_nil]
    rw [terminated.holdsString.length, List.length_append, List.length_singleton, full]

theorem Terminated.strncpy {n : Nat} {array : List Byte} (terminated : Terminated n array)
    (source : CString) : Terminated n (strncpy array source n) :=
  terminated.overwrite (List.length_take_le ..)

/-- A string that fits is the string of the array afterwards. -/
theorem Terminated.string_strncpy {n : Nat} {array : List Byte} (terminated : Terminated n array)
    {source : CString} (short : source.length ≤ n) :
    stringOf (Rtos.strncpy array source n) = source.bytes := by
  obtain ⟨front, rfl, rfl⟩ := terminated
  obtain ⟨left, size⟩ := Nat.exists_eq_add_of_le short
  have stored : (source.bytes ++ List.replicate front.length Byte.nul).take front.length =
      source.bytes ++ List.replicate left Byte.nul := by
    rw [size, CString.length, List.take_length_add_append, List.take_replicate, Nat.min_eq_left]
    omega
  have behind : (front ++ [Byte.nul]).drop (source.bytes ++ List.replicate left Byte.nul).length =
      [Byte.nul] := by
    rw [List.length_append, List.length_replicate, ← CString.length, ← size, List.drop_left]
  rw [Rtos.strncpy, stored, SimpleJson.overwrite, behind, List.append_assoc,
    ← List.replicate_succ', List.replicate_succ]
  exact CString.ofMemory_append_nul source.noNul _

theorem Terminated.snprintfTo {n size : Nat} {array : List Byte}
    (terminated : Terminated n array) (text : List Byte) (fits : size ≤ n + 1) :
    Terminated n (snprintfTo array size text) := by
  refine terminated.overwrite_nul (Nat.le_trans (List.length_take_le ..) ?_)
  omega

theorem Terminated.map_tolower {n : Nat} {array : List Byte} (terminated : Terminated n array) :
    Terminated n (array.map tolower) := by
  obtain ⟨front, rfl, rfl⟩ := terminated
  exact ⟨front.map tolower, List.length_map .., List.map_append⟩

theorem lookUp_leaves (stray : Stray) (data key : CString) (array : List Byte) {size : Nat}
    (some : 0 < size) : Leaves array size (lookUp stray data key array size).2 := by
  rw [lookUp]
  cases looked : simpleJsonProcessor data key (.some array) size with
  | ok lookup =>
      obtain ⟨after, same, leaves⟩ := simpleJsonProcessor_leaves looked
      cases lookup with
      | mk result value =>
          cases same
          exact leaves
  | error overread =>
      refine ⟨stray.text.bytes.take (size - 1), fun member => ?_, ?_, ?_⟩
      · exact stray.text.noNul (List.mem_of_mem_take member)
      · rw [List.length_take]
        omega
      · cases stray.ended with
        | false =>
            left
            dsimp only
            rw [if_neg Bool.false_ne_true, List.append_nil]
        | true => exact Or.inr rfl

theorem Terminated.lookUp {n size : Nat} {array : List Byte} (terminated : Terminated n array)
    (stray : Stray) (data key : CString) (some : 0 < size) (fits : size ≤ n + 1) :
    Terminated n (lookUp stray data key array size).2 := by
  obtain ⟨text, -, short, stored⟩ := lookUp_leaves stray data key array some
  have room : text.length ≤ n := by omega
  rcases stored with stored | stored
  · rw [stored]
    exact terminated.overwrite room
  · rw [stored]
    exact terminated.overwrite_nul room

/-! ## The client -/

/-- `ParseClientInternal` -/
structure Client where
  applicationId : List Byte
  clientKey : List Byte
  installationObjectId : List Byte
  installationId : List Byte
  sessionToken : List Byte
  callback : Bool
  socketHandle : Int
  nFailedPing : Int
  lastPushTime : List Byte
  osVersion : List Byte
  deviceClientVersion : List Byte
  deriving DecidableEq

/-- What the push service works with. -/
def Client.internal (client : Client) : ParseClientInternal where
  applicationId := CString.ofMemory client.applicationId
  installationId := CString.ofMemory client.installationId
  callback := client.callback
  socketHandle := client.socketHandle
  nFailedPing := client.nFailedPing
  lastPushTime := client.lastPushTime

/-- The client behind a call of the push service, which leaves the other fields alone. -/
def Client.withInternal (client : Client) (internal : ParseClientInternal) : Client :=
  { client with
    callback := internal.callback
    socketHandle := internal.socketHandle
    nFailedPing := internal.nFailedPing
    lastPushTime := internal.lastPushTime }

/-- The client with another time of the last push. -/
def Client.withTime (client : Client) (lastPushTime : List Byte) : Client :=
  { client with lastPushTime }

/-- The last byte of every array of the client is zero. -/
structure Client.WellFormed (client : Client) : Prop where
  applicationId : Terminated APPLICATION_ID_MAX_LEN client.applicationId
  clientKey : Terminated CLIENT_KEY_MAX_LEN client.clientKey
  installationObjectId : Terminated OBJECT_ID_MAX_LEN client.installationObjectId
  installationId : Terminated INSTALLATION_ID_MAX_LEN client.installationId
  sessionToken : Terminated SESSION_TOKEN_MAX_LEN client.sessionToken
  lastPushTime : Terminated PUSH_TIME_MAX_LEN.toNat client.lastPushTime
  osVersion : Terminated OS_VERSION_MAX_LEN client.osVersion
  deviceClientVersion : Terminated CLIENT_VERSION_MAX_LEN client.deviceClientVersion

/-- A client with these strings. -/
def exampleClient (applicationId installationId sessionToken : CString) : Client where
  applicationId := strncpy (zeros 40) applicationId APPLICATION_ID_MAX_LEN
  clientKey := zeros 40
  installationObjectId := zeros 16
  installationId := strncpy (zeros 36) installationId INSTALLATION_ID_MAX_LEN
  sessionToken := strncpy (zeros 40) sessionToken SESSION_TOKEN_MAX_LEN
  callback := false
  socketHandle := -1
  nFailedPing := 0
  lastPushTime := zeros 40
  osVersion := zeros 19
  deviceClientVersion := strncpy (zeros 26) CLIENT_VERSION CLIENT_VERSION_MAX_LEN

theorem exampleClient_wellFormed (applicationId installationId sessionToken : CString) :
    (exampleClient applicationId installationId sessionToken).WellFormed where
  applicationId := (zeros_terminated 40).strncpy applicationId
  clientKey := zeros_terminated 40
  installationObjectId := zeros_terminated 16
  installationId := (zeros_terminated 36).strncpy installationId
  sessionToken := (zeros_terminated 40).strncpy sessionToken
  lastPushTime := zeros_terminated 40
  osVersion := zeros_terminated 19
  deviceClientVersion := (zeros_terminated 26).strncpy CLIENT_VERSION

end ParseEmbedded.Rtos
