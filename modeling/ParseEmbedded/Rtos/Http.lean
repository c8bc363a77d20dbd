import ParseEmbedded.Library.Search
import ParseEmbedded.Rtos.Client

/-!
# HTTP on an RTOS

The functions of `http.c`: those that append a line to the request in `dataBuffer`, and those that
take the status and the body out of a response. A request under construction is a `Building`,
the buffer with the position and the size that are left, as `int`, the last status and the ranges
written.

`Builds` is what an append keeps, `Builds.line` and `Builds.header`: either the request has all
of the text so far and there is room behind it, or the text is too long and the status says so.
-/

set_option autoImplicit false

namespace ParseEmbedded.Rtos

open Push

/-- `int` arithmetic wraps around. -/
def toInt (i : Int) : Int := i.bmod 4294967296

abbrev INT_MAX : Int := 2147483647

/-- What the C library does with a size above `INT_MAX`: by POSIX `snprintf` fails. -/
structure Libc where
  refusesHugeSizes : Bool
  deriving DecidableEq

/-! ## Requests -/

/-- A request under construction. -/
structure Building where
  dataBuffer : Block Byte 1024
  currentPosition : Int
  currentSize : Int
  status : Int
  writes : List Extent

namespace Building

variable (libc : Libc)

/-- `snprintf(dataBuffer + currentPosition, currentSize, …)` -/
def print (text : List Byte) (b : Building) : Building :=
  let size := toSizeT .bits32 b.currentSize
  if libc.refusesHugeSizes ∧ INT_MAX < size then { b with status := -1 }
  else
    let place := toSizeT .bits32 b.currentPosition
    let stored := if size = 0 then [] else snprintf size text ++ [Byte.nul]
    { b with
      dataBuffer := b.dataBuffer.store place stored
      status := if text.length ≤ INT_MAX then text.length else -1
      writes := b.writes ++ [⟨place, stored.length⟩] }

/-- `addHttpRequestLine`: the status is compared with the size as an unsigned number. -/
def addHttpRequestLine (text : List Byte) (b : Building) : Building :=
  let printed := b.print libc text
  if toSizeT .bits32 b.currentSize ≤ toSizeT .bits32 printed.status then
    { printed with status := -1 }
  else printed

/-- `currentPosition += status; currentSize -= status` -/
def advance (b : Building) : Building :=
  { b with
    currentPosition := toInt (b.currentPosition + b.status)
    currentSize := toInt (b.currentSize - b.status) }

/-- The next append, if none has failed. -/
def next (append : Building → Building) (b : Building) : Building :=
  if 0 ≤ b.status then append b.advance else b

end Building

def requestLine (httpVerb host : CString) (httpQuery : List Byte) : List Byte :=
  httpVerb.bytes ++ ascii " " ++ host.bytes ++
    (if httpQuery = [] then [] else ascii "?" ++ httpQuery) ++ ascii " HTTP/1.1\r\n"

def beginHttpRequest (libc : Libc) (host httpVerb : CString) (b : Building) : Building :=
  b.addHttpRequestLine libc (requestLine httpVerb host [])

def beginHttpGetRequest (libc : Libc) (host httpVerb : CString) (httpQuery : List Byte)
    (b : Building) : Building :=
  b.addHttpRequestLine libc (requestLine httpVerb host httpQuery)

/-- A header without a value is left out. -/
def headerLine (httpHeader : String) (httpRequestHeaderValue : List Byte) : List Byte :=
  if httpRequestHeaderValue = [] then []
  else ascii httpHeader ++ ascii ": " ++ httpRequestHeaderValue ++ ascii "\r\n"

def addHttpRequestHeader (libc : Libc) (httpHeader : String)
    (httpRequestHeaderValue : List Byte) (b : Building) : Building :=
  if httpRequestHeaderValue = [] then { b with status := 0 }
  else b.addHttpRequestLine libc (headerLine httpHeader httpRequestHeaderValue)

def addHttpRequestHeaderInt (libc : Libc) (httpHeader : String) (httpRequestHeaderValue : Int)
    (b : Building) : Building :=
  b.addHttpRequestLine libc (headerLine httpHeader (ascii (toString httpRequestHeaderValue)))

/-! ## What the appends keep -/

theorem toInt_of_small {i : Int} (low : -2147483648 ≤ i) (high : i ≤ 2147483647) :
    toInt i = i := by
  refine Int.bmod_eq_of_le ?_ ?_
  · exact low
  · exact Int.lt_of_le_of_lt high (by decide)

/-- The request has this text, and there is room for a zero behind it. -/
structure Building.Holds (b : Building) (text : List Byte) : Prop where
  status : 0 ≤ b.status
  position : 0 ≤ b.currentPosition
  reached : b.currentPosition + b.status = text.length
  size : b.currentSize = 1023 - b.currentPosition
  short : text.length ≤ 1022
  stored : b.dataBuffer.cells.take text.length = text
  writes : ∀ extent ∈ b.writes, extent.Inside 1024

/-- The request has this text, or the text is too long and the status says so. -/
def Building.Builds (b : Building) (text : List Byte) : Prop :=
  (text.length ≤ 1022 ∧ b.Holds text) ∨ (1022 < text.length ∧ b.status < 0)

section Builds

variable (libc : Libc) {b : Building} {text : List Byte}

/-- Where the next append starts. -/
theorem Building.Holds.advance (holds : b.Holds text) :
    b.advance.currentPosition = text.length ∧ b.advance.currentSize = 1023 - text.length := by
  obtain ⟨status, position, reached, size, short, -, -⟩ := holds
  constructor
  · change toInt (b.currentPosition + b.status) = _
    rw [reached]
    exact toInt_of_small (by omega) (by omega)
  · change toInt (b.currentSize - b.status) = _
    rw [toInt_of_small (by omega) (by omega)]
    omega

/-- What an append to such a request prints. -/
theorem Building.Holds.print (holds : b.Holds text) (line : List Byte) :
    b.advance.print libc line =
      { b.advance with
        dataBuffer := b.dataBuffer.store text.length
          (line.take (1022 - text.length) ++ [Byte.nul])
        status := if line.length ≤ INT_MAX then line.length else -1
        writes := b.writes ++ [⟨text.length, (line.take (1022 - text.length)).length + 1⟩] } := by
  obtain ⟨position, size⟩ := holds.advance
  have short := holds.short
  have room : toSizeT .bits32 b.advance.currentSize = 1023 - text.length := by
    rw [size, toSizeT_of_nonneg _ (by omega) (by omega)]
    omega
  have place : toSizeT .bits32 b.advance.currentPosition = text.length := by
    rw [position, toSizeT_of_nonneg _ (by omega) (by omega)]
    omega
  have fits : ¬ (libc.refusesHugeSizes ∧ INT_MAX < (1023 - text.length : Nat)) := by
    rintro ⟨-, huge⟩
    change (2147483647 : Int) < _ at huge
    omega
  have last : 1023 - text.length - 1 = 1022 - text.length := by omega
  rw [Building.print]
  dsimp only
  rw [room, place, if_neg fits, if_neg (show 1023 - text.length ≠ 0 by omega), snprintf, last,
    List.length_append, List.length_singleton]
  rfl

/-- A text that fits is appended. -/
theorem Building.Holds.print_fits (holds : b.Holds text) {line : List Byte}
    (fits : text.length + line.length ≤ 1022) :
    (b.next (Building.print libc line)).Holds (text ++ line) := by
  obtain ⟨position, size⟩ := holds.advance
  have small : (line.length : Int) ≤ INT_MAX := by
    change _ ≤ (2147483647 : Int)
    omega
  have whole : line.take (1022 - text.length) = line := List.take_of_length_le (by omega)
  rw [Building.next, if_pos holds.status, holds.print libc line, if_pos small, whole]
  have inside : text.length + (line ++ [Byte.nul]).length ≤ 1024 := by
    rw [List.length_append, List.length_singleton]
    omega
  refine ⟨?_, ?_, ?_, ?_, ?_, ?_, ?_⟩
  · exact Int.natCast_nonneg _
  · rw [position]
    exact Int.natCast_nonneg _
  · rw [position, List.length_append]
    exact (Int.natCast_add ..).symm
  · rw [size, position]
  · rw [List.length_append]
    exact fits
  · have stored := b.dataBuffer.take_store inside
    rw [holds.stored] at stored
    have cut := congrArg (List.take (text.length + line.length)) stored
    rw [List.take_take, Nat.min_eq_left (by simp), ← List.append_assoc,
      ← List.length_append, List.take_left] at cut
    exact cut
  · refine List.forall_mem_append.mpr ⟨holds.writes, List.forall_mem_singleton.mpr ?_⟩
    simp only [Extent.Inside]
    omega

/-- **What a line keeps.** -/
theorem Building.Builds.line (builds : b.Builds text) (line : List Byte) :
    (b.next fun b => b.addHttpRequestLine libc line).Builds (text ++ line) := by
  rcases builds with ⟨short, holds⟩ | ⟨long, failed⟩
  · obtain ⟨position, size⟩ := holds.advance
    have room : toSizeT .bits32 b.advance.currentSize = 1023 - text.length := by
      rw [size, toSizeT_of_nonneg _ (by omega) (by omega)]
      omega
    have printed := holds.print libc line
    have next : b.next (Building.print libc line) = b.advance.print libc line :=
      if_pos holds.status
    rw [Building.next, if_pos holds.status, Building.addHttpRequestLine, room]
    by_cases fits : text.length + line.length ≤ 1022
    · have small : (line.length : Int) ≤ INT_MAX := by
        change _ ≤ (2147483647 : Int)
        omega
      have status : (b.advance.print libc line).status = line.length := by
        rw [printed]
        exact if_pos small
      rw [status, toSizeT_of_nonneg _ (by omega) (by omega), if_neg (by omega), ← next]
      refine Or.inl ⟨?_, holds.print_fits libc fits⟩
      rw [List.length_append]
      exact fits
    · have refused : 1023 - text.length ≤
          toSizeT .bits32 (b.advance.print libc line).status := by
        rw [printed]
        dsimp only
        split
        · rename_i small
          change _ ≤ (2147483647 : Int) at small
          rw [toSizeT_of_nonneg _ (by omega) (by omega)]
          omega
        · exact Nat.le_trans (by omega) (toSizeT_neg_one .bits32)
      rw [if_pos refused]
      refine Or.inr ⟨?_, Int.negSucc_lt_zero 0⟩
      rw [List.length_append]
      omega
  · rw [Building.next, if_neg (by omega)]
    refine Or.inr ⟨?_, failed⟩
    rw [List.length_append]
    omega

/-- **What a header keeps.** -/
theorem Building.Builds.header (builds : b.Builds text) (httpHeader : String)
    (value : List Byte) :
    (b.next (addHttpRequestHeader libc httpHeader value)).Builds
      (text ++ headerLine httpHeader value) := by
  by_cases empty : value = []
  · have none : headerLine httpHeader value = [] := if_pos empty
    rw [none, List.append_nil]
    rcases builds with ⟨short, holds⟩ | ⟨long, failed⟩
    · obtain ⟨position, size⟩ := holds.advance
      rw [Building.next, if_pos holds.status, addHttpRequestHeader, if_pos empty]
      refine Or.inl ⟨short, ?_⟩
      refine ⟨Int.le_refl 0, ?_, ?_, ?_, short, holds.stored, holds.writes⟩
      · change 0 ≤ b.advance.currentPosition
        rw [position]
        exact Int.natCast_nonneg _
      · change b.advance.currentPosition + 0 = _
        rw [position, Int.add_zero]
      · change b.advance.currentSize = 1023 - b.advance.currentPosition
        rw [size, position]
    · rw [Building.next, if_neg (by omega)]
      exact Or.inr ⟨long, failed⟩
  · have appends : addHttpRequestHeader libc httpHeader value =
        fun b => b.addHttpRequestLine libc (headerLine httpHeader value) := by
      funext b
      exact if_neg empty
    rw [appends]
    exact builds.line libc _

end Builds

/-! ## Responses -/

/-- `isspace` -/
def isspace (c : Byte) : Bool := c = Byte.space ∨ 9 ≤ c ∧ c ≤ 13

/-- The digits in front, behind those that have been read. -/
def atoiDigits : Int → List Byte → Int
  | value, [] => value
  | value, c :: rest =>
      if 48 ≤ c ∧ c ≤ 57 then atoiDigits (10 * value + (c - 48).toNat) rest else value

def atoi (text : List Byte) : Int :=
  match text.dropWhile isspace with
  | 45 :: digits => -atoiDigits 0 digits
  | 43 :: digits => atoiDigits 0 digits
  | digits => atoiDigits 0 digits

def HTTP_HEADERS_END : List Byte := ascii "\r\n\r\n"

/-- The three bytes behind `HTTP/1.1` and a space. -/
def getHttpResponseStatus (httpResponse : Block Byte 1024) : Int :=
  atoi ((httpResponse.cells.drop 9).take 3)

/-- The string behind the first empty line, which `strstr` looks for. -/
def getHttpResponseBody (httpResponse : Block Byte 1024) : Option CString :=
  (Search.search HTTP_HEADERS_END (stringOf httpResponse.cells)).map fun found =>
    CString.ofMemory (found.drop 4)

end ParseEmbedded.Rtos
