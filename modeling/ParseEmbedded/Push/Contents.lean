import ParseEmbedded.Push.Stream
import ParseEmbedded.SimpleJson.StoredText

/-!
# What the lines of a stream say

A line that the push service sends is a heartbeat or a message, and it may hold data and a time. A
receiver keeps the heartbeats from its callback, and remembers as much of the last time as it has
room for.
-/

set_option autoImplicit false

namespace ParseEmbedded.Push

open Json SimpleJson

/-! ## Heartbeats -/

/-- The text of a heartbeat, by its first two bytes. -/
def isBeat (text : List Byte) : Bool := text.take 2 = [Byte.openBrace, Byte.closeBrace]

theorem isHeartbeat_eq (message : CString) : isHeartbeat message = isBeat message.bytes := rfl

/-- The texts that are no heartbeats. -/
def withoutBeats (texts : List (List Byte)) : List (List Byte) :=
  texts.filter fun text => !isBeat text

theorem withoutBeats_append (texts more : List (List Byte)) :
    withoutBeats (texts ++ more) = withoutBeats texts ++ withoutBeats more :=
  List.filter_append ..

/-! ## Data -/

/-- The key of what a push has for the application. -/
def DATA : CString := CString.literal "data"

theorem data_ends : DATA.bytes = ascii "dat" ++ [97] := by decide

theorem data_inert : ∀ c ∈ DATA.bytes, IsInert c := forall_of_all (by decide)

theorem data_nonempty : DATA.bytes ≠ [] := by decide

theorem data_isWord : ¬ IsGap 97 := by decide

def dataKey : WordKey :=
  ⟨⟨DATA, data_nonempty, data_inert⟩, ascii "dat", 97, data_ends, data_isWord⟩

/-! ## Times -/

def TIME : CString := CString.literal "time"

theorem time_ends : TIME.bytes = ascii "tim" ++ [101] := by decide

theorem time_inert : ∀ c ∈ TIME.bytes, IsInert c := forall_of_all (by decide)

theorem time_nonempty : TIME.bytes ≠ [] := by decide

theorem time_isWord : ¬ IsGap 101 := by decide

def timeKey : WordKey :=
  ⟨⟨TIME, time_nonempty, time_inert⟩, ascii "tim", 101, time_ends, time_isWord⟩

/-- What a lookup of the time stores of a line. -/
def storedTime (line : Line) : Option (List Byte) := storedText timeKey.bytes line.object.text

/-- The time of a line, as much of it as there is room for. -/
def lineTime (room : Nat) (line : Line) : Option (List Byte) :=
  (storedTime line).map fun time => time.take room

theorem storedTime_noNul {line : Line} {time : List Byte} (stores : storedTime line = some time) :
    Byte.nul ∉ time := storedText_noNul line.object.noNul stores

/-- A heartbeat has no time. -/
theorem storedTime_beat {line : Line} (beat : isBeat line.object.text = true) :
    storedTime line = none := by
  have second : ∀ {c : Byte} {rest : List Byte}, line.object.text = Byte.openBrace :: c :: rest →
      c = Byte.closeBrace := by
    intro c rest text
    rw [isBeat, text, decide_eq_true_eq] at beat
    exact (List.cons.inj (List.cons.inj beat).2).1
  have notBlank : ∀ blank : Blank, blank.byte ≠ Byte.closeBrace := by
    intro blank
    cases blank <;> decide
  cases isObject : line.object with
  | empty blanks =>
      rw [isObject] at second
      cases blanks with
      | nil =>
          rw [storedTime, isObject]
          decide +kernel
      | cons blank blanks => exact absurd (second rfl) (notBlank blank)
  | of members =>
      rw [isObject] at second
      cases members with
      | last before | more before =>
          cases before with
          | nil => exact absurd (second rfl) (by decide)
          | cons blank before => exact absurd (second rfl) (notBlank blank)

/-- **The lookup of the time in a line.** -/
theorem lookup_time (line : Line) (buffer : List Byte) (size : Int) :
    simpleJsonProcessor line.object.string TIME (some buffer) size =
      .ok ⟨(storedTime line).isSome.toNat, some (storeInto buffer size (storedTime line))⟩ := by
  have looked : simpleJsonProcessor line.object.string TIME (some buffer) size =
      .ok ⟨(storedText timeKey.bytes (Document.text ⟨[], line.object, []⟩)).isSome.toNat,
        some (storeInto buffer size
          (storedText timeKey.bytes (Document.text ⟨[], line.object, []⟩)))⟩ :=
    (lookup_document timeKey ⟨[], line.object, []⟩ (some buffer) size).symm.trans
      (lookup_document_stored timeKey ⟨[], line.object, []⟩ buffer size)
  have text : Document.text ⟨[], line.object, []⟩ = line.object.text :=
    List.append_nil line.object.text
  rw [text] at looked
  exact looked

end ParseEmbedded.Push
