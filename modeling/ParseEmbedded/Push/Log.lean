import ParseEmbedded.Library.Resuming
import ParseEmbedded.Push.Contents

/-!
# The log of the push service

The push service keeps its messages in a log, and a message has a time. To a client that names the
time of the last message it has got, it sends those behind it. Such a connection is the beginning of
what the log has behind that time (`Serves`), with lines without a time between.
-/

set_option autoImplicit false

namespace ParseEmbedded.Push

open Json SimpleJson Resuming

/-- The time of a message. -/
def logTime (line : Line) : List Byte := (storedTime line).getD []

def hasTime (line : Line) : Bool := (storedTime line).isSome

/-- The texts with a time among those that a callback has been told. -/
def timedTexts (texts : List (List Byte)) : List (List Byte) :=
  texts.filter fun text => (storedText timeKey.bytes text).isSome

/-- A log of messages: each has a time that a client has room for, and no two have the same. -/
structure IsLog (room : Nat) (log : List Line) : Prop where
  timed : ∀ line ∈ log, logTime line ≠ [] ∧ (logTime line).length ≤ room
  distinct : (log.map logTime).Nodup

/-- To a client that names this time, or none, these lines are sent. Some of them may still be to
come when the connection ends. -/
structure Serves (log : List Line) (last : Option (List Byte)) (received : List Byte)
    (lines : List Line) (todo : List Byte) : Prop where
  stream : received ++ todo = streamText lines
  lineFeeds : ∀ line ∈ lines, line.ending = .lineFeed
  isBehind : lines.filter hasTime = behind logTime log last

/-- The texts with a time that a callback hears of some lines. -/
theorem timedTexts_lines (done : List Line) :
    timedTexts (withoutBeats (done.map fun line => line.object.text)) =
      (done.filter hasTime).map fun line => line.object.text := by
  rw [timedTexts, withoutBeats, List.filter_filter, List.filter_map]
  refine congrArg _ (List.filter_congr fun line _ => ?_)
  change (hasTime line && !isBeat line.object.text) = hasTime line
  cases beat : isBeat line.object.text with
  | true =>
      rw [hasTime, storedTime_beat beat]
      rfl
  | false => exact Bool.and_true _

/-- The times that a client with room for them remembers of some lines. -/
theorem times_of_lines {room : Nat} {done : List Line}
    (short : ∀ line ∈ done.filter hasTime, (logTime line).length ≤ room) :
    done.filterMap (lineTime room) = (done.filter hasTime).map logTime := by
  have all : done.filterMap (lineTime room) =
      (done.filter hasTime).map fun line => (logTime line).take room := by
    rw [← List.filterMap_eq_map, List.filterMap_filter]
    refine List.filterMap_congr fun line _ => ?_
    rw [lineTime, hasTime, Function.comp, logTime]
    cases storedTime line <;> rfl
  rw [all]
  exact List.map_congr_left fun line member => List.take_of_length_le (short line member)

section Serves

variable {room : Nat} {log : List Line} (isLog : IsLog room log) {last : Option (List Byte)}
  {received todo : List Byte} {done left : List Line}
  (serves : Serves log last received (done ++ left) todo)

include serves

/-- The messages taken from a connection continue the log. -/
theorem Serves.isPart : done.filter hasTime <+: behind logTime log last := by
  have isBehind := serves.isBehind
  rw [List.filter_append] at isBehind
  exact ⟨left.filter hasTime, isBehind⟩

/-- When no message is still to come, they are all that the log has behind the time. -/
theorem Serves.isAll (nothing : left = []) : done.filter hasTime = behind logTime log last := by
  have isBehind := serves.isBehind
  rw [nothing, List.append_nil] at isBehind
  exact isBehind

include isLog

theorem Serves.timed {line : Line} (member : line ∈ done.filter hasTime) :
    logTime line ≠ [] ∧ (logTime line).length ≤ room :=
  isLog.timed line (mem_of_mem_behind logTime (serves.isPart.subset member))

/-- The client remembers the time of the last of them. -/
theorem Serves.times : done.filterMap (lineTime room) = (done.filter hasTime).map logTime :=
  times_of_lines fun _ member => (serves.timed isLog member).2

theorem Serves.times_ne_nil {time : List Byte} (member : time ∈ done.filterMap (lineTime room)) :
    time ≠ [] := by
  rw [serves.times isLog] at member
  obtain ⟨line, taken, rfl⟩ := List.mem_map.mp member
  exact (serves.timed isLog taken).1

end Serves

/-! ## The time that a client names -/

/-- The time that is named for a string that is kept. -/
def namedTime (time : List Byte) : Option (List Byte) := if time = [] then none else some time

theorem namedTime_ne_nil {time text : List Byte} (named : namedTime time = some text) :
    text ≠ [] := by
  rw [namedTime] at named
  split at named
  · cases named
  · rename_i nonempty
    cases named
    exact nonempty

theorem namedTime_getD {times : List (List Byte)} (some : ∀ time ∈ times, time ≠ [])
    (time : List Byte) :
    namedTime (times.getLast?.getD time) = times.getLast?.or (namedTime time) := by
  cases last : times.getLast? with
  | none => rfl
  | some time' => exact if_neg (some time' (List.mem_of_getLast? last))

end ParseEmbedded.Push
