import ParseEmbedded.Rtos.PushHistory
import ParseEmbedded.Unix.Resume

/-!
# Both platforms receive the same

The receivers of push notifications on Unix (`parse.c`) and on an RTOS (`push.c`) are written
separately: their buffers have different sizes, they read the time of a message in different ways,
and one is called for each message while the other runs in a loop. A program that is moved from one
to the other relies on what they have in common.

`receivers_agree` says what that is: on the same lines, cut by the connections as they like, the two
callbacks hear the same messages, one of them perhaps more of them than the other, and when both
have heard all of them they remember the same time.
-/

set_option autoImplicit false

namespace ParseEmbedded

open SimpleJson Push Runs
open Unix (callsFrom behindCalls handedMessages receivedBytes pushStep)

/-- What is heard of the beginnings of some lines: one is the beginning of the other. -/
theorem heard_prefixes {lines done done' : List Line} (isPrefix : done <+: lines)
    (isPrefix' : done' <+: lines) :
    let heard := withoutBeats (done.map fun line => line.object.text)
    let heard' := withoutBeats (done'.map fun line => line.object.text)
    heard <+: heard' ∨ heard' <+: heard := by
  have grows : ∀ {first second : List Line}, first <+: second →
      withoutBeats (first.map fun line => line.object.text) <+:
        withoutBeats (second.map fun line => line.object.text) := by
    intro first second isFirst
    exact (isFirst.map _).filter _
  exact (List.prefix_or_prefix_of_prefix isPrefix isPrefix').imp grows grows

/-- A time that fits both clients is remembered by both. -/
theorem lineTime_short {line : Line} (short : (logTime line).length ≤ 31) :
    lineTime 31 line = storedTime line ∧ lineTime 39 line = storedTime line := by
  rw [logTime] at short
  rw [lineTime, lineTime]
  cases isTime : storedTime line with
  | none => exact ⟨rfl, rfl⟩
  | some time =>
      rw [isTime] at short
      change time.length ≤ 31 at short
      exact ⟨congrArg some (List.take_of_length_le short),
        congrArg some (List.take_of_length_le (Nat.le_trans short (by decide)))⟩

/-- **Both platforms receive the same.** The server sends the same lines to both, each with an
object that fits the buffer of the other one too, and the connections hand them over in any pieces
and as far as they like. Of what the two callbacks hear, one is the beginning of the other. When
neither has a message left that it has not taken, they have heard the same, and if no time is longer
than the 31 bytes that Unix keeps, they remember the same one, the last. -/
theorem receivers_agree (word : Push.WordSize) (data : Block Byte 2048) (data' : Block Byte 1024)
    (client : Unix.ParseClientInternal) (client' : Rtos.ParseClientInternal)
    (inputs : Unix.ProcessInputs) (rounds : List Rtos.LoopRound) (lines : List Line)
    (todo todo' : List Byte) (callback : client.pushCallback = true)
    (callback' : client'.callback = true) (isOpen : client'.socketHandle > 0)
    (stream : receivedBytes (run (pushStep word) (Unix.unfilled data)
      (callsFrom word ⟨client, Unix.unfilled data⟩ inputs)) ++ todo = streamText lines)
    (stream' : Rtos.receivedIn (Rtos.parseRunPushLoop ⟨client', Rtos.unfilled data'⟩ rounds).2 ++
      todo' = streamText lines)
    (lineFeeds : ∀ line ∈ lines, line.ending = .lineFeed)
    (fits : ∀ line ∈ lines, line.object.text.length ≤ 2048) :
    let heard := withoutBeats (handedMessages (run (pushStep word) (Unix.unfilled data)
      (callsFrom word ⟨client, Unix.unfilled data⟩ inputs)))
    let after := behindCalls word ⟨client, Unix.unfilled data⟩ inputs
    let loop := Rtos.parseRunPushLoop ⟨client', Rtos.unfilled data'⟩ rounds
    (heard <+: Rtos.deliveredIn loop.2 ∨ Rtos.deliveredIn loop.2 <+: heard) ∧
      (messages (after.buffer.unread ++ todo) = [] →
        messages (loop.1.buffer.unread ++ todo') = [] →
          heard = Rtos.deliveredIn loop.2 ∧
            ((∀ line ∈ lines, (logTime line).length ≤ 31) → (∃ line ∈ lines, hasTime line) →
              after.client.lastPushTime.map CString.bytes =
                some (Rtos.stringOf loop.1.client.lastPushTime))) := by
  obtain ⟨done, left, isLines, handed, behind, time⟩ :=
    Unix.behindCalls_takes word data client inputs callback stream lineFeeds fits
  obtain ⟨done', left', isLines', takes⟩ := Rtos.loop_takes rounds
    (s := ⟨client', Rtos.unfilled data'⟩) callback' isOpen lineFeeds
    ⟨Rtos.unfilled_bounded data', Separator.none, stream', fun _ => rfl⟩
  have delivered : Rtos.deliveredIn
      (Rtos.parseRunPushLoop ⟨client', Rtos.unfilled data'⟩ rounds).2 =
        withoutBeats (done'.map fun line => line.object.text) := by
    have none : (Rtos.lastNotice (Rtos.parseRunPushLoop
        ⟨client', Rtos.unfilled data'⟩ rounds).1.client).filterMap Rtos.Event.delivered = [] := by
      rw [Rtos.lastNotice]
      split <;> rfl
    rw [Rtos.deliveredIn_eq, takes.seen, List.filterMap_append, none, List.append_nil,
      Rtos.delivered_lines]
  dsimp only
  rw [handed, delivered]
  refine ⟨heard_prefixes ⟨left, isLines.symm⟩ ⟨left', isLines'.symm⟩, fun all all' => ?_⟩
  obtain ⟨lead, behind', -⟩ := takes.onStream.stream
  rw [behind] at all
  rw [behind', messages_stream] at all'
  obtain rfl : left = [] := List.map_eq_nil_iff.mp all
  obtain rfl : left' = [] := List.map_eq_nil_iff.mp all'
  rw [List.append_nil] at isLines isLines'
  subst isLines
  subst isLines'
  refine ⟨rfl, fun short timed => ?_⟩
  have same : ∀ room, (∀ line ∈ lines, lineTime room line = storedTime line) →
      lines.filterMap (lineTime room) = lines.filterMap storedTime := fun room same =>
    List.filterMap_congr same
  obtain ⟨line, member, isTimed⟩ := timed
  obtain ⟨first, isFirst⟩ := Option.isSome_iff_exists.mp isTimed
  have nonempty : lines.filterMap storedTime ≠ [] :=
    List.ne_nil_of_mem (List.mem_filterMap.mpr ⟨line, member, isFirst⟩)
  obtain ⟨last, isLast⟩ := List.getLast?_isSome.mpr nonempty |> Option.isSome_iff_exists.mp
  have remembered : Rtos.stringOf (Rtos.parseRunPushLoop
      ⟨client', Rtos.unfilled data'⟩ rounds).1.client.lastPushTime = _ := takes.time
  rw [time, remembered, same 31 fun line member => (lineTime_short (short line member)).1,
    same 39 fun line member => (lineTime_short (short line member)).2, isLast]
  rfl

/-- The loop gets the lines at once. -/
def linesAtOnce : List Rtos.LoopRound :=
  [⟨[[⟨1, 0, .bytes (streamText Unix.timedLines)⟩]], false, 0⟩, ⟨[], false, 0⟩]

theorem receivers_agree_noon :
    let heard := withoutBeats (handedMessages (run (pushStep .bits64)
      (Unix.unfilled (Block.fill 2048 0)) (callsFrom .bits64
        ⟨Unix.identifiedClient, Unix.unfilled (Block.fill 2048 0)⟩
        [([.ok (streamText Unix.timedLines)], 0)])))
    let after := behindCalls .bits64 ⟨Unix.identifiedClient, Unix.unfilled (Block.fill 2048 0)⟩
      [([.ok (streamText Unix.timedLines)], 0)]
    let loop := Rtos.parseRunPushLoop ⟨Rtos.openClient, Rtos.unfilled (Block.fill 1024 0)⟩
      linesAtOnce
    (heard <+: Rtos.deliveredIn loop.2 ∨ Rtos.deliveredIn loop.2 <+: heard) ∧
      (messages (after.buffer.unread ++ []) = [] →
        messages (loop.1.buffer.unread ++ []) = [] →
          heard = Rtos.deliveredIn loop.2 ∧
            ((∀ line ∈ Unix.timedLines, (logTime line).length ≤ 31) →
              (∃ line ∈ Unix.timedLines, hasTime line) →
                after.client.lastPushTime.map CString.bytes =
                  some (Rtos.stringOf loop.1.client.lastPushTime))) :=
  receivers_agree .bits64 (Block.fill 2048 0) (Block.fill 1024 0) Unix.identifiedClient
    Rtos.openClient [([.ok (streamText Unix.timedLines)], 0)] linesAtOnce Unix.timedLines [] []
    rfl rfl (by decide) (by decide +kernel) (by decide +kernel) (by decide) (by decide)

end ParseEmbedded
