import ParseEmbedded.Unix.PushCallbacks
import ParseEmbedded.Unix.PushDelivery

/-!
# Listening to the push service

A program that calls `parseProcessNextPushNotification` now and then hears messages through its
callback. `Hears` is what some of these calls do together: what they receive, what they pass to the
callback, and the receive buffer in front of them and behind. Single calls and sequences compose,
and on a stream of lines the messages heard are the objects sent that are no heartbeats
(`Hears.stream`).
-/

set_option autoImplicit false

namespace ParseEmbedded.Unix

open SimpleJson Push Runs

/-- The texts of the messages among what a callback is told. -/
def textsOf (told : List (Option CString)) : List (List Byte) :=
  told.filterMap (Option.map CString.bytes)

theorem textsOf_append (told more : List (Option CString)) :
    textsOf (told ++ more) = textsOf told ++ textsOf more := List.filterMap_append ..

/-- Some calls with a callback receive these bytes, tell the callback these messages and lead from
one buffer to another. -/
def Hears (word : WordSize) (before : ReceiveBuffer) (received : List Byte)
    (told : List (Option CString)) (after : ReceiveBuffer) : Prop :=
  ∃ calls : List Call, (∀ call ∈ calls, call.client.pushCallback = true) ∧
    receivedBytes (run (pushStep word) before calls) = received ∧
    withoutBeats (handedMessages (run (pushStep word) before calls)) = textsOf told ∧
    final (pushStep word) before calls = after

variable {word : WordSize} {before middle after : ReceiveBuffer} {received more : List Byte}
  {told others : List (Option CString)}

theorem Hears.nothing (word : WordSize) (buffer : ReceiveBuffer) : Hears word buffer [] [] buffer :=
  ⟨[], fun _ member => absurd member List.not_mem_nil, rfl, rfl, rfl⟩

theorem Hears.call (word : WordSize) (before : ReceiveBuffer) (call : Call)
    (callback : call.client.pushCallback = true) :
    Hears word before (parseProcessNextPushNotification word before call).2.received
      (parseProcessNextPushNotification word before call).2.told
      (parseProcessNextPushNotification word before call).1 := by
  refine ⟨[call], fun other member => ?_, List.append_nil _, ?_, rfl⟩
  · rw [List.mem_singleton.mp member]
    exact callback
  · have handed : handedMessages (run (pushStep word) before [call]) =
        (parseProcessNextPushNotification word before call).2.handed := List.append_nil _
    rw [handed]
    exact (process_told word before call).messages.symm

/-- What is heard from one buffer to another and on to a third. -/
theorem Hears.append (first : Hears word before received told middle)
    (second : Hears word middle more others after) :
    Hears word before (received ++ more) (told ++ others) after := by
  obtain ⟨calls, all, rfl, isTold, rfl⟩ := first
  obtain ⟨calls', all', rfl, areOthers, rfl⟩ := second
  refine ⟨calls ++ calls', fun call member => ?_, ?_, ?_, final_append ..⟩
  · exact (List.mem_append.mp member).elim (all call) (all' call)
  · rw [run_append, receivedBytes, List.flatMap_append]
    rfl
  · rw [run_append, handedMessages, List.flatMap_append, withoutBeats_append, textsOf_append,
      ← isTold, ← areOthers]
    rfl

/-- **On a stream of lines** that end in a line feed, with objects that fit the buffer, the messages
heard and those that are still to come are the objects sent that are no heartbeats. -/
theorem Hears.stream {data : Block Byte 2048}
    (hears : Hears word (unfilled data) received told after) {lines : List Line} {todo : List Byte}
    (stream : received ++ todo = streamText lines) (lineFeeds : LineFeeds lines)
    (fits : ∀ line ∈ lines, line.object.text.length ≤ 2048) :
    textsOf told ++ withoutBeats (messages (after.unread ++ todo)) =
      withoutBeats (lines.map fun line => line.object.text) := by
  obtain ⟨calls, all, rfl, isTold, rfl⟩ := hears
  have exactly := lines_deliver_exactly word data lines calls todo all stream lineFeeds fits
  rw [DeliversExactly] at exactly
  rw [← isTold, ← withoutBeats_append, exactly]

/-- A message that is heard on a stream of lines is the object of one of them. -/
theorem isObject_of_told {lines : List Line} {rest : List (List Byte)}
    (heard : textsOf told ++ rest = withoutBeats (lines.map fun line => line.object.text))
    {message : CString} (member : some message ∈ told) :
    ∃ line ∈ lines, message = line.object.string ∧ isBeat line.object.text = false := by
  have inTexts : message.bytes ∈ textsOf told := List.mem_filterMap.mpr ⟨_, member, rfl⟩
  have inLines : message.bytes ∈ withoutBeats (lines.map fun line => line.object.text) :=
    heard ▸ List.mem_append_left rest inTexts
  obtain ⟨isText, noBeat⟩ := List.mem_filter.mp inLines
  obtain ⟨line, isLine, same⟩ := List.mem_map.mp isText
  refine ⟨line, isLine, CString.ext_bytes same.symm, ?_⟩
  rw [same]
  exact Bool.not_eq_true' _ |>.mp noBeat

end ParseEmbedded.Unix
