import ParseEmbedded.Unix.PushStep
import ParseEmbedded.Push.Stream

/-!
# Delivery of a stream of messages

The server sends objects on lines of their own, and the connection cuts the bytes into answers
as it likes. `Served.delivers` follows one call: what is unread and what is still to come is a
stream of lines before and after, and the messages handed on are the objects at its front.
`run_delivers` carries this over a run.

A call keeps the stream as long as the byte it takes off with a message stands behind the
message, and as long as it drops nothing. For lines that end in a line feed alone the first
always holds (`run_onLine`), and so does the second if no object is longer than the buffer:
`lines_deliver_exactly`.
-/

set_option autoImplicit false

namespace ParseEmbedded.Unix

open Json SimpleJson Push Runs

/-- The bytes that the calls of a run have received. -/
def receivedBytes (run : List Transition) : List Byte := run.flatMap fun t => t.output.received

/-- The messages that the calls of a run have handed on or recognised as heartbeats. -/
def handedMessages (run : List Transition) : List (List Byte) :=
  run.flatMap fun t => t.output.handed

/-! ## One call -/

/-- The call drops nothing: a full buffer holds a message. -/
def KeepsAll (t : Transition) : Prop := (buffered t).length = 2048 → completion t ≠ none

/-- The call leaves the stream of lines intact: a message that it completes is the first thing
to read, or else the last, with no brace and no quote among the bytes left of it, and nothing is
dropped. -/
structure KeepsStream (t : Transition) : Prop where
  aligned : ∀ m, completion t = some m → m.start = 0 ∨
    ((buffered t).length = m.start + m.length ∧
      Byte.openBrace ∉ (buffered t).drop (m.length + 1) ∧
      Byte.quote ∉ (buffered t).drop (m.length + 1))
  room : KeepsAll t

/-- A call that completes no message and leaves room keeps the stream. -/
theorem KeepsStream.of_room {t : Transition} (incomplete : completion t = none)
    (room : (buffered t).length ≠ 2048) : KeepsStream t where
  aligned m complete := by
    rw [incomplete] at complete
    cases complete
  room full := absurd full room

theorem KeepsStream.of_message {t : Transition} {m : Message} (complete : completion t = some m)
    (aligned : m.start = 0 ∨ ((buffered t).length = m.start + m.length ∧
      Byte.openBrace ∉ (buffered t).drop (m.length + 1) ∧
      Byte.quote ∉ (buffered t).drop (m.length + 1))) : KeepsStream t where
  aligned m' complete' := by
    rw [complete] at complete'
    cases complete'
    exact aligned
  room _ none := by
    rw [complete] at none
    cases none

/-- Taking off a message and the byte behind it. -/
theorem drop_set_message (text tail : List Byte) :
    ((text ++ tail).set text.length Byte.nul).drop (text.length + 1) = tail.drop 1 := by
  cases tail with
  | nil => simp
  | cons c tail =>
      rw [List.set_append_right _ _ (Nat.le_refl _), Nat.sub_self, ← List.drop_drop]
      simp

/-- The message that a call completes is the first line of the stream. -/
theorem completion_stream {t : Transition} {m : Message} (complete : completion t = some m)
    {lead : Separator} {lines : List Line} {todo : List Byte}
    (stream : buffered t ++ todo = lead.bytes ++ streamText lines) :
    ∃ line rest tail, lines = line :: rest ∧
      m = ⟨lead.bytes.length, line.object.text.length⟩ ∧
      buffered t = lead.bytes ++ (line.object.text ++ tail) ∧
      tail ++ todo = line.ending.separator.bytes ++ streamText rest := by
  have found := completeMessage_of_completion complete
  rcases completeMessage_stream stream with
    ⟨none, -⟩ | ⟨line, rest, tail, same, first, split, behind⟩
  · cases none.symm.trans found
  · exact ⟨line, rest, tail, same, Option.some.inj (found.symm.trans first), split, behind⟩

/-- **One call hands on the front of the stream, and keeps the rest.** -/
theorem Served.delivers {t : Transition} (served : Served t) (bounded : Bounded t.before)
    (keeps : KeepsStream t) (callback : t.input.client.pushCallback = true) {lead : Separator}
    {lines : List Line} {todo : List Byte}
    (stream : buffered t ++ todo = lead.bytes ++ streamText lines) :
    ∃ (lead' : Separator) (done left : List Line), lines = done ++ left ∧
      t.output.handed = done.map (fun line => line.object.text) ∧
      t.after.unread ++ todo = lead'.bytes ++ streamText left := by
  cases served with
  | kept incomplete unread used upper stuck handed =>
      exact ⟨lead, [], lines, rfl, handed, unread ▸ stream⟩
  | dropped incomplete nonneg nothing full =>
      have length := length_buffered nonneg bounded.2
      exact absurd incomplete (keeps.room (by omega))
  | served m complete nonneg unread used upper text handed =>
      have aligned := keeps.aligned m complete
      obtain ⟨line, rest, tail, rfl, rfl, split, behind⟩ := completion_stream complete stream
      have message : Message.text ⟨lead.bytes.length, line.object.text.length⟩ (buffered t) =
          line.object.text := by
        simp [Message.text, split]
      have same := handed callback
      rw [message] at same
      rcases aligned with start | ⟨last, noBrace, noQuote⟩
      · -- the message is the first thing to read: the byte behind it belongs to its separator
        have noLead : lead.bytes = [] := List.length_eq_zero_iff.mp start
        rw [noLead, List.nil_append] at split
        have unread' : t.after.unread = tail.drop 1 := by
          rw [unread, split, noLead]
          simpa using drop_set_message line.object.text tail
        cases tail with
        | nil =>
            exact ⟨line.ending.separator, [line], rest, rfl, same, by rw [unread']; exact behind⟩
        | cons c tail =>
            obtain ⟨c', ending, isEnding⟩ :=
              List.exists_cons_of_ne_nil line.ending.bytes_ne_nil
            obtain ⟨lead', isLead⟩ :=
              line.ending.separator.suffix (show _ = [c'] ++ ending from isEnding)
            rw [isEnding, List.cons_append, List.cons_append] at behind
            refine ⟨lead', [line], rest, rfl, same, ?_⟩
            rw [unread', isLead]
            exact (List.cons.inj behind).2
      · -- the message is the last thing to read: its own last bytes are kept
        have noTail : tail = [] := by
          have := congrArg List.length split
          simp only [List.length_append] at this last
          exact List.length_eq_zero_iff.mp (by omega)
        subst noTail
        have unread' : t.after.unread = (buffered t).drop (line.object.text.length + 1) := by
          rw [unread, List.set_eq_of_length_le (by omega)]
        have noNul : Byte.nul ∉ buffered t := by
          rw [split]
          simp [lead.noNul, line.object.noNul]
        let kept : Separator :=
          ⟨(buffered t).drop (line.object.text.length + 1),
            fun member => noNul (List.mem_of_mem_drop member), noBrace, noQuote⟩
        refine ⟨kept.append line.ending.separator, [line], rest, rfl, same, ?_⟩
        rw [unread', Separator.append, List.append_assoc, ← behind]
        rfl

/-! ## Runs -/

/-- **A run hands on the front of the stream, and keeps the rest.** -/
theorem run_delivers (word : WordSize) (calls : List Call) :
    ∀ {before : ReceiveBuffer} (lead : Separator) {lines : List Line} {todo : List Byte},
      Bounded before → (∀ call ∈ calls, call.client.pushCallback = true) →
      (∀ t ∈ run (pushStep word) before calls, KeepsStream t) →
      before.unread ++ (receivedBytes (run (pushStep word) before calls) ++ todo) =
        lead.bytes ++ streamText lines →
      ∃ (lead' : Separator) (done left : List Line), lines = done ++ left ∧
        handedMessages (run (pushStep word) before calls) =
          done.map (fun line => line.object.text) ∧
        (final (pushStep word) before calls).unread ++ todo = lead'.bytes ++ streamText left := by
  induction calls with
  | nil =>
      intro before lead lines todo _ _ _ stream
      exact ⟨lead, [], lines, rfl, rfl, stream⟩
  | cons call calls ih =>
      intro before lead lines todo bounded callback keeps stream
      have served := process_served word bounded call
      have here : buffered (fire (pushStep word) before call) ++
          (receivedBytes (run (pushStep word) (pushStep word before call).1 calls) ++ todo) =
            lead.bytes ++ streamText lines := by
        rw [← stream, buffered, run_cons]
        simp only [receivedBytes, List.flatMap_cons, List.append_assoc, fire]
      obtain ⟨lead₁, done₁, left₁, rfl, handed₁, stream₁⟩ := served.delivers bounded
        (keeps _ (List.mem_cons_self ..)) (callback call (List.mem_cons_self ..)) here
      obtain ⟨lead₂, done₂, left₂, rfl, handed₂, stream₂⟩ := ih lead₁
        (served.bounded bounded) (fun c member => callback c (List.mem_cons_of_mem _ member))
        (fun t member => keeps t (List.mem_cons_of_mem _ member)) stream₁
      refine ⟨lead₂, done₁ ++ done₂, left₂, (List.append_assoc ..).symm, ?_, stream₂⟩
      rw [run_cons, handedMessages, List.flatMap_cons, handed₁, List.map_append, ← handed₂]
      rfl

/-- The messages handed on so far, followed by those among the bytes unread and not yet received,
are the messages sent. -/
def DeliversExactly (word : WordSize) (data : Block Byte 2048) (calls : List Call)
    (lines : List Line) (todo : List Byte) : Prop :=
  handedMessages (run (pushStep word) (unfilled data) calls) ++
      messages ((final (pushStep word) (unfilled data) calls).unread ++ todo) =
    lines.map fun line => line.object.text

/-- **No message is lost, doubled, reordered or changed in a run that keeps the stream.** -/
theorem delivers_exactly (word : WordSize) (data : Block Byte 2048) (lines : List Line)
    (calls : List Call) (todo : List Byte)
    (callback : ∀ call ∈ calls, call.client.pushCallback = true)
    (stream : receivedBytes (run (pushStep word) (unfilled data) calls) ++ todo =
      streamText lines)
    (keeps : ∀ t ∈ run (pushStep word) (unfilled data) calls, KeepsStream t) :
    DeliversExactly word data calls lines todo := by
  obtain ⟨lead, done, left, rfl, handed, behind⟩ :=
    run_delivers word calls Separator.none (unfilled_bounded data) callback keeps stream
  rw [DeliversExactly, handed, behind, messages_stream, List.map_append]

/-- The object with one member, of this name and with the value `null`. -/
def nullMember (name : String) : Object :=
  .of (.last [] (.plain name) [] [] (.literal .null) [])

/-- Three messages on lines that end in a carriage return and a line feed. -/
def threeLines : List Line :=
  [⟨nullMember "a", .carriageReturnLineFeed⟩,
    ⟨nullMember "b", .carriageReturnLineFeed⟩,
    ⟨nullMember "c", .carriageReturnLineFeed⟩]

/-- The second line is cut before its line feed. -/
def threeLinesCalls : List Call :=
  [⟨openClient, [.ok ((streamText threeLines).take 23)], 0⟩,
    ⟨openClient, [.ok ((streamText threeLines).drop 23)], 0⟩]

/-- The zero stored behind the second message stays in front of the third one. -/
theorem delivers_exactly_counterexample :
    ¬ ∀ (word : WordSize) (data : Block Byte 2048) (lines : List Line) (calls : List Call)
      (todo : List Byte), (∀ line ∈ lines, line.text.length ≤ 2048) →
      (∀ call ∈ calls, call.client.pushCallback = true) →
      receivedBytes (run (pushStep word) (unfilled data) calls) ++ todo = streamText lines →
      DeliversExactly word data calls lines todo := by
  intro delivers
  have exactly : DeliversExactly .bits64 (Block.fill 2048 0) threeLinesCalls threeLines [] :=
    delivers .bits64 (Block.fill 2048 0) threeLines threeLinesCalls [] (by decide) (by decide)
      (by decide +kernel)
  revert exactly
  rw [DeliversExactly]
  decide +kernel

/-- The first message arrives in two answers with its carriage return, the second one behind the
line feed that was still to come and in two calls, and the third one behind both. -/
def threeLinesPieces : List Call :=
  let bytes := streamText threeLines
  [⟨openClient, [.ok (bytes.take 5), .ok ((bytes.drop 5).take 6)], 0⟩,
    ⟨openClient, [.ok ((bytes.drop 11).take 4), .again], 0⟩,
    ⟨openClient, [.ok ((bytes.drop 15).take 7)], 0⟩,
    ⟨openClient, [.ok ((bytes.drop 22).take 6), .ok ((bytes.drop 28).take 6)], 0⟩,
    ⟨openClient, [.ok (bytes.drop 34)], 0⟩]

theorem delivers_exactly_pieces :
    DeliversExactly .bits64 (Block.fill 2048 0) threeLinesPieces threeLines [] := by
  refine delivers_exactly .bits64 (Block.fill 2048 0) threeLines threeLinesPieces []
    (by decide) (by decide +kernel) ?_
  rw [threeLinesPieces]
  simp only [run_cons, run_nil, List.forall_mem_cons]
  -- the first message is the first thing to read, the other two are the last
  exact ⟨.of_message (m := ⟨0, 10⟩) (by decide +kernel) (.inl rfl),
    .of_room (by decide +kernel) (by decide +kernel),
    .of_message (m := ⟨1, 10⟩) (by decide +kernel) (.inr (by decide +kernel)),
    .of_message (m := ⟨2, 10⟩) (by decide +kernel) (.inr (by decide +kernel)),
    .of_room (by decide +kernel) (by decide +kernel), fun _ member => nomatch member⟩

/-! ## Lines that end in a line feed -/

/-- Every line ends in a line feed alone. -/
def LineFeeds (lines : List Line) : Prop := ∀ line ∈ lines, line.ending = .lineFeed

/-- What is unread and still to come starts with an object, or nothing is received any more. -/
def OnLine (buffer : ReceiveBuffer) (todo : List Byte) (lines : List Line) : Prop :=
  buffer.used = -1 ∨ (0 ≤ buffer.used ∧ buffer.unread ++ todo = streamText lines)

/-- Objects that fit the buffer are not dropped. -/
theorem Served.keepsAll {t : Transition} (served : Served t) (bounded : Bounded t.before)
    {lines : List Line} {todo : List Byte}
    (onLine : OnLine t.before (t.output.received ++ todo) lines)
    (fits : ∀ line ∈ lines, line.object.text.length ≤ 2048) : KeepsAll t := by
  intro full none
  rcases onLine with negative | ⟨nonneg, stream⟩
  · cases served with
    | kept incomplete unread used upper stuck =>
        have empty : t.before.unread = [] := PushBuffer.unread_of_nonpos (by omega)
        simp [buffered, empty, stuck negative] at full
    | dropped incomplete nonneg => omega
    | served m complete nonneg => omega
  · have length := length_buffered nonneg bounded.2
    cases served with
    | kept incomplete unread used upper => omega
    | dropped incomplete _ nothing =>
        have stream' : buffered t ++ todo = Separator.none.bytes ++ streamText lines := by
          rw [buffered, List.append_assoc]
          exact stream
        rcases completeMessage_stream stream' with ⟨-, short⟩ | ⟨_, _, _, _, found, -⟩
        · cases lines with
          | nil =>
              have empty := (List.append_eq_nil_iff.mp stream').1
              simp [empty] at full
          | cons line rest =>
              have := short line rest rfl
              have := fits line (List.mem_cons_self ..)
              simp only [Separator.none, List.length_nil] at *
              omega
        · rw [nothing] at found
          cases found
    | served m complete =>
        rw [none] at complete
        cases complete

/-- **On lines that end in a line feed one call stays on the line.** -/
theorem Served.onLine {t : Transition} (served : Served t) (bounded : Bounded t.before)
    {lines : List Line} {todo : List Byte} (lineFeeds : LineFeeds lines)
    (onLine : OnLine t.before (t.output.received ++ todo) lines) (keepsAll : KeepsAll t) :
    KeepsStream t ∧ ∃ left, (∀ line ∈ left, line ∈ lines) ∧ OnLine t.after todo left := by
  have aligned_of_none : completion t = none → KeepsStream t := by
    intro none
    refine ⟨fun m complete => ?_, keepsAll⟩
    rw [none] at complete
    cases complete
  rcases onLine with negative | ⟨nonneg, stream⟩
  · cases served with
    | kept incomplete unread used upper stuck =>
        have silent : t.output.received.length = 0 := by rw [stuck negative]; rfl
        exact ⟨aligned_of_none incomplete, lines, fun _ member => member, .inl (by omega)⟩
    | dropped incomplete nonneg => omega
    | served m complete nonneg => omega
  have stream' : buffered t ++ todo = Separator.none.bytes ++ streamText lines := by
    rw [buffered, List.append_assoc]
    exact stream
  cases served with
  | kept incomplete unread used upper =>
      exact ⟨aligned_of_none incomplete, lines, fun _ member => member,
        .inr ⟨by omega, unread ▸ stream'⟩⟩
  | dropped incomplete _ nothing full =>
      have length := length_buffered nonneg bounded.2
      exact absurd incomplete (keepsAll (by omega))
  | served m complete _ unread used upper =>
      have length := length_buffered nonneg bounded.2
      obtain ⟨line, rest, tail, rfl, rfl, split, behind⟩ := completion_stream complete stream'
      have front : buffered t = line.object.text ++ tail := split
      change t.after.used = _ - ((line.object.text.length : Int) + 1) at used
      refine ⟨.of_message complete (.inl rfl), rest, fun _ member => List.mem_cons_of_mem _ member,
        ?_⟩
      have count := congrArg List.length front
      rw [List.length_append] at count
      have unread' : t.after.unread = tail.drop 1 := by
        rw [unread, front]
        simpa [Separator.none] using drop_set_message line.object.text tail
      rw [lineFeeds line (List.mem_cons_self ..)] at behind
      cases tail with
      | nil =>
          simp only [List.length_nil] at count
          exact .inl (by omega)
      | cons c tail =>
          simp only [List.length_cons] at count
          refine .inr ⟨by omega, ?_⟩
          rw [unread']
          exact (List.cons.inj behind).2

/-- **On lines that end in a line feed a run stays on the line.** -/
theorem run_onLine (word : WordSize) (calls : List Call) :
    ∀ {before : ReceiveBuffer} {lines : List Line} {todo : List Byte}, Bounded before →
      LineFeeds lines →
      OnLine before (receivedBytes (run (pushStep word) before calls) ++ todo) lines →
      (∀ line ∈ lines, line.object.text.length ≤ 2048) →
      ∀ t ∈ run (pushStep word) before calls, KeepsStream t := by
  induction calls with
  | nil =>
      intro before lines todo _ _ _ _ t member
      exact absurd member (List.not_mem_nil)
  | cons call calls ih =>
      intro before lines todo bounded lineFeeds onLine fits
      have served := process_served word bounded call
      have here : OnLine before ((fire (pushStep word) before call).output.received ++
          (receivedBytes (run (pushStep word) (pushStep word before call).1 calls) ++ todo))
            lines := by
        rw [← List.append_assoc]
        exact onLine
      obtain ⟨keepsStream, left, among, next⟩ :=
        served.onLine bounded lineFeeds here (served.keepsAll bounded here fits)
      have later := ih (served.bounded bounded)
        (fun line member => lineFeeds line (among line member)) next
        (fun line member => fits line (among line member))
      exact List.forall_mem_cons.mpr ⟨keepsStream, later⟩

/-- Lines that end in a line feed, with objects that fit the buffer, are delivered exactly. -/
theorem lines_deliver_exactly (word : WordSize) (data : Block Byte 2048) (lines : List Line)
    (calls : List Call) (todo : List Byte)
    (callback : ∀ call ∈ calls, call.client.pushCallback = true)
    (stream : receivedBytes (run (pushStep word) (unfilled data) calls) ++ todo =
      streamText lines)
    (lineFeeds : LineFeeds lines) (fits : ∀ line ∈ lines, line.object.text.length ≤ 2048) :
    DeliversExactly word data calls lines todo := by
  have onLine := run_onLine word calls (unfilled_bounded data) lineFeeds
    (.inr ⟨Int.le_refl 0, stream⟩) fits
  obtain ⟨lead, done, left, rfl, handed, behind⟩ :=
    run_delivers word calls Separator.none (unfilled_bounded data) callback
      onLine stream
  rw [DeliversExactly, handed, behind, messages_stream, List.map_append]

end ParseEmbedded.Unix
