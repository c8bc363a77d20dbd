import ParseEmbedded.Library.Origin
import ParseEmbedded.Unix.PushCallbacks
import ParseEmbedded.Unix.PushDelivery

/-!
# Objects bigger than the buffer

A full buffer without a message is emptied, and the rest of the object that filled it is looked
through from its middle. What is unread is then no stream of lines any more, but it is still the
end of what has been received, with some bytes overwritten by zeros (`Served.stems`). So a message
that is found is a piece of the stream, and `streamText_drop_first` says that it is an object
unless it begins inside one.
-/

set_option autoImplicit false

namespace ParseEmbedded.Push

open Json SimpleJson

/-! ## Positions in a stream -/

/-- The position is inside an object, behind its first byte. -/
def InsideObject : List Line → Nat → Prop
  | [], _ => False
  | line :: lines, position =>
      (0 < position ∧ position < line.object.text.length) ∨
        (line.text.length ≤ position ∧ InsideObject lines (position - line.text.length))

instance decidableInsideObject :
    (lines : List Line) → (position : Nat) → Decidable (InsideObject lines position)
  | [], _ => .isFalse id
  | line :: lines, position =>
      have := decidableInsideObject lines (position - line.text.length)
      inferInstanceAs (Decidable (_ ∨ _))

/-- Where a brace opens that is not inside an object, a line begins. -/
theorem streamText_drop_first : ∀ {lines : List Line} {position : Nat} {rest : List Byte},
    (streamText lines).drop position = Byte.openBrace :: rest → ¬ InsideObject lines position →
      ∃ line ∈ lines, ∃ after, (streamText lines).drop position = streamText (line :: after) := by
  intro lines
  induction lines with
  | nil =>
      intro position rest begins
      simp at begins
  | cons line lines ih =>
      intro position rest begins outside
      rw [InsideObject, not_or] at outside
      have isText : streamText (line :: lines) = line.text ++ streamText lines := by
        rw [streamText, streamText, List.flatMap_cons]
      rcases Nat.lt_or_ge position line.text.length with within | behind
      · by_cases first : position = 0
        · exact ⟨line, List.mem_cons_self .., lines, by rw [first, List.drop_zero]⟩
        · -- what is left of the line is its ending, which has no brace
          have ending : line.object.text.length ≤ position := by
            by_contra inside
            exact outside.1 ⟨Nat.pos_of_ne_zero first, by omega⟩
          rw [isText, List.drop_append_of_le_length (Nat.le_of_lt within), Line.text,
            List.drop_append, List.drop_of_length_le ending, List.nil_append] at begins
          have left :
              line.ending.separator.bytes.drop (position - line.object.text.length) ≠ [] := by
            rw [Line.text, List.length_append] at within
            rw [ne_eq, List.drop_eq_nil_iff]
            omega
          obtain ⟨c, tail, isLeft⟩ := List.exists_cons_of_ne_nil left
          have member : c ∈ line.ending.separator.bytes :=
            List.mem_of_mem_drop (isLeft ▸ List.mem_cons_self ..)
          rw [isLeft, List.cons_append] at begins
          rw [(List.cons.inj begins).1] at member
          exact absurd member line.ending.separator.noBrace
      · have skip : (streamText (line :: lines)).drop position =
            (streamText lines).drop (position - line.text.length) := by
          rw [isText, List.drop_append, List.drop_of_length_le behind, List.nil_append]
        rw [skip] at begins ⊢
        obtain ⟨first, member, after, same⟩ := ih begins fun inside => outside.2 ⟨behind, inside⟩
        exact ⟨first, List.mem_cons_of_mem _ member, after, same⟩

/-- **A message that begins in a stream where no object has begun yet is the next object.** -/
theorem object_of_completeMessage {line : Line} {after : List Line} {piece rest : List Byte}
    (stream : piece ++ rest = streamText (line :: after))
    (complete : completeMessage piece = some ⟨0, piece.length⟩) : piece = line.object.text := by
  have stream' : piece ++ rest = Separator.none.bytes ++ streamText (line :: after) := stream
  rcases completeMessage_stream stream' with
    ⟨none, -⟩ | ⟨first, behind, tail, same, found, split, -⟩
  · rw [none] at complete
    cases complete
  · cases same
    rw [complete] at found
    have length : piece.length = line.object.text.length :=
      congrArg Message.length (Option.some.inj found)
    have split : piece = line.object.text ++ tail := split
    have noTail : tail = [] := by
      have := congrArg List.length split
      rw [List.length_append] at this
      exact List.length_eq_zero_iff.mp (by omega)
    rw [split, noTail, List.append_nil]

end ParseEmbedded.Push

namespace ParseEmbedded.Unix

open Json SimpleJson Push Runs Origin

/-! ## What is unread stems from the stream -/

theorem Served.stems {t : Transition} (served : Served t) {received : List Byte}
    (stems : Stems Byte.nul received t.before.unread) :
    Stems Byte.nul (received ++ t.output.received) t.after.unread := by
  have arrived : Stems Byte.nul (received ++ t.output.received) (buffered t) :=
    stems.append t.output.received
  cases served with
  | kept incomplete unread =>
      rw [unread]
      exact arrived
  | dropped incomplete nonneg nothing full used =>
      rw [PushBuffer.unread_of_nonpos (Int.le_of_eq used)]
      exact .nil _
  | served m complete nonneg unread =>
      rw [unread]
      exact (arrived.set _).drop _

/-- **At every call of a run the unread bytes are the end of what has been received.** -/
theorem run_stems (word : WordSize) (calls : List Call) :
    ∀ {buffer : ReceiveBuffer} {received : List Byte}, Bounded buffer →
      Stems Byte.nul received buffer.unread →
      ∀ {front back : List Transition} {t : Transition},
        run (pushStep word) buffer calls = front ++ t :: back →
          Served t ∧ Stems Byte.nul (received ++ receivedBytes front) t.before.unread := by
  induction calls with
  | nil =>
      intro buffer received _ _ front back t split
      simp at split
  | cons call calls ih =>
      intro buffer received bounded stems front back t split
      have served := process_served word bounded call
      rw [run_cons] at split
      cases front with
      | nil =>
          rw [← (List.cons.inj split).1, receivedBytes, List.flatMap_nil, List.append_nil]
          exact ⟨served, stems⟩
      | cons first front =>
          obtain ⟨isFirst, more⟩ := List.cons.inj split
          rw [← isFirst, receivedBytes, List.flatMap_cons, ← List.append_assoc]
          exact ih (served.bounded bounded) (served.stems stems) more

/-! ## What a call passes to the callback -/

/-- Only a client with a callback is passed a string, and it is no heartbeat. -/
def Passes (callback : Bool) (events : List Event) : Prop :=
  ∀ text ∈ events.filterMap Event.delivered, callback = true ∧ isBeat text = false

theorem Passes.silent {callback : Bool} {events : List Event}
    (nothing : events.filterMap Event.handed = []) : Passes callback events := by
  intro text delivered
  have handed := handed_of_delivered delivered
  rw [nothing] at handed
  cases handed

theorem handOn_passes (client : ParseClientInternal) (message : CString) :
    Passes client.pushCallback (handOn client message) := by
  intro text delivered
  have same := isHeartbeat_eq message
  rw [handOn] at delivered
  by_cases beat : isHeartbeat message = true
  · rw [if_pos beat] at delivered
    cases delivered
  · rw [if_neg beat] at delivered
    by_cases callback : client.pushCallback = true
    · rw [if_pos callback] at delivered
      cases List.mem_singleton.mp delivered
      exact ⟨callback, by simpa [← same] using beat⟩
    · rw [if_neg callback] at delivered
      cases delivered

theorem processMessage_passes (client : ParseClientInternal) (loop : Loop) (exit : LoopExit)
    (index : Nat) :
    Passes client.pushCallback (processMessage client loop exit index).2.events := by
  intro text delivered
  rw [processMessage_events, List.filterMap_append] at delivered
  rcases List.mem_append.mp delivered with stored | passed
  · exact Passes.silent (rememberTime_handed ..) text stored
  · rw [← (rememberTime_client client _).1]
    exact handOn_passes _ _ text passed

theorem processReceived_passes (word : WordSize) (call : Call) (loop : Loop) (exit : LoopExit) :
    Passes call.client.pushCallback (processReceived word call loop exit).2.events := by
  have nothing : Passes call.client.pushCallback (processNothing call loop exit).2.events :=
    .silent (sendHeartbeat_handed call.client call.seconds)
  cases exit with
  | failed code =>
      refine .silent ?_
      change List.filterMap _ (if call.client.pushCallback then _ else _) = _
      split <;> rfl
  | left | again =>
      rw [processReceived_holds word call fun _ => LoopExit.noConfusion]
      split
      · exact .silent rfl
      · split
        · split
          · exact processMessage_passes call.client loop _ _
          · exact nothing
        · exact nothing

theorem process_passes (word : WordSize) (buffer : ReceiveBuffer) (call : Call) :
    Passes call.client.pushCallback
      (parseProcessNextPushNotification word buffer call).2.events := by
  rw [parseProcessNextPushNotification]
  split
  · exact .silent rfl
  · exact processReceived_passes word call _ _

/-- Every string passed to the callback is one of the objects sent. -/
def DeliversWhole (lines : List Line) (t : Transition) : Prop :=
  ∀ text ∈ t.output.delivered, ∃ line ∈ lines, text = line.object.text

/-- Where the unread bytes of a call begin in the stream, when these calls have come before. -/
def unreadAt (front : List Transition) (t : Transition) : Nat :=
  (receivedBytes front).length - t.before.unread.length

/-- The call of a client with a callback completes a message, no heartbeat, that begins inside an
object: the buffer has lost the bytes in front of it. -/
def TakesPiece (lines : List Line) (front : List Transition) (t : Transition) : Prop :=
  t.input.client.pushCallback = true ∧ ∃ m, completion t = some m ∧
    isBeat (m.text (buffered t)) = false ∧ InsideObject lines (unreadAt front t + m.start)

/-- **A message stands in the stream where the bytes are that it has come from.** -/
theorem text_in_stream {front back : List Transition} {t : Transition} {m : Message}
    {stream todo : List Byte} (stems : Stems Byte.nul (receivedBytes front) t.before.unread)
    (isIn : m.IsIn (buffered t))
    (sent : receivedBytes (front ++ t :: back) ++ todo = stream) :
    ∃ rest, stream.drop (unreadAt front t + m.start) = m.text (buffered t) ++ rest := by
  have arrived : Stems Byte.nul (receivedBytes front ++ t.output.received) (buffered t) :=
    stems.append t.output.received
  have position : (receivedBytes front ++ t.output.received).length - (buffered t).length =
      unreadAt front t := by
    rw [buffered, List.length_append, List.length_append, Nat.add_sub_add_right, unreadAt]
  have text : m.text (buffered t) =
      ((receivedBytes front ++ t.output.received).drop (unreadAt front t + m.start)).take
        m.length := position ▸ arrived.slice isIn.noNul
  have sent : receivedBytes front ++ t.output.received ++ (receivedBytes back ++ todo) =
      stream := by
    rw [← sent, receivedBytes, receivedBytes, receivedBytes, List.flatMap_append,
      List.flatMap_cons]
    simp only [List.append_assoc]
  have inside : unreadAt front t + m.start ≤
      (receivedBytes front ++ t.output.received).length := by
    have := isIn.inside
    have := arrived.length_le
    omega
  refine ⟨((receivedBytes front ++ t.output.received).drop (unreadAt front t + m.start)).drop
    m.length ++ (receivedBytes back ++ todo), ?_⟩
  rw [← sent, List.drop_append_of_le_length inside, text,
    ← List.append_assoc _ _ (receivedBytes back ++ todo), List.take_append_drop]

/-- **No fragment is delivered, whatever is dropped, unless it is taken for a message.** -/
theorem lines_delivered_whole (word : WordSize) (data : Block Byte 2048) (lines : List Line)
    (calls : List Call) (todo : List Byte)
    (stream : receivedBytes (run (pushStep word) (unfilled data) calls) ++ todo =
      streamText lines) (front back : List Transition) (t : Transition)
    (split : run (pushStep word) (unfilled data) calls = front ++ t :: back)
    (noPiece : ¬ TakesPiece lines front t) : DeliversWhole lines t := by
  intro text delivered
  have nothing : Stems Byte.nul [] (unfilled data).unread := by
    have empty : (unfilled data).unread = [] := PushBuffer.unread_of_nonpos (Int.le_refl 0)
    rw [empty]
    exact .nil []
  obtain ⟨served, stems⟩ := run_stems word calls (unfilled_bounded data) nothing split
  have isFire : t = fire (pushStep word) t.before t.input :=
    eq_fire_of_mem (pushStep word) (split ▸ List.mem_append_right front (List.mem_cons_self ..))
  obtain ⟨callback, noBeat⟩ : t.input.client.pushCallback = true ∧ isBeat text = false := by
    rw [isFire] at delivered
    exact process_passes word t.before t.input text delivered
  obtain ⟨m, complete, rfl⟩ : ∃ m, completion t = some m ∧ text = m.text (buffered t) := by
    have handed := Processed.handed_of_delivered delivered
    cases served with
    | kept incomplete unread used upper stuck silent =>
        rw [silent] at handed
        cases handed
    | dropped incomplete nonneg nothing full used silent =>
        rw [silent] at handed
        cases handed
    | served m complete nonneg unread used upper text => exact ⟨m, complete, text _ handed⟩
  have found := completeMessage_of_completion complete
  have isIn := isIn_of_completeMessage found
  obtain ⟨rest, stands⟩ := text_in_stream stems isIn (split ▸ stream)
  -- its first byte is a brace, and not inside an object: an object begins there
  obtain ⟨inner, starts⟩ : ∃ inner, m.text (buffered t) = Byte.openBrace :: inner :=
    List.head?_eq_some_iff.mp isIn.first
  have outside : ¬ InsideObject lines (unreadAt front t + m.start) := fun inside =>
    noPiece ⟨callback, m, complete, noBeat, inside⟩
  obtain ⟨line, member, after, same⟩ :=
    streamText_drop_first (stands.trans (by rw [starts, List.cons_append])) outside
  refine ⟨line, member, object_of_completeMessage (stands.symm.trans same) ?_⟩
  rw [isIn.length_text]
  exact completeMessage_text found

/-- An object with 2100 spaces in front of its first value, and an object behind it. -/
def bigLine : Line where
  object :=
    .of (.more [] (.plain "a") [] (List.replicate 2100 .space) (.literal .null) []
      (.last [] (.plain "b") [] [] (.object (nullMember "c")) []))
  ending := .lineFeed

def bigLineCalls : List Call :=
  [⟨openClient, [.ok ((streamText [bigLine]).take 2048)], 0⟩,
    ⟨openClient, [.ok ((streamText [bigLine]).drop 2048)], 0⟩]

/-- Of a message bigger than the buffer the nested object is delivered. -/
theorem lines_delivered_whole_counterexample :
    ¬ ∀ (word : WordSize) (data : Block Byte 2048) (lines : List Line) (calls : List Call)
      (todo : List Byte), LineFeeds lines →
      receivedBytes (run (pushStep word) (unfilled data) calls) ++ todo = streamText lines →
      ∀ t ∈ run (pushStep word) (unfilled data) calls, DeliversWhole lines t := by
  intro whole
  have second := whole .bits64 (Block.fill 2048 0) [bigLine] bigLineCalls []
    (by intro line member; cases List.mem_singleton.mp member; rfl) (by decide +kernel) _
    (List.mem_cons_of_mem _ (List.mem_cons_self ..))
  obtain ⟨line, member, same⟩ := second (nullMember "c").text (by decide +kernel)
  cases List.mem_singleton.mp member
  have lengths := congrArg List.length same
  revert lengths
  decide +kernel

/-- A message bigger than the buffer without a brace in its rest, and a message behind it. -/
def flatLines : List Line :=
  [⟨.of (.last [] (.plain "a") [] (List.replicate 2100 .space) (.literal .null) []), .lineFeed⟩,
    ⟨nullMember "b", .lineFeed⟩]

/-- The first message arrives in three pieces: the second one fills the buffer and is dropped. -/
def flatCalls : List Call :=
  [⟨openClient, [.ok ((streamText flatLines).take 1500), .again], 0⟩,
    ⟨openClient, [.ok (((streamText flatLines).drop 1500).take 548)], 0⟩]

/-- The third piece arrives with the second message. -/
def flatLast : Transition :=
  fire (pushStep .bits64)
    (final (pushStep .bits64) (unfilled (Block.fill 2048 0)) flatCalls)
    ⟨openClient, [.ok ((streamText flatLines).drop 2048)], 0⟩

theorem flatLast_noPiece :
    ¬ TakesPiece flatLines (run (pushStep .bits64) (unfilled (Block.fill 2048 0)) flatCalls)
      flatLast := by
  rintro ⟨-, m, complete, -, inside⟩
  have found : completion flatLast = some ⟨63, 10⟩ := by decide +kernel
  rw [found] at complete
  cases complete
  revert inside
  decide +kernel

/-- The second message is passed on, from behind the rest of the first one. -/
theorem lines_delivered_whole_flat :
    flatLast.before.used = 0 ∧ flatLast.output.delivered = [(nullMember "b").text] ∧
      DeliversWhole flatLines flatLast :=
  ⟨by decide +kernel, by decide +kernel,
    lines_delivered_whole .bits64 (Block.fill 2048 0) flatLines
      (flatCalls ++ [⟨openClient, [.ok ((streamText flatLines).drop 2048)], 0⟩]) []
      (by decide +kernel) _ [] flatLast (run_append ..) flatLast_noPiece⟩

end ParseEmbedded.Unix
