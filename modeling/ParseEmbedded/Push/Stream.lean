import ParseEmbedded.Push.Buffer
import ParseEmbedded.SimpleJson.Splitting

/-!
# Streams of messages

What the server sends: JSON objects, each on a line of its own. `messages` takes a block of
bytes apart again with `getPushJson`, as long as it finds complete messages, and
`messages_stream` says that on a stream of lines it gives back the objects, also behind bytes
that are left of an earlier separator. `completeMessage_stream` is the same for a stream of
which only a first part has arrived: the first object is found exactly when all of it is there.
-/

set_option autoImplicit false

namespace ParseEmbedded.SimpleJson

open Json

/-! ## Separators -/

def Separator.append (first second : Separator) : Separator where
  bytes := first.bytes ++ second.bytes
  noNul := by simp [first.noNul, second.noNul]
  noBrace := by simp [first.noBrace, second.noBrace]
  noQuote := by simp [first.noQuote, second.noQuote]

/-- What a separator holds behind its first bytes. -/
theorem Separator.suffix (s : Separator) {front rest : List Byte}
    (split : s.bytes = front ++ rest) :
    ∃ s' : Separator, s'.bytes = rest := by
  have inside : ∀ b ∈ rest, b ∈ s.bytes := fun b member =>
    split ▸ List.mem_append_right front member
  exact ⟨⟨rest, fun member => s.noNul (inside _ member), fun member => s.noBrace (inside _ member),
    fun member => s.noQuote (inside _ member)⟩, rfl⟩

theorem Separator.front (s : Separator) {front : List Byte} (isPrefix : front <+: s.bytes) :
    ∃ s' : Separator, s'.bytes = front := by
  have inside : ∀ b ∈ front, b ∈ s.bytes := fun b member => isPrefix.subset member
  exact ⟨⟨front, fun member => s.noNul (inside _ member), fun member => s.noBrace (inside _ member),
    fun member => s.noQuote (inside _ member)⟩, rfl⟩

/-- An object of which nothing has arrived. -/
def Cut.nothing : Cut := ⟨[], ⟨.empty [], List.nil_prefix, by simp [Object.text]⟩⟩

end ParseEmbedded.SimpleJson

namespace ParseEmbedded.Push

open Json SimpleJson

/-! ## Lines -/

/-- A line ends with a line feed, or with a carriage return and a line feed. -/
inductive LineEnding where
  | lineFeed
  | carriageReturnLineFeed
  deriving DecidableEq, Repr

def LineEnding.separator : LineEnding → Separator
  | .lineFeed => ⟨[Byte.lineFeed], by decide, by decide, by decide⟩
  | .carriageReturnLineFeed =>
      ⟨[Byte.carriageReturn, Byte.lineFeed], by decide, by decide, by decide⟩

theorem LineEnding.bytes_ne_nil (ending : LineEnding) : ending.separator.bytes ≠ [] := by
  cases ending <;> simp [separator]

/-- An object, and how its line ends. -/
structure Line where
  object : Object
  ending : LineEnding

def Line.text (line : Line) : List Byte := line.object.text ++ line.ending.separator.bytes

/-- The bytes sent for these lines. -/
def streamText (lines : List Line) : List Byte := lines.flatMap Line.text

@[simp] theorem streamText_nil : streamText [] = [] := rfl

@[simp] theorem streamText_cons (line : Line) (lines : List Line) :
    streamText (line :: lines) =
      line.object.text ++ (line.ending.separator.bytes ++ streamText lines) := by
  simp [streamText, Line.text]

/-! ## The first message of a stream -/

theorem completeMessage_object (s : Separator) (o : Object) (rest : List Byte) :
    completeMessage (s.bytes ++ (o.text ++ rest)) = some ⟨s.bytes.length, o.text.length⟩ := by
  have fits : s.bytes.length + o.text.length ≤ (s.bytes ++ (o.text ++ rest)).length := by
    simp only [List.length_append]
    omega
  have notCut : ¬ (o.text.length : Int) = -1 := by omega
  rw [completeMessage, getPushJson_object s o rest fits]
  exact if_neg notCut

theorem completeMessage_cut (s : Separator) (cut : Cut) :
    completeMessage (s.bytes ++ cut.bytes) = none := by
  have result := (getPushJson_cut s cut []).2
  rw [List.append_nil] at result
  rw [completeMessage]
  exact if_pos result

theorem completeMessage_separator (s : Separator) : completeMessage s.bytes = none := by
  have result := completeMessage_cut s .nothing
  rwa [Cut.nothing, List.append_nil] at result

/-- **The first message of a stream is found exactly when all of it has arrived.** -/
theorem completeMessage_stream {lead : Separator} {lines : List Line} {bytes todo : List Byte}
    (stream : bytes ++ todo = lead.bytes ++ streamText lines) :
    (completeMessage bytes = none ∧
      ∀ line rest, lines = line :: rest →
        bytes.length < lead.bytes.length + line.object.text.length) ∨
    ∃ line rest tail, lines = line :: rest ∧
      completeMessage bytes = some ⟨lead.bytes.length, line.object.text.length⟩ ∧
      bytes = lead.bytes ++ (line.object.text ++ tail) ∧
      tail ++ todo = line.ending.separator.bytes ++ streamText rest := by
  have isPrefix : bytes <+: lead.bytes ++ streamText lines := ⟨todo, stream⟩
  rcases prefix_append_split isPrefix with short | ⟨behind, rfl, isBehind⟩
  · obtain ⟨s, rfl⟩ := lead.front short
    refine .inl ⟨completeMessage_separator s, fun line rest _ => ?_⟩
    have := short.length_le
    have := line.object.two_le_length
    omega
  · have rest : behind ++ todo = streamText lines := by
      rw [List.append_assoc] at stream
      exact List.append_cancel_left stream
    cases lines with
    | nil =>
        have empty := List.append_eq_nil_iff.mp rest
        rw [empty.1, List.append_nil]
        exact .inl ⟨completeMessage_separator lead, fun _ _ same => by cases same⟩
    | cons line lines =>
        rw [streamText_cons] at rest isBehind
        rcases prefix_append_split isBehind with short | ⟨tail, rfl, -⟩
        · by_cases whole : behind = line.object.text
          · subst whole
            have left : todo = line.ending.separator.bytes ++ streamText lines :=
              List.append_cancel_left rest
            have found := completeMessage_object lead line.object []
            simp only [List.append_nil] at found
            exact .inr ⟨line, lines, [], rfl, found, by rw [List.append_nil], left⟩
          · refine .inl ⟨completeMessage_cut lead ⟨behind, line.object, short, whole⟩, ?_⟩
            rintro _ _ ⟨rfl, rfl⟩
            have proper : behind.length < line.object.text.length := by
              refine Nat.lt_of_le_of_ne short.length_le fun same => whole ?_
              exact short.eq_of_length same
            simp only [List.length_append]
            omega
        · refine .inr
            ⟨line, lines, tail, rfl, completeMessage_object lead line.object tail, rfl, ?_⟩
          rw [List.append_assoc] at rest
          exact List.append_cancel_left rest

/-! ## Taking a stream apart -/

/-- The messages that `getPushJson` finds one behind the other, at most `fuel` of them. -/
def messagesIn : Nat → List Byte → List (List Byte)
  | 0, _ => []
  | fuel + 1, bytes =>
      match completeMessage bytes with
      | none => []
      | some m => m.text bytes :: messagesIn fuel (bytes.drop (m.start + m.length))

/-- The messages contained in a block of bytes. -/
def messages (bytes : List Byte) : List (List Byte) := messagesIn bytes.length bytes

theorem messagesIn_stream (lines : List Line) :
    ∀ {fuel : Nat} (lead : Separator), lines.length ≤ fuel →
      messagesIn fuel (lead.bytes ++ streamText lines) =
        lines.map fun line => line.object.text := by
  induction lines with
  | nil =>
      intro fuel lead _
      have none := completeMessage_separator lead
      cases fuel with
      | zero => rfl
      | succ fuel => simp [messagesIn, none]
  | cons line lines ih =>
      intro fuel lead enough
      cases fuel with
      | zero => simp at enough
      | succ fuel =>
          have first : Message.text ⟨lead.bytes.length, line.object.text.length⟩
              (lead.bytes ++ streamText (line :: lines)) = line.object.text := by
            simp [Message.text]
          have behind : (lead.bytes ++ streamText (line :: lines)).drop
              (lead.bytes.length + line.object.text.length) =
                line.ending.separator.bytes ++ streamText lines := by
            rw [← List.drop_drop, List.drop_left, streamText_cons, List.drop_left]
          rw [messagesIn, streamText_cons, completeMessage_object, ← streamText_cons]
          simp only [first, behind, List.map_cons]
          rw [ih line.ending.separator (Nat.le_of_succ_le_succ enough)]

/-- **A stream of lines contains its objects.** -/
theorem messages_stream (lead : Separator) (lines : List Line) :
    messages (lead.bytes ++ streamText lines) = lines.map fun line => line.object.text := by
  refine messagesIn_stream lines lead ?_
  rw [List.length_append]
  suffices lines.length ≤ (streamText lines).length by omega
  induction lines with
  | nil => exact Nat.le_refl 0
  | cons line lines ih =>
      have := line.object.two_le_length
      simp only [streamText_cons, List.length_append, List.length_cons]
      omega

end ParseEmbedded.Push
