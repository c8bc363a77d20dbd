import ParseEmbedded.Json.Syntax
import ParseEmbedded.Library.InPlace
import ParseEmbedded.Library.Search
import ParseEmbedded.Library.Segments

/-!
# Stripping an empty message

`stripEmptyJSON` of `utils.c` removes the first `{}` of a text of messages, with everything up to
the next brace that opens. It looks for the two bytes anywhere: where they are in a message in front
of the first empty one, that message loses a part of itself.

Such a text is made of the messages with a line end behind each one, but for the last one, which may
lack it (`lines`). The memory ends with the zero behind the text, as the size that the function is
given says.
-/

set_option autoImplicit false

namespace ParseEmbedded.Yun

open Json InPlace Search Segments

/-! ## The source -/

/-- An empty object, which the function looks for. -/
abbrev emptyText : List Byte := [Byte.openBrace, Byte.closeBrace]

/-- The first loop: the place of the first `{}` from this place on. -/
def emptyLoop (size : Nat) : List Byte → Nat → Option Nat
  | [], _ => none
  | c :: data, p =>
      if p < size - 2 then
        if (c :: data).take 2 = emptyText then some p else emptyLoop size data (p + 1)
      else none

/-- The second loop: the place of the next brace that opens, or the end of the data. -/
def nextOpen (data : List Byte) (i : Nat) : Nat :=
  i + ((data.drop i).takeWhile (· ≠ Byte.openBrace)).length

/-- `stripEmptyJSON`, for data of the size that it is given: its result, and the data behind it. -/
def stripEmptyJSON (data : List Byte) : Nat × List Byte :=
  match emptyLoop data.length data 0 with
  | none => (0, data)
  | some p =>
      let i := nextOpen data (p + 2)
      let moved := data.length - i
      (1, fillCells Byte.nul (data.length - (p + moved)) (copyCells moved data p i) (p + moved))

/-! ## Texts of messages -/

/-- Between two messages, and perhaps behind the last one. -/
abbrev lineEnd : List Byte := [Byte.carriageReturn, Byte.lineFeed]

/-- What separates a message from the others. -/
def separator (trailing : Bool) (others : List Object) : List Byte :=
  if others = [] ∧ trailing = false then [] else lineEnd

/-- The text of the messages, with a line end behind the last one or without it. -/
def lines (trailing : Bool) : List Object → List Byte
  | [] => []
  | o :: others => o.text ++ separator trailing others ++ lines trailing others

/-- The text of messages with others behind them. -/
def front (messages : List Object) : List Byte := messages.flatMap fun o => o.text ++ lineEnd

/-- The message is empty. -/
def IsEmptyMessage (o : Object) : Prop := o.text = emptyText

instance (o : Object) : Decidable (IsEmptyMessage o) := inferInstanceAs (Decidable (_ = _))

/-- A message with others on both sides of it. -/
theorem lines_append (trailing : Bool) (before : List Object) (o : Object) (after : List Object) :
    lines trailing (before ++ o :: after) =
      front before ++ (o.text ++ (separator trailing after ++ lines trailing after)) := by
  induction before with
  | nil =>
      rw [List.nil_append, lines, List.append_assoc]
      rfl
  | cons first before ih =>
      have more : separator trailing (before ++ o :: after) = lineEnd :=
        if_neg fun none => List.append_ne_nil_of_right_ne_nil _ (List.cons_ne_nil _ _) none.1
      rw [List.cons_append, lines, more, ih, front, front, List.flatMap_cons]
      simp only [List.append_assoc]

theorem lines_trailing (messages : List Object) : lines true messages = front messages := by
  induction messages with
  | nil => rfl
  | cons o others ih =>
      have ends : separator true others = lineEnd := if_neg fun none => Bool.noConfusion none.2
      rw [lines, ends, ih, front, front, List.flatMap_cons]

/-! ## What a message looks like at its ends -/

theorem Object.text_starts (o : Object) : ∃ rest, o.text = Byte.openBrace :: rest :=
  ⟨_, o.text_eq⟩

theorem Object.text_ends (o : Object) : o.text.getLast? = some Byte.closeBrace := by
  rw [o.text_eq, ← List.cons_append, List.getLast?_concat]

/-- No text inside a message ends with a brace that opens. -/
theorem composes_ends : Composes fun text => text.getLast? ≠ some Byte.openBrace where
  append := by
    intro first second one other
    rw [List.getLast?_append]
    cases last : second.getLast? with
    | none => exact one
    | some c => exact fun same => other (last.trans same)
  inert := by
    intro bytes inert same
    exact (inert _ (List.mem_of_getLast? same)).2.2.1 rfl
  quoted body := by
    rw [quoted, ← List.cons_append, List.getLast?_concat]
    exact fun same => absurd (Option.some.inj same) (by decide)
  brackets inner := by
    rw [← List.cons_append, List.getLast?_concat]
    exact fun same => absurd (Option.some.inj same) (by decide)
  braces inner := by
    rw [← List.cons_append, List.getLast?_concat]
    exact fun same => absurd (Option.some.inj same) (by decide)

/-- **Only an empty message ends with `{}`.** -/
theorem isEmptyMessage_of_suffix {o : Object} (ends : emptyText <:+ o.text) : IsEmptyMessage o := by
  obtain ⟨rest, whole⟩ := ends
  cases rest with
  | nil => exact whole.symm
  | cons c rest =>
      rw [o.text_eq, List.cons_append] at whole
      have inner : (rest ++ [Byte.openBrace]) ++ [Byte.closeBrace] =
          o.inner ++ [Byte.closeBrace] := by
        rw [List.append_assoc]
        exact (List.cons.inj whole).2
      have same : o.inner = rest ++ [Byte.openBrace] := (List.append_cancel_right inner).symm
      have never := composes_ends.objectInner o
      rw [same, List.getLast?_concat] at never
      exact absurd rfl never

/-! ## Where the first `{}` is -/

/-- The first loop looks for the first `{}` of the text. -/
theorem emptyLoop_eq (size : Nat) (text : List Byte) : ∀ p, p + text.length + 1 = size →
    emptyLoop size (text ++ [Byte.nul]) p =
      (search emptyText text).map fun found => p + (text.length - found.length) := by
  induction text with
  | nil =>
      intro p whole
      rw [List.length_nil] at whole
      have outside : ¬ p < size - 2 := by omega
      rw [List.nil_append, emptyLoop, if_neg outside]
      rfl
  | cons c text ih =>
      intro p whole
      rw [List.length_cons] at whole
      rw [List.cons_append, emptyLoop]
      cases text with
      | nil =>
          have outside : ¬ p < size - 2 := by
            rw [List.length_nil] at whole
            omega
          have short : search emptyText [c] = none :=
            search_eq_none_iff.mpr fun there => absurd there.length_le (by simp)
          rw [if_neg outside, short]
          rfl
      | cons next text =>
          have inside : p < size - 2 := by
            rw [List.length_cons] at whole
            omega
          have same : (c :: (next :: text ++ [Byte.nul])).take 2 = emptyText ↔
              emptyText <+: c :: next :: text := by
            rw [List.prefix_iff_eq_take]
            exact eq_comm
          rw [if_pos inside, search]
          by_cases here : emptyText <+: c :: next :: text
          · rw [if_pos (same.mpr here), if_pos here, Option.map_some, Nat.sub_self]
            rfl
          · rw [if_neg (mt same.mp here), if_neg here, ih (p + 1) (by omega)]
            refine Option.map_congr fun found there => ?_
            have short := (search_found there).2.length_le
            have length : (c :: next :: text).length = (next :: text).length + 1 := rfl
            rw [length, Nat.succ_sub short]
            omega

/-- A part without a `{}` that does not end with a brace that opens is passed. -/
theorem search_part {part : List Byte} (none : ¬ emptyText <:+: part)
    (ends : part.getLast? ≠ some Byte.openBrace) (text : List Byte) :
    search emptyText (part ++ text) = search emptyText text := by
  induction part with
  | nil => rfl
  | cons c part ih =>
      have noInfix : ¬ emptyText <:+: part := fun there =>
        none (there.trans (List.suffix_cons c part).isInfix)
      have pass : ¬ emptyText <+: c :: (part ++ text) := by
        intro here
        obtain ⟨opens, rest⟩ := List.cons_prefix_cons.mp here
        cases part with
        | nil => exact ends (congrArg some opens.symm)
        | cons next part =>
            obtain ⟨closes, -⟩ := List.cons_prefix_cons.mp rest
            refine none ⟨[], part, ?_⟩
            rw [← opens, ← closes]
            rfl
      rw [List.cons_append, search_pass pass]
      cases part with
      | nil => rfl
      | cons next part => exact ih noInfix (by rwa [List.getLast?_cons_cons] at ends)

/-- No message has a `{}` in it. -/
def NoneInside (messages : List Object) : Prop := ∀ o ∈ messages, ¬ emptyText <:+: o.text

theorem search_object {o : Object} (none : ¬ emptyText <:+: o.text) (text : List Byte) :
    search emptyText (o.text ++ text) = search emptyText text := by
  refine search_part none ?_ text
  rw [Object.text_ends]
  exact fun same => absurd (Option.some.inj same) (by decide)

/-- Messages without a `{}` in them are passed. -/
theorem search_front {before : List Object} (none : NoneInside before) (text : List Byte) :
    search emptyText (front before ++ text) = search emptyText text := by
  induction before with
  | nil => rfl
  | cons o before ih =>
      obtain ⟨here, others⟩ := List.forall_mem_cons.mp none
      rw [front, List.flatMap_cons, List.append_assoc, List.append_assoc, search_object here,
        lineEnd, List.cons_append, List.cons_append, List.nil_append, search_cons (by decide),
        search_cons (by decide)]
      exact ih others

/-- A `{}` in a message is one in the text. -/
theorem infix_lines (trailing : Bool) {messages : List Object} {o : Object}
    (member : o ∈ messages) : o.text <:+: lines trailing messages := by
  obtain ⟨before, after, rfl⟩ := List.append_of_mem member
  rw [lines_append]
  exact ⟨front before, _, List.append_assoc _ _ _⟩

/-! ## What the function does -/

/-- **A `{}` that is found is removed** with everything up to the next brace that opens. -/
theorem strip_at {front body moved : List Byte}
    (found : emptyLoop (front ++ (emptyText ++ (body ++ moved))).length
      (front ++ (emptyText ++ (body ++ moved))) 0 = some front.length)
    (none : Byte.openBrace ∉ body) (next : ∀ c ∈ moved.head?, c = Byte.openBrace) :
    stripEmptyJSON (front ++ (emptyText ++ (body ++ moved))) =
      (1, front ++ (moved ++ List.replicate (2 + body.length) Byte.nul)) := by
  obtain ⟨gap, isGap⟩ : ∃ gap, gap = emptyText ++ body := ⟨_, rfl⟩
  have gapLength : gap.length = 2 + body.length := by
    rw [isGap, List.length_append]
    rfl
  have data : front ++ (emptyText ++ (body ++ moved)) = front ++ (gap ++ (moved ++ [])) := by
    rw [isGap, List.append_nil, List.append_assoc]
  have behindPair : (front ++ (emptyText ++ (body ++ moved))).drop (front.length + 2) =
      body ++ moved := by
    rw [← List.drop_drop, List.drop_left]
    rfl
  have upTo : (body ++ moved).takeWhile (· ≠ Byte.openBrace) = body := by
    have kept : ∀ c ∈ body, decide (c ≠ Byte.openBrace) = true := fun c member =>
      decide_eq_true fun same => none (same ▸ member)
    rw [List.takeWhile_append_of_pos kept]
    cases moved with
    | nil => exact List.append_nil body
    | cons c moved =>
        obtain rfl := next c rfl
        exact List.append_nil body
  have place : nextOpen (front ++ (emptyText ++ (body ++ moved))) (front.length + 2) =
      front.length + gap.length := by
    rw [nextOpen, behindPair, upTo, gapLength, Nat.add_assoc]
  -- what the loop that moves leaves behind, and the loop that clears overwrites
  obtain ⟨stale, isStale⟩ : ∃ stale, stale = (gap ++ moved).drop moved.length := ⟨_, rfl⟩
  have staleLength : stale.length = gap.length := by
    rw [isStale, List.length_drop, List.length_append, Nat.add_sub_cancel]
  have count : (front ++ (gap ++ (moved ++ []))).length - (front.length + gap.length) =
      moved.length := by
    simp only [List.length_append, List.length_nil]
    omega
  have left : (front ++ (gap ++ (moved ++ []))).length - (front.length + moved.length) =
      stale.length := by
    rw [staleLength]
    simp only [List.length_append, List.length_nil]
    omega
  have copied := copyCells_eq moved front gap []
  rw [← isStale] at copied
  have cleared := fillCells_eq Byte.nul stale (front ++ moved) []
  rw [List.length_append, List.append_assoc, List.append_assoc] at cleared
  rw [data] at found place ⊢
  rw [stripEmptyJSON, found]
  dsimp only
  rw [place, count, left, copied, cleared, staleLength, gapLength, List.append_nil]

/-- What may be behind an empty message: the terminator, or a line end with the terminator or
another message behind it. -/
def BehindMessage (rest : List Byte) : Prop :=
  rest.head? = some Byte.nul ∨
    ∃ c more, rest = lineEnd ++ c :: more ∧ (c = Byte.nul ∨ c = Byte.openBrace)

theorem BehindMessage.append {rest : List Byte} (isBehind : BehindMessage rest)
    (more : List Byte) : BehindMessage (rest ++ more) := by
  rcases isBehind with nul | ⟨c, tail, rfl, isEnd⟩
  · obtain ⟨tail, rfl⟩ := List.head?_eq_some_iff.mp nul
    exact Or.inl rfl
  · exact Or.inr ⟨c, tail ++ more, rfl, isEnd⟩

/-- What is behind a message in a text of messages. -/
theorem behind_separator (trailing : Bool) (others : List Object) :
    BehindMessage (separator trailing others ++ lines trailing others ++ [Byte.nul]) := by
  cases others with
  | nil =>
      cases trailing with
      | false => exact Or.inl rfl
      | true => exact Or.inr ⟨_, [], rfl, Or.inl rfl⟩
  | cons next others =>
      have more : separator trailing (next :: others) = lineEnd :=
        if_neg fun none => List.cons_ne_nil _ _ none.1
      refine Or.inr ⟨Byte.openBrace, next.inner ++ [Byte.closeBrace] ++
        (separator trailing others ++ lines trailing others) ++ [Byte.nul], ?_, Or.inr rfl⟩
      rw [more, lines, next.text_eq]
      simp only [List.append_assoc, List.cons_append]

/-- No part of a message is there that ends with a brace. -/
theorem BehindMessage.eq_nil {part behind : List Byte} (isBehind : BehindMessage (part ++ behind))
    (noNul : Byte.nul ∉ part) (noOpen : Byte.openBrace ∉ part)
    (ends : ∀ c ∈ part.getLast?, c = Byte.closeBrace) : part = [] := by
  match part with
  | [] => rfl
  | [first] =>
      obtain rfl := ends first rfl
      rcases isBehind with nul | ⟨c, more, line, -⟩
      · exact absurd (Option.some.inj nul) (by decide)
      · exact absurd (List.cons.inj line).1 (by decide)
  | [first, second] =>
      obtain rfl := ends second rfl
      rcases isBehind with nul | ⟨c, more, line, -⟩
      · exact absurd (Option.some.inj nul ▸ List.mem_cons_self) noNul
      · exact absurd (List.cons.inj (List.cons.inj line).2).1 (by decide)
  | first :: second :: third :: part =>
      rcases isBehind with nul | ⟨c, more, line, isNul | isOpen⟩
      · exact absurd (Option.some.inj nul ▸ List.mem_cons_self) noNul
      · have here := (List.cons.inj (List.cons.inj (List.cons.inj line).2).2).1
        exact absurd (by simp [here, isNul]) noNul
      · have here := (List.cons.inj (List.cons.inj (List.cons.inj line).2).2).1
        exact absurd (by simp [here, isOpen]) noOpen

theorem front_noNul (messages : List Object) : Byte.nul ∉ front messages := by
  intro member
  obtain ⟨o, -, inText⟩ := List.mem_flatMap.mp member
  rcases List.mem_append.mp inText with inObject | inEnd
  · exact o.noNul inObject
  · exact absurd inEnd (by decide)

/-- What a segment is that starts a text with `{}` in front, if another segment follows it. -/
theorem segment_of_pair {segment text rest : List Byte} (is : IsSegment Byte.openBrace segment)
    (same : segment ++ Byte.openBrace :: rest = emptyText ++ text) :
    ∃ body, segment = emptyText ++ body ∧ Byte.openBrace ∉ body := by
  obtain ⟨body, rfl, none⟩ := is
  have behind := (List.cons.inj same).2
  cases body with
  | nil => exact absurd (List.cons.inj behind).1 (by decide)
  | cons c body =>
      obtain ⟨rfl, -⟩ := List.cons.inj behind
      exact ⟨body, rfl, List.not_mem_of_not_mem_cons none⟩

/-- The function removes the first segment from the first `{}` on, where an empty message is behind
it. -/
theorem strip_segment {front found last : List Byte} {init : List (List Byte)}
    (behind : List Byte)
    (there : search emptyText (front ++ found) = some found) (cut : found = init.flatten ++ last)
    (isLast : IsSegment Byte.openBrace last)
    (all : ∀ segment ∈ init, IsSegment Byte.openBrace segment) :
    ∃ zeros, (stripEmptyJSON (front ++ found ++ (lineEnd ++ (emptyText ++ behind)) ++
        [Byte.nul])).2 = front ++ ((init ++ [last ++ lineEnd]).tail.flatten ++
        (emptyText ++ (behind ++ Byte.nul :: List.replicate zeros Byte.nul))) := by
  obtain ⟨first, rest, segments⟩ : ∃ first rest, init ++ [last ++ lineEnd] = first :: rest :=
    List.exists_cons_of_ne_nil (List.append_ne_nil_of_right_ne_nil _ (List.cons_ne_nil _ _))
  have are : ∀ segment ∈ first :: rest, IsSegment Byte.openBrace segment := by
    intro segment member
    rw [← segments] at member
    rcases List.mem_append.mp member with earlier | isHere
    · exact all segment earlier
    · exact List.mem_singleton.mp isHere ▸ isLast.append (by decide)
  obtain ⟨firstIs, restAre⟩ := List.forall_mem_cons.mp are
  have flat : first ++ rest.flatten = found ++ lineEnd := by
    rw [← List.flatten_cons, ← segments, List.flatten_append, List.flatten_singleton, cut,
      List.append_assoc]
  obtain ⟨⟨more, pair⟩, -⟩ := search_found there
  obtain ⟨moved, isMoved⟩ :
      ∃ moved, moved = rest.flatten ++ (emptyText ++ (behind ++ [Byte.nul])) := ⟨_, rfl⟩
  obtain ⟨next, starts⟩ := flatten_append_starts restAre
    (Byte.closeBrace :: (behind ++ [Byte.nul]))
  have movedStarts : moved = Byte.openBrace :: next := isMoved.trans starts
  have pairStarts : first ++ Byte.openBrace :: next =
      emptyText ++ (more ++ (lineEnd ++ (emptyText ++ (behind ++ [Byte.nul])))) := by
    rw [← movedStarts, isMoved, ← List.append_assoc, flat, ← pair]
    simp only [List.append_assoc]
  obtain ⟨body, isPair, noOpen⟩ := segment_of_pair firstIs pairStarts
  have data : front ++ found ++ (lineEnd ++ (emptyText ++ behind)) ++ [Byte.nul] =
      front ++ (emptyText ++ (body ++ moved)) := by
    rw [isMoved, ← List.append_assoc emptyText, ← isPair, ← List.append_assoc first, flat]
    simp only [List.append_assoc]
  have place := emptyLoop_eq _ (front ++ found ++ (lineEnd ++ (emptyText ++ behind))) 0
    (Eq.refl (0 + _ + 1))
  have before : 0 + ((front ++ found ++ (lineEnd ++ (emptyText ++ behind))).length -
      (found ++ (lineEnd ++ (emptyText ++ behind))).length) = front.length := by
    rw [List.append_assoc front, List.length_append, Nat.add_sub_cancel, Nat.zero_add]
  have length : (front ++ found ++ (lineEnd ++ (emptyText ++ behind)) ++ [Byte.nul]).length =
      0 + (front ++ found ++ (lineEnd ++ (emptyText ++ behind))).length + 1 := by
    rw [List.length_append, List.length_singleton, Nat.zero_add]
  rw [search_append there, Option.map_some, before, ← length, data] at place
  refine ⟨2 + body.length, ?_⟩
  rw [data, strip_at place noOpen fun c starts => ?_, segments, List.tail_cons, isMoved]
  · simp only [List.append_assoc, List.singleton_append]
  · rw [movedStarts] at starts
    exact (Option.some.inj starts).symm

/-- **Where a message in front of an empty one has a `{}` in it**, the messages in front are not
left as they are, whatever is left behind them: what is removed is not the empty message. -/
theorem strip_spoils {before : List Object} {o : Object} {behind : List Byte}
    (notEmpty : ¬ IsEmptyMessage o) (inside : emptyText <:+: front before ++ o.text)
    (isBehind : BehindMessage (behind ++ [Byte.nul])) (rest : List Byte) :
    (stripEmptyJSON (front before ++ o.text ++ (lineEnd ++ (emptyText ++ behind)) ++
      [Byte.nul])).2 ≠ front before ++ o.text ++ rest := by
  intro kept
  obtain ⟨intact, isIntact⟩ : ∃ intact, intact = front before ++ o.text := ⟨_, rfl⟩
  rw [← isIntact] at inside kept
  obtain ⟨found, there⟩ := Option.ne_none_iff_exists'.mp
    (mt search_eq_none_iff.mp (not_not_intro inside))
  obtain ⟨⟨more, rfl⟩, ahead, whole⟩ := search_found there
  rw [← whole] at there
  -- the text from there on, cut in front of every brace that opens
  obtain ⟨init, last, cut, isLast, all⟩ := exists_segments Byte.openBrace
    (Byte.closeBrace :: more)
  obtain ⟨zeros, result⟩ := strip_segment behind there cut isLast all
  obtain ⟨body, rfl, noOpen⟩ := isLast
  have cut' : emptyText ++ more = init.flatten ++ Byte.openBrace :: body := cut
  have same : init.flatten ++ Byte.openBrace :: (body ++ rest) =
      (init ++ [Byte.openBrace :: body ++ lineEnd]).tail.flatten ++
        Byte.openBrace :: Byte.closeBrace ::
          (behind ++ Byte.nul :: List.replicate zeros Byte.nul) := by
    rw [← whole, result, cut', List.append_assoc] at kept
    have tails := (List.append_cancel_left kept).symm
    rwa [List.append_assoc, List.cons_append] at tails
  have shifted := segments_shift init all
    (IsSegment.append ⟨body, rfl, noOpen⟩ (show Byte.openBrace ∉ lineEnd by decide)) same
  -- the last segment is `{}`, since what follows the empty message is no part of a message
  have ends : (Byte.openBrace :: body).getLast? = some Byte.closeBrace := by
    have last := Object.text_ends o
    have ofIntact : intact.getLast? = some Byte.closeBrace := by
      rw [isIntact, List.getLast?_append, last, Option.some_or]
    rw [← whole, cut', ← List.append_assoc, List.getLast?_append] at ofIntact
    cases isLast : (Byte.openBrace :: body).getLast? with
    | none => exact absurd (List.getLast?_eq_none_iff.mp isLast) (List.cons_ne_nil _ _)
    | some c =>
        rw [isLast, Option.some_or] at ofIntact
        exact ofIntact
  have bodyIs : body = [Byte.closeBrace] := by
    cases body with
    | nil => exact absurd (Option.some.inj ends) (by decide)
    | cons c part =>
        obtain ⟨rfl, behindPart⟩ := List.cons.inj shifted
        have more := isBehind.append (List.replicate zeros Byte.nul)
        rw [List.append_assoc, List.singleton_append, ← behindPart] at more
        have noNul : Byte.nul ∉ part := by
          intro member
          have inIntact : Byte.nul ∈ intact := by
            rw [← whole, cut']
            simp [member]
          rw [isIntact] at inIntact
          exact (List.mem_append.mp inIntact).elim (front_noNul before) o.noNul
        have nothing := more.eq_nil noNul (List.not_mem_of_not_mem_cons noOpen) fun d last => by
          rw [List.getLast?_cons_cons, List.getLast?_cons, last] at ends
          exact Option.some.inj ends
        rw [nothing]
  have suffix : emptyText <:+ intact := by
    refine ⟨ahead ++ init.flatten, ?_⟩
    rw [← whole, cut', bodyIs, List.append_assoc]
  rw [isIntact] at suffix
  exact notEmpty (isEmptyMessage_of_suffix
    (List.suffix_of_suffix_length_le suffix (List.suffix_append _ _) o.two_le_length))

/-! ## The whole function -/

/-- The data keep their size. -/
theorem stripEmptyJSON_length (data : List Byte) :
    (stripEmptyJSON data).2.length = data.length := by
  rw [stripEmptyJSON]
  split
  · rfl
  · exact (fillCells_length ..).trans (copyCells_length ..)

section Strips

variable (trailing : Bool) (messages : List Object)

/-- The messages as the function gets them, with the zero behind them. -/
def given : List Byte := lines trailing messages ++ [Byte.nul]

/-- The function does what it is for: it removes the first empty message, leaves the others as they
are, with or without a line end behind the last one, and fills the rest with zeros. Where there is
none it changes nothing. -/
structure StripsEmpty : Prop where
  result : (∃ o ∈ messages, IsEmptyMessage o) → (stripEmptyJSON (given trailing messages)).1 = 1
  strips : (∃ o ∈ messages, IsEmptyMessage o) → ∃ trailing' zeros,
    (stripEmptyJSON (given trailing messages)).2 =
      lines trailing' (messages.eraseP fun o => IsEmptyMessage o) ++ List.replicate zeros Byte.nul
  size : (stripEmptyJSON (given trailing messages)).2.length = (given trailing messages).length
  keeps : (∀ o ∈ messages, ¬ IsEmptyMessage o) →
    stripEmptyJSON (given trailing messages) = (0, given trailing messages)

/-- The messages in front of the first empty one. -/
def inFront : List Object := messages.takeWhile fun o => ¬ IsEmptyMessage o

end Strips

section Cases

variable {trailing : Bool} {messages before after : List Object} {o : Object}

/-- Where there is no `{}`, nothing changes. -/
theorem strip_nothing {text : List Byte} (nowhere : search emptyText text = none) :
    stripEmptyJSON (text ++ [Byte.nul]) = (0, text ++ [Byte.nul]) := by
  have place := emptyLoop_eq (text ++ [Byte.nul]).length text 0 (by simp)
  rw [nowhere] at place
  rw [stripEmptyJSON, place]
  rfl

/-- Where there is one, the function says so. -/
theorem strip_something {text : List Byte} (inside : emptyText <:+: text) :
    (stripEmptyJSON (text ++ [Byte.nul])).1 = 1 := by
  obtain ⟨found, there⟩ := Option.ne_none_iff_exists'.mp
    (mt search_eq_none_iff.mp (not_not_intro inside))
  have place := emptyLoop_eq (text ++ [Byte.nul]).length text 0 (by simp)
  rw [there] at place
  rw [stripEmptyJSON, place]
  rfl

/-- Messages without a `{}` in them have none in their text. -/
theorem search_lines (noneInside : NoneInside messages) :
    search emptyText (lines trailing messages) = none := by
  induction messages with
  | nil => rfl
  | cons o others ih =>
      obtain ⟨here, later⟩ := List.forall_mem_cons.mp noneInside
      rw [lines, List.append_assoc, search_object here]
      by_cases last : others = [] ∧ trailing = false
      · rw [separator, if_pos last, last.1]
        rfl
      · rw [separator, if_neg last, lineEnd, List.cons_append, List.cons_append, List.nil_append,
          search_cons (by decide), search_cons (by decide)]
        exact ih later

/-- The first `{}` behind messages without one. -/
theorem place_of_first (noneInside : NoneInside before) (text : List Byte) :
    emptyLoop (front before ++ (emptyText ++ text) ++ [Byte.nul]).length
      (front before ++ (emptyText ++ text) ++ [Byte.nul]) 0 = some (front before).length := by
  have place := emptyLoop_eq _ (front before ++ (emptyText ++ text)) 0 (Eq.refl (0 + _ + 1))
  have here : search emptyText (emptyText ++ text) = some (emptyText ++ text) :=
    if_pos (List.prefix_append emptyText text)
  rw [search_front noneInside, here, Option.map_some, List.length_append, Nat.add_sub_cancel,
    Nat.zero_add, Nat.zero_add, ← List.length_append] at place
  rw [List.length_append, List.length_singleton]
  exact place

/-- **The first empty message is removed**, where no message in front of it has a `{}` in it. -/
theorem strip_empty (noneInside : NoneInside before) (isEmpty : IsEmptyMessage o) :
    ∃ trailing' zeros, (stripEmptyJSON (given trailing (before ++ o :: after))).2 =
      lines trailing' (before ++ after) ++ List.replicate zeros Byte.nul := by
  cases after with
  | nil =>
      have data : given trailing (before ++ [o]) =
          front before ++ (emptyText ++ (separator trailing [] ++ [Byte.nul] ++ [])) := by
        rw [given, lines_append, isEmpty, lines]
        simp only [List.append_assoc, List.append_nil]
      have noOpen : Byte.openBrace ∉ separator trailing [] ++ [Byte.nul] := by
        cases trailing <;> decide
      have place := place_of_first noneInside (separator trailing [])
      rw [List.append_assoc, List.append_assoc emptyText,
        ← List.append_nil (_ ++ [Byte.nul])] at place
      rw [data, strip_at place noOpen fun _ none => absurd none (Option.not_mem_none _)]
      exact ⟨true, _, by rw [lines_trailing, List.append_nil, List.nil_append]⟩
  | cons next after =>
      have more : separator trailing (next :: after) = lineEnd :=
        if_neg fun none => List.cons_ne_nil _ _ none.1
      have data : given trailing (before ++ o :: next :: after) = front before ++ (emptyText ++
          (lineEnd ++ (lines trailing (next :: after) ++ [Byte.nul]))) := by
        rw [given, lines_append, isEmpty, more]
        simp only [List.append_assoc]
      have starts : ∀ c ∈ (lines trailing (next :: after) ++ [Byte.nul]).head?,
          c = Byte.openBrace := by
        intro c first
        rw [lines, next.text_eq] at first
        exact (Option.some.inj first).symm
      have place := place_of_first noneInside (lineEnd ++ lines trailing (next :: after))
      rw [List.append_assoc, List.append_assoc emptyText, List.append_assoc lineEnd] at place
      have whole : lines trailing (before ++ next :: after) =
          front before ++ lines trailing (next :: after) := by
        rw [lines_append, lines, List.append_assoc]
      rw [data, strip_at place (by decide) starts]
      refine ⟨trailing, 5, ?_⟩
      rw [whole]
      simp only [List.append_assoc]
      rfl

end Cases

/-- The first empty message, and what is on its sides. -/
theorem exists_first (messages : List Object) (any : ∃ o ∈ messages, IsEmptyMessage o) :
    ∃ before o after, messages = before ++ o :: after ∧ IsEmptyMessage o ∧
      (∀ b ∈ before, ¬ IsEmptyMessage b) ∧ inFront messages = before ∧
        (messages.eraseP fun o => IsEmptyMessage o) = before ++ after := by
  obtain ⟨o, member, isEmpty⟩ := any
  obtain ⟨first, before, after, notBefore, isFirst, whole, erased⟩ :=
    List.exists_of_eraseP (p := fun o => decide (IsEmptyMessage o)) member
      (decide_eq_true isEmpty)
  have firstIs : IsEmptyMessage first := of_decide_eq_true isFirst
  have none : ∀ b ∈ before, ¬ IsEmptyMessage b := fun b inBefore empty =>
    notBefore b inBefore (decide_eq_true empty)
  refine ⟨before, first, after, whole, firstIs, none, ?_, erased⟩
  rw [inFront, whole, List.takeWhile_append_of_pos fun b inBefore =>
    decide_eq_true (none b inBefore), List.takeWhile_cons_of_neg, List.append_nil]
  simp [firstIs]

/-- **The function does what it is for** if and only if no message in front of the first empty one
has a `{}` in it, and no message at all if there is no empty one. -/
theorem strip_empty_iff (trailing : Bool) (messages : List Object) :
    StripsEmpty trailing messages ↔ NoneInside (inFront messages) := by
  constructor
  · intro strips
    by_cases any : ∃ o ∈ messages, IsEmptyMessage o
    · obtain ⟨before, first, after, rfl, isEmpty, notBefore, isFront, erased⟩ :=
        exists_first messages any
      obtain ⟨trailing', zeros, result⟩ := strips.strips any
      rw [isFront]
      intro o member inside
      obtain ⟨init, last, rfl⟩ : ∃ init last, before = init ++ [last] :=
        ⟨_, _, (List.dropLast_concat_getLast (List.ne_nil_of_mem member)).symm⟩
      have inText : o.text <:+: lines false (init ++ [last]) := infix_lines false member
      have intact : lines false (init ++ [last]) = front init ++ last.text := by
        rw [lines_append, lines]
        exact congrArg (front init ++ ·) (List.append_nil _)
      have kept : ∃ rest, (stripEmptyJSON (front init ++ last.text ++ (lineEnd ++ (emptyText ++
          (separator trailing after ++ lines trailing after))) ++ [Byte.nul])).2 =
            front init ++ last.text ++ rest := by
        have text : given trailing (init ++ [last] ++ first :: after) = front init ++ last.text ++
            (lineEnd ++ (emptyText ++ (separator trailing after ++ lines trailing after))) ++
              [Byte.nul] := by
          rw [given, lines_append, isEmpty, front, List.flatMap_append, List.flatMap_singleton,
            front]
          simp only [List.append_assoc]
        rw [← text, result, erased, List.append_assoc init, List.singleton_append, lines_append]
        exact ⟨_, by simp only [List.append_assoc]; rfl⟩
      obtain ⟨rest, kept⟩ := kept
      refine strip_spoils (notBefore last (List.mem_append_right _ List.mem_cons_self))
        (inside.trans (intact ▸ inText)) ?_ rest kept
      exact behind_separator trailing after
    · have noEmpty : ∀ o ∈ messages, ¬ IsEmptyMessage o := fun o member isEmpty =>
        any ⟨o, member, isEmpty⟩
      intro o member inside
      have inMessages := (List.takeWhile_sublist _).subset member
      have one := strip_something (inside.trans (infix_lines trailing inMessages))
      have zero := congrArg Prod.fst (strips.keeps noEmpty)
      exact absurd (zero.symm.trans one) Nat.zero_ne_one
  · intro noneInside
    refine ⟨fun any => ?_, fun any => ?_, stripEmptyJSON_length _, fun noEmpty => ?_⟩
    · obtain ⟨o, member, isEmpty⟩ := any
      refine strip_something ?_
      have inside : emptyText <:+: o.text := isEmpty ▸ List.infix_rfl
      exact inside.trans (infix_lines trailing member)
    · obtain ⟨before, first, after, rfl, isEmpty, notBefore, isFront, erased⟩ :=
        exists_first messages any
      rw [erased]
      exact strip_empty (isFront ▸ noneInside) isEmpty
    · refine strip_nothing (search_lines ?_)
      have all : inFront messages = messages :=
        List.takeWhile_eq_self_iff.mpr fun o member => decide_eq_true (noEmpty o member)
      exact all ▸ noneInside

/-- `{"a":{}}`, a message with an empty object in it. -/
def nested : Object := .of (.last [] (.plain "a") [] [] (.object (.empty [])) [])

/-- The message loses its end, though no message is empty. -/
theorem strip_empty_counterexample :
    ¬ StripsEmpty true [nested] ∧
      stripEmptyJSON (given true [nested]) =
        (1, ascii "\x7b\"a\":" ++ List.replicate 6 Byte.nul) := by
  have notEmpty : ∀ o ∈ [nested], ¬ IsEmptyMessage o := by decide
  refine ⟨fun strips => ?_, by decide +kernel⟩
  have kept := congrArg Prod.fst (strips.keeps notEmpty)
  exact absurd kept (by decide +kernel)

end ParseEmbedded.Yun
