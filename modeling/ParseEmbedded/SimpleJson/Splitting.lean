import ParseEmbedded.SimpleJson.Messages

/-!
# Splitting a text into its messages

On well-formed objects with separators between them the scanners are exact. Reading an object,
the level counter and the string flag of `findJsonEndParams` are the depth and the mode of
`braces` (`findJsonEnd_follows`), so the scan stops at the closing brace of the object and
nowhere before it (`findJsonEnd_object`, `findJsonEnd_cut`). The entry points follow by
induction on the number of objects.
-/

set_option autoImplicit false

namespace ParseEmbedded.SimpleJson

open Json

/-! ## The end of an object -/

theorem findJsonEnd_advance {c : Byte} {data : List Byte} {size : Nat} {inString inString' : Bool}
    {level level' : Int} {pos : Nat} (notNul : c ≠ Byte.nul) (within : pos < size)
    (isOpen : 1 ≤ level') (noEscape : ¬ (inString = true ∧ c = Byte.backslash))
    (moved : braces.advance (Weight.standing inString level) c =
      Weight.standing inString' level') :
    findJsonEndParams (c :: data) size inString level pos =
      findJsonEndParams data size inString' level' (pos + 1) := by
  by_cases quote : c = Byte.quote
  · subst quote
    rw [braces.advance_standing_quote] at moved
    obtain ⟨rfl, rfl⟩ := Weight.standing_inj moved
    exact findJsonEnd_quote within
  cases inString with
  | true =>
      have notBackslash : c ≠ Byte.backslash := fun same => noEscape ⟨rfl, same⟩
      have stays : braces.advance (Weight.standing true level) c = Weight.standing true level := by
        simp [Weight.advance, Weight.standing, quote, notBackslash]
      obtain ⟨rfl, rfl⟩ := Weight.standing_inj (stays.symm.trans moved)
      by_cases opening : c = Byte.openBrace
      · rw [opening, findJsonEnd_openBrace within, if_pos rfl]
      by_cases closing : c = Byte.closeBrace
      · rw [closing, findJsonEnd_closeBrace within, if_pos rfl, if_neg (by omega)]
      · exact findJsonEnd_pass notNul within opening closing quote fun same =>
          absurd same notBackslash
  | false =>
      obtain ⟨rfl, rfl⟩ : false = inString' ∧ level + braces.of c = level' :=
        Weight.standing_inj ((braces.advance_text level quote).symm.trans moved)
      by_cases opening : c = Byte.openBrace
      · subst opening
        rw [findJsonEnd_openBrace within]
        rfl
      by_cases closing : c = Byte.closeBrace
      · subst closing
        rw [braces.closeBrace] at isOpen ⊢
        rw [findJsonEnd_closeBrace within]
        exact if_neg (by simp; omega)
      · rw [findJsonEnd_pass notNul within opening closing quote fun _ => .inl rfl]
        simp [braces, opening, closing]

/-- The bytes read keep at least one brace open. -/
def KeepsOpen (inString : Bool) (level : Int) (bytes : List Byte) : Prop :=
  ∀ read, read <+: bytes → 1 ≤ (braces.after (Weight.standing inString level) read).depth

theorem KeepsOpen.tail {c : Byte} {bytes : List Byte} {inString inString' : Bool}
    {level level' : Int}
    (moved : braces.advance (Weight.standing inString level) c =
      Weight.standing inString' level')
    (keeps : KeepsOpen inString level (c :: bytes)) : KeepsOpen inString' level' bytes := by
  intro read isPrefix
  have := keeps (c :: read) (List.cons_prefix_cons.mpr ⟨rfl, isPrefix⟩)
  rwa [Weight.after_cons, moved] at this

theorem KeepsOpen.escape {e : Byte} {bytes : List Byte} {level : Int}
    (keeps : KeepsOpen true level (Byte.backslash :: e :: bytes)) :
    KeepsOpen true level bytes := by
  intro read isPrefix
  exact keeps (Byte.backslash :: e :: read)
    (List.cons_prefix_cons.mpr ⟨rfl, List.cons_prefix_cons.mpr ⟨rfl, isPrefix⟩⟩)

theorem KeepsOpen.level {bytes : List Byte} {inString : Bool} {level : Int}
    (keeps : KeepsOpen inString level bytes) : 1 ≤ level := keeps [] List.nil_prefix

/-- **While a brace stays open the scan follows the reader of braces.** -/
theorem findJsonEnd_follows (tail : List Byte) (size : Nat) (inString' : Bool) (level' : Int)
    (bytes : List Byte) (inString : Bool) (level : Int) :
    ∀ pos, Byte.nul ∉ bytes → pos + bytes.length ≤ size → KeepsOpen inString level bytes →
      braces.after (Weight.standing inString level) bytes = Weight.standing inString' level' →
      findJsonEndParams (bytes ++ tail) size inString level pos =
        findJsonEndParams tail size inString' level' (pos + bytes.length) := by
  induction bytes, inString, level using braces.reading_induction with
  | nil inString level =>
      intro pos _ _ _ arrived
      obtain ⟨rfl, rfl⟩ := Weight.standing_inj arrived
      rfl
  | lone level =>
      intro pos _ _ _ arrived
      have mode := congrArg Position.mode arrived
      cases inString' <;> cases mode
  | escape e rest level ih =>
      intro pos noNul fits keeps arrived
      simp only [List.mem_cons, not_or, List.length_cons] at noNul fits
      rw [List.cons_append, List.cons_append, findJsonEnd_escape (by omega) (Ne.symm noNul.2.1),
        ih (pos + 2) noNul.2.2 (by omega) keeps.escape arrived]
      congr 1
      simp only [List.length_cons]
      omega
  | step c rest inString level inString₁ level₁ noEscape moved ih =>
      intro pos noNul fits keeps arrived
      simp only [List.mem_cons, not_or, List.length_cons] at noNul fits
      have keepsRest := keeps.tail moved
      rw [List.cons_append, findJsonEnd_advance (Ne.symm noNul.1) (by omega) keepsRest.level
        noEscape moved, ih (pos + 1) noNul.2 (by omega) keepsRest
        (by rwa [Weight.after_cons, moved] at arrived)]
      congr 1
      simp only [List.length_cons]
      omega

/-- A scan whose block ends while a brace is open finds no end. -/
theorem findJsonEnd_open (bytes : List Byte) (inString : Bool) (level : Int) :
    ∀ pos, KeepsOpen inString level bytes →
      (findJsonEndParams bytes (pos + bytes.length) inString level pos).stop = none := by
  induction bytes, inString, level using braces.reading_induction with
  | nil inString level => exact fun pos _ => rfl
  | lone level =>
      intro pos _
      rw [findJsonEnd_pass (by decide) (by simp) (by decide) (by decide) (by decide)
        (fun _ => .inr rfl)]
      rfl
  | escape e rest level ih =>
      intro pos keeps
      by_cases nul : e = Byte.nul
      · have ended : (e :: rest).headD Byte.nul = Byte.nul := nul
        rw [findJsonEnd_pass (by decide) (by simp) (by decide) (by decide) (by decide)
          (fun _ => .inr ended), findJsonEnd_stop (.inl nul)]
        rfl
      · rw [findJsonEnd_escape (by simp) nul]
        have rest := ih (pos + 2) keeps.escape
        rwa [Nat.add_right_comm] at rest
  | step c rest inString level inString₁ level₁ noEscape moved ih =>
      intro pos keeps
      by_cases nul : c = Byte.nul
      · rw [findJsonEnd_stop (.inl nul)]
        rfl
      · have keepsRest := keeps.tail moved
        rw [findJsonEnd_advance nul (by simp) keepsRest.level noEscape moved]
        have rest := ih (pos + 1) keepsRest
        rwa [Nat.add_right_comm] at rest

/-- **The end of an object is its last byte.** -/
theorem findJsonEnd_object (o : Object) (rest : List Byte) {size pos : Nat}
    (fits : pos + o.text.length ≤ size) :
    findJsonEndParams (o.text ++ rest) size false 0 pos =
      ⟨some rest, false, 0, pos + (o.text.length - 1)⟩ := by
  have inside : braces.Returns (Weight.standing false 1) o.inner := .inner 1 o
  have noNul : Byte.nul ∉ o.inner := by
    have whole := o.noNul
    rw [Object.text_eq] at whole
    simp_all
  rw [Object.text_eq] at fits ⊢
  simp only [List.length_cons, List.length_append, List.length_nil] at fits
  rw [List.cons_append, findJsonEnd_openBrace (by omega), List.append_assoc, if_neg (by decide),
    Int.zero_add, findJsonEnd_follows _ size false 1 o.inner false 1 (pos + 1) noNul (by omega)
      inside.above inside.back, List.singleton_append, findJsonEnd_closeBrace (by omega)]
  simp
  omega

/-- A proper prefix of an object has no end. -/
theorem findJsonEnd_cut {o : Object} {bytes : List Byte} (isPrefix : bytes <+: o.text)
    (proper : bytes ≠ o.text) :
    (findJsonEndParams bytes bytes.length false 0 0).stop = none := by
  cases bytes with
  | nil => rfl
  | cons c rest =>
      obtain rfl : c = Byte.openBrace := by
        rw [Object.text_eq] at isPrefix
        exact (List.cons_prefix_cons.mp isPrefix).1
      have keeps : KeepsOpen false 1 rest := fun read isRead => by
        have read' : Byte.openBrace :: read <+: Byte.openBrace :: rest :=
          List.cons_prefix_cons.mpr ⟨rfl, isRead⟩
        refine braces.object_prefix 0 o (read'.trans isPrefix) (List.cons_ne_nil _ _) ?_
        intro whole
        exact proper (isPrefix.eq_of_length_le (whole ▸ read'.length_le))
      rw [findJsonEnd_openBrace (by simp)]
      have := findJsonEnd_open rest false 1 1 keeps
      rwa [Nat.add_comm] at this

/-! ## Texts of several messages -/

/-- Bytes between messages: no zero, no opening brace and no quote. -/
structure Separator where
  bytes : List Byte
  noNul : Byte.nul ∉ bytes
  noBrace : Byte.openBrace ∉ bytes
  noQuote : Byte.quote ∉ bytes

/-- A message with the separator in front of it. -/
structure Framed where
  before : Separator
  object : Object

def Framed.text (frame : Framed) : List Byte := frame.before.bytes ++ frame.object.text

/-- The part of a further object that has arrived: a proper prefix, empty if nothing has. -/
structure Cut where
  bytes : List Byte
  isCut : ∃ o : Object, bytes <+: o.text ∧ bytes ≠ o.text

/-- Objects with separators before, between and after them, and a last object cut short. -/
structure MessageText where
  frames : List Framed
  last : Separator
  cut : Cut

namespace MessageText

def text (t : MessageText) : List Byte :=
  t.frames.flatMap Framed.text ++ (t.last.bytes ++ t.cut.bytes)

/-- The suffix that begins at object number `k`, counted from zero. What has arrived of the
last object counts as one when it is not empty. -/
def objectSuffix (last : Separator) (cut : Cut) : List Framed → Nat → Option (List Byte)
  | [], 0 => if cut.bytes = [] then none else some cut.bytes
  | [], _ + 1 => none
  | frame :: frames, 0 => some (frame.object.text ++ (MessageText.mk frames last cut).text)
  | _ :: frames, k + 1 => objectSuffix last cut frames k

/-- What the call of `getPushJson` after the last message returns. -/
def lastResult (t : MessageText) : Int × Int :=
  if t.cut.bytes = [] then (-1, -1) else (t.last.bytes.length, -1)

@[simp] theorem text_cons (frame : Framed) (frames : List Framed) (last : Separator)
    (cut : Cut) :
    (mk (frame :: frames) last cut).text =
      frame.before.bytes ++ (frame.object.text ++ (mk frames last cut).text) := by
  simp [text, Framed.text]

@[simp] theorem text_nil (last : Separator) (cut : Cut) :
    (mk [] last cut).text = last.bytes ++ cut.bytes := rfl

end MessageText

/-- `calls` successive calls of `getPushJson`, each on the bytes `start + length` further. -/
def pushJsons : Nat → List Byte → Nat → List (Int × Int)
  | 0, _, _ => []
  | calls + 1, data, dataSize =>
      let result := getPushJson data dataSize
      let consumed := (result.start + result.length).toNat
      (result.start, result.length) ::
        pushJsons calls (data.drop consumed) (dataSize - consumed)

/-- `k` successive applications of `findSecondJson`. -/
def secondJsons : Nat → List Byte → Option (List Byte)
  | 0, data => some data
  | k + 1, data => (secondJsons k data).bind findSecondJson

/-! ## The scanners on a separator -/

theorem findJsonBeginning_separator (bytes tail : List Byte) {size : Nat} :
    ∀ {pos : Nat}, Byte.nul ∉ bytes → Byte.openBrace ∉ bytes → Byte.quote ∉ bytes →
      pos + bytes.length ≤ size →
      findJsonBeginningParams (bytes ++ tail) size false pos =
        findJsonBeginningParams tail size false (pos + bytes.length) := by
  induction bytes with
  | nil => exact fun _ _ _ _ => rfl
  | cons c bytes ih =>
      intro pos noNul noBrace noQuote fits
      simp only [List.mem_cons, not_or, List.length_cons] at noNul noBrace noQuote fits
      rw [List.cons_append, findJsonBeginning_pass (Ne.symm noNul.1) (by omega)
        (Ne.symm noBrace.1) (Ne.symm noQuote.1) (fun _ => .inl rfl),
        ih noNul.2 noBrace.2 noQuote.2 (by omega), List.length_cons]
      congr 1
      omega

theorem findJsonBeginning_object (s : Separator) (o : Object) (rest : List Byte) {size : Nat}
    (fits : s.bytes.length + o.text.length ≤ size) :
    findJsonBeginningParams (s.bytes ++ (o.text ++ rest)) size false 0 =
      ⟨some (o.text ++ rest), false, s.bytes.length⟩ := by
  have nonempty := o.two_le_length
  rw [findJsonBeginning_separator _ _ s.noNul s.noBrace s.noQuote (by omega)]
  simp only [Object.text_eq, List.cons_append]
  rw [findJsonBeginning_openBrace (by omega)]
  simp

theorem Cut.cons_of_ne_nil (cut : Cut) (nonempty : cut.bytes ≠ []) :
    ∃ rest, cut.bytes = Byte.openBrace :: rest := by
  obtain ⟨o, isPrefix, -⟩ := cut.isCut
  rw [Object.text_eq] at isPrefix
  rcases List.prefix_cons_iff.mp isPrefix with nil | ⟨rest, same, -⟩
  · exact absurd nil nonempty
  · exact ⟨rest, same⟩

theorem findJsonBeginning_cut (s : Separator) (cut : Cut) :
    findJsonBeginningParams (s.bytes ++ cut.bytes) (s.bytes ++ cut.bytes).length false 0 =
      ⟨if cut.bytes = [] then none else some cut.bytes, false, s.bytes.length⟩ := by
  rw [findJsonBeginning_separator _ _ s.noNul s.noBrace s.noQuote (by simp)]
  by_cases nonempty : cut.bytes = []
  · simp [nonempty, findJsonBeginning_nil]
  · obtain ⟨rest, same⟩ := cut.cons_of_ne_nil nonempty
    rw [same, findJsonBeginning_openBrace (by simp)]
    simp

/-! ## The entry points -/

/-- `getPushJson` finds the object behind a separator. -/
theorem getPushJson_object (s : Separator) (o : Object) (rest : List Byte) {size : Nat}
    (fits : s.bytes.length + o.text.length ≤ size) :
    getPushJson (s.bytes ++ (o.text ++ rest)) size =
      ⟨some (o.text ++ rest), s.bytes.length, o.text.length⟩ := by
  have nonempty := o.two_le_length
  simp only [getPushJson, findJsonBeginning_object s o rest fits, List.drop_left]
  rw [findJsonEnd_object o rest (by omega)]
  simp
  omega

/-- `getPushJson` finds nothing behind a separator, or an object without its end. -/
theorem getPushJson_cut (s : Separator) (cut : Cut) (beyond : List Byte) :
    (getPushJson (s.bytes ++ cut.bytes ++ beyond) (s.bytes ++ cut.bytes).length).start =
        (if cut.bytes = [] then -1 else (s.bytes.length : Int)) ∧
      (getPushJson (s.bytes ++ cut.bytes ++ beyond) (s.bytes ++ cut.bytes).length).length =
        -1 := by
  rw [(getPushJson_append _ beyond).1, (getPushJson_append _ beyond).2, getPushJson_eq,
    findJsonBeginning_cut]
  by_cases nonempty : cut.bytes = []
  · simp [nonempty, BeginningScan.stop]
  · obtain ⟨o, isPrefix, proper⟩ := cut.isCut
    have noEnd := findJsonEnd_cut isPrefix proper
    simp [nonempty, BeginningScan.stop, noEnd]

theorem pushJsons_text (t : MessageText) (beyond : List Byte) :
    pushJsons (t.frames.length + 1) (t.text ++ beyond) t.text.length =
      t.frames.map (fun frame =>
        ((frame.before.bytes.length : Int), (frame.object.text.length : Int))) ++
        [t.lastResult] := by
  obtain ⟨frames, last, cut⟩ := t
  induction frames with
  | nil =>
      have result := getPushJson_cut last cut beyond
      simp only [List.length_nil, pushJsons, List.map_nil, List.nil_append, MessageText.text_nil,
        result, MessageText.lastResult]
      split <;> rfl
  | cons frame frames ih =>
      have fits : frame.before.bytes.length + frame.object.text.length ≤
          (MessageText.mk (frame :: frames) last cut).text.length := by
        simp only [MessageText.text_cons, List.length_append]
        omega
      have result := getPushJson_object frame.before frame.object
        ((MessageText.mk frames last cut).text ++ beyond) fits
      simp only [MessageText.text_cons, List.append_assoc] at result ⊢
      rw [List.length_cons, pushJsons, result]
      have consumed : ((frame.before.bytes.length : Int) + frame.object.text.length).toNat =
          frame.before.bytes.length + frame.object.text.length := by omega
      have left : (frame.before.bytes ++ (frame.object.text ++
          (MessageText.mk frames last cut).text)).length -
            (frame.before.bytes.length + frame.object.text.length) =
          (MessageText.mk frames last cut).text.length := by
        simp only [List.length_append]
        omega
      simp only [consumed, left, ← List.drop_drop, List.drop_left, List.map_cons,
        List.cons_append]
      rw [ih]
      rfl

/-- A text followed by nothing, seen from its first object. -/
theorem findJsonBeginning_text (frames : List Framed) (last : Separator) (cut : Cut) :
    findJsonBeginning (MessageText.mk frames last cut).text =
      MessageText.objectSuffix last cut frames 0 := by
  cases frames with
  | nil =>
      rw [findJsonBeginning, MessageText.text_nil, findJsonBeginning_cut]
      rfl
  | cons frame frames =>
      rw [findJsonBeginning, MessageText.text_cons, findJsonBeginning_object _ _ _ (by simp)]
      rfl

theorem findJsonEnd_whole (o : Object) (rest : List Byte) :
    findJsonEnd (o.text ++ rest) = some rest := by
  rw [findJsonEnd, findJsonEnd_object o rest (by simp)]

theorem findJsonEnd_of_cut (cut : Cut) : findJsonEnd cut.bytes = none := by
  obtain ⟨o, isPrefix, proper⟩ := cut.isCut
  simpa [EndScan.stop, findJsonEnd] using findJsonEnd_cut isPrefix proper

theorem isCompleteJson_text (t : MessageText) :
    isCompleteJson t.text = if t.frames = [] then 0 else 1 := by
  obtain ⟨frames, last, cut⟩ := t
  rw [isCompleteJson, findJsonBeginning_text]
  cases frames with
  | nil =>
      by_cases nonempty : cut.bytes = []
      · simp [MessageText.objectSuffix, nonempty]
      · simp [MessageText.objectSuffix, nonempty, findJsonEnd_of_cut cut]
  | cons frame frames => simp [MessageText.objectSuffix, findJsonEnd_whole]

/-- `findSecondJson` yields the second object of a text. -/
theorem findSecondJson_text (frames : List Framed) (last : Separator) (cut : Cut) :
    findSecondJson (MessageText.mk frames last cut).text =
      MessageText.objectSuffix last cut frames 1 := by
  rw [findSecondJson, findJsonBeginning_text]
  cases frames with
  | nil =>
      by_cases nonempty : cut.bytes = []
      · simp [MessageText.objectSuffix, nonempty]
      · simp [MessageText.objectSuffix, nonempty, findJsonEnd_of_cut cut]
  | cons frame frames =>
      simp only [MessageText.objectSuffix, Option.bind_eq_bind, Option.bind_some,
        findJsonEnd_whole, findJsonBeginning_text]

/-- No separator at all. -/
def Separator.none : Separator :=
  ⟨[], List.not_mem_nil, List.not_mem_nil, List.not_mem_nil⟩

/-- From one object of a text `findSecondJson` leads to the next. -/
theorem findSecondJson_suffix (frames : List Framed) (last : Separator) (cut : Cut) (k : Nat) :
    (MessageText.objectSuffix last cut frames k).bind findSecondJson =
      MessageText.objectSuffix last cut frames (k + 1) := by
  induction frames generalizing k with
  | nil =>
      cases k with
      | zero =>
          by_cases nonempty : cut.bytes = []
          · simp [MessageText.objectSuffix, nonempty]
          · have second := findSecondJson_text [] Separator.none cut
            simp_all [MessageText.objectSuffix, Separator.none]
      | succ k => rfl
  | cons frame frames ih =>
      cases k with
      | zero =>
          have second := findSecondJson_text (⟨Separator.none, frame.object⟩ :: frames) last cut
          rw [MessageText.text_cons] at second
          exact second
      | succ k => exact ih k

theorem secondJsons_text (frames : List Framed) (last : Separator) (cut : Cut) (k : Nat) :
    secondJsons (k + 1) (MessageText.mk frames last cut).text =
      MessageText.objectSuffix last cut frames (k + 1) := by
  induction k with
  | zero => exact findSecondJson_text frames last cut
  | succ k ih => rw [secondJsons, ih, findSecondJson_suffix]

/-- **Splitting a text into its messages is exact.** The calls of `getPushJson`, each on what
the one before left, find every object behind its separator and then nothing, or the place
where an unfinished object begins; `isCompleteJson` tells whether there is an object, and
`findSecondJson` walks from object to object. What lies behind the text plays no part. -/
theorem messages_split_exactly (t : MessageText) (beyond : List Byte) :
    pushJsons (t.frames.length + 1) (t.text ++ beyond) t.text.length =
        t.frames.map (fun frame =>
          ((frame.before.bytes.length : Int), (frame.object.text.length : Int))) ++
          [t.lastResult] ∧
      isCompleteJson t.text = (if t.frames.length ≥ 1 then 1 else 0) ∧
      ∀ k, secondJsons (k + 1) t.text =
        MessageText.objectSuffix t.last t.cut t.frames (k + 1) := by
  refine ⟨pushJsons_text t beyond, ?_, secondJsons_text t.frames t.last t.cut⟩
  rw [isCompleteJson_text]
  cases t.frames <;> simp

end ParseEmbedded.SimpleJson
