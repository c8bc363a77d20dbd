import ParseEmbedded.Json.Syntax

/-!
# Where a byte of a JSON text stands

Reading a text from the left, a byte stands outside strings, inside a string or right after a
backslash inside a string, and some number of brackets is open. `Weight.after` computes this
position for any bytes, well formed or not. Scanners differ in the brackets they count, so the
weight of a bracket is a parameter.

The two facts scanners need of a value hold of every text put together from tokens
(`Returns.composes`): reading it brings the position back to where it was, and on the way no more
brackets are closed than were opened. For an object this makes its last byte the first one at
which the count returns to its start (`object_prefix`).
-/

set_option autoImplicit false

namespace ParseEmbedded.Json

/-- A prefix of two blocks ends in the first or reaches into the second. -/
theorem prefix_append_split {α : Type*} {read first second : List α}
    (isPrefix : read <+: first ++ second) :
    read <+: first ∨ ∃ rest, read = first ++ rest ∧ rest <+: second := by
  rcases List.prefix_or_prefix_of_prefix isPrefix (List.prefix_append first second) with
    short | ⟨rest, rfl⟩
  · exact .inl short
  · exact .inr ⟨rest, rfl, (List.prefix_append_right_inj first).mp isPrefix⟩

/-- The lexical state of a left-to-right reader. -/
inductive Mode where
  | text
  | string
  | escape
  deriving DecidableEq, Repr

/-- A lexical state, and the brackets open so far. -/
structure Position where
  mode : Mode
  depth : Int
  deriving DecidableEq, Repr

/-- How much each byte outside strings adds to the number of open brackets. Braces count one;
square brackets count or do not, but an opening and a closing one cancel. -/
structure Weight where
  of : Byte → Int
  inert : ∀ b, IsInert b → of b = 0
  openBrace : of Byte.openBrace = 1
  closeBrace : of Byte.closeBrace = -1
  openBracket : 0 ≤ of Byte.openBracket
  closeBracket : of Byte.closeBracket = -of Byte.openBracket

/-- Only braces count. -/
def braces : Weight where
  of b := if b = Byte.openBrace then 1 else if b = Byte.closeBrace then -1 else 0
  inert b inert := by simp [inert.2.2.1, inert.2.2.2.1]
  openBrace := by decide
  closeBrace := by decide
  openBracket := by decide
  closeBracket := by decide

/-- Braces and square brackets count alike. -/
def brackets : Weight where
  of b :=
    if b = Byte.openBrace ∨ b = Byte.openBracket then 1
    else if b = Byte.closeBrace ∨ b = Byte.closeBracket then -1
    else 0
  inert b inert := by
    simp [inert.2.2.1, inert.2.2.2.1, inert.2.2.2.2.1, inert.2.2.2.2.2.1]
  openBrace := by decide
  closeBrace := by decide
  openBracket := by decide
  closeBracket := by decide

namespace Weight

variable (w : Weight)

/-- The position after one more byte. -/
def advance (p : Position) (b : Byte) : Position :=
  match p.mode with
  | .text =>
      if b = Byte.quote then { p with mode := .string } else { p with depth := p.depth + w.of b }
  | .string =>
      if b = Byte.quote then { p with mode := .text }
      else if b = Byte.backslash then { p with mode := .escape }
      else p
  | .escape => { p with mode := .string }

/-- The position after some bytes. -/
def after (p : Position) (bytes : List Byte) : Position := bytes.foldl w.advance p

@[simp] theorem after_nil (p : Position) : w.after p [] = p := rfl

@[simp] theorem after_cons (p : Position) (b : Byte) (bytes : List Byte) :
    w.after p (b :: bytes) = w.after (w.advance p b) bytes := rfl

theorem after_append (p : Position) (first second : List Byte) :
    w.after p (first ++ second) = w.after (w.after p first) second := List.foldl_append

theorem advance_text {b : Byte} (d : Int) (notQuote : b ≠ Byte.quote) :
    w.advance ⟨.text, d⟩ b = ⟨.text, d + w.of b⟩ := by
  simp [advance, notQuote]

theorem advance_inert {b : Byte} (d : Int) (inert : IsInert b) :
    w.advance ⟨.text, d⟩ b = ⟨.text, d⟩ := by
  rw [advance_text w d inert.1, w.inert b inert, Int.add_zero]

@[simp] theorem advance_openQuote (d : Int) :
    w.advance ⟨.text, d⟩ Byte.quote = ⟨.string, d⟩ := rfl

@[simp] theorem advance_closeQuote (d : Int) :
    w.advance ⟨.string, d⟩ Byte.quote = ⟨.text, d⟩ := rfl

@[simp] theorem advance_backslash (d : Int) :
    w.advance ⟨.string, d⟩ Byte.backslash = ⟨.escape, d⟩ := rfl

@[simp] theorem advance_escape (d : Int) (b : Byte) :
    w.advance ⟨.escape, d⟩ b = ⟨.string, d⟩ := rfl

theorem advance_plain {b : Byte} (d : Int) (plain : IsPlain b) :
    w.advance ⟨.string, d⟩ b = ⟨.string, d⟩ := by
  simp [advance, plain.2.1, plain.2.2]

@[simp] theorem advance_openBrace (d : Int) :
    w.advance ⟨.text, d⟩ Byte.openBrace = ⟨.text, d + 1⟩ := by
  rw [advance_text w d (by decide), w.openBrace]

@[simp] theorem advance_closeBrace (d : Int) :
    w.advance ⟨.text, d⟩ Byte.closeBrace = ⟨.text, d - 1⟩ := by
  rw [advance_text w d (by decide), w.closeBrace, Int.sub_eq_add_neg]

/-! ## The depth along the way -/

/-- The position returns to `p` after the bytes, and never holds fewer open brackets. -/
structure Returns (p : Position) (bytes : List Byte) : Prop where
  back : w.after p bytes = p
  above : ∀ read, read <+: bytes → p.depth ≤ (w.after p read).depth

variable {w}

theorem Returns.nil (p : Position) : w.Returns p [] :=
  ⟨rfl, fun read isPrefix => by rw [List.prefix_nil.mp isPrefix]; exact Int.le_refl _⟩

theorem Returns.append {p : Position} {first second : List Byte} (one : w.Returns p first)
    (two : w.Returns p second) : w.Returns p (first ++ second) := by
  refine ⟨by rw [after_append, one.back, two.back], fun read isPrefix => ?_⟩
  rcases prefix_append_split isPrefix with short | ⟨rest, rfl, isRest⟩
  · exact one.above read short
  · rw [after_append, one.back]
    exact two.above rest isRest

theorem Returns.single {p : Position} {b : Byte} (same : w.advance p b = p) :
    w.Returns p [b] := by
  refine ⟨same, fun read isPrefix => ?_⟩
  rcases List.prefix_cons_iff.mp isPrefix with rfl | ⟨rest, rfl, isRest⟩
  · exact Int.le_refl _
  · rw [List.prefix_nil.mp isRest, after_cons, same]
    exact Int.le_refl _

theorem Returns.of_inert {d : Int} {bytes : List Byte} (inert : ∀ b ∈ bytes, IsInert b) :
    w.Returns ⟨.text, d⟩ bytes := by
  induction bytes with
  | nil => exact .nil _
  | cons b bytes ih =>
      have head : w.Returns ⟨.text, d⟩ [b] :=
        .single (w.advance_inert d (inert b (List.mem_cons_self ..)))
      exact head.append (ih fun c member => inert c (List.mem_cons_of_mem b member))

/-- Bytes read between two that open and close a bracket of weight `n`. -/
theorem Returns.enclose {d n : Int} {opening closing : Byte} {inner : List Byte} (nonneg : 0 ≤ n)
    (opens : w.advance ⟨.text, d⟩ opening = ⟨.text, d + n⟩)
    (closes : w.advance ⟨.text, d + n⟩ closing = ⟨.text, d⟩)
    (inside : w.Returns ⟨.text, d + n⟩ inner) :
    w.Returns ⟨.text, d⟩ (opening :: (inner ++ [closing])) := by
  refine ⟨?_, fun read isPrefix => ?_⟩
  · rw [after_cons, opens, after_append, inside.back, after_cons, closes, after_nil]
  · rcases List.prefix_cons_iff.mp isPrefix with rfl | ⟨rest, rfl, isRest⟩
    · exact Int.le_refl _
    rw [after_cons, opens]
    rcases prefix_append_split isRest with short | ⟨tail, rfl, isTail⟩
    · exact Int.le_trans (Int.le_add_of_nonneg_right nonneg) (inside.above rest short)
    · rw [after_append, inside.back]
      rcases List.prefix_cons_iff.mp isTail with rfl | ⟨none, rfl, isNone⟩
      · exact Int.le_add_of_nonneg_right nonneg
      · rw [List.prefix_nil.mp isNone, after_cons, closes]
        exact Int.le_refl _

/-! ## Values -/

/-- One character of a string is read without leaving the string. -/
theorem Returns.stringChar (d : Int) (c : StringChar) : w.Returns ⟨.string, d⟩ c.text := by
  have plain : ∀ b, IsPlain b → w.Returns ⟨.string, d⟩ [b] := fun b isPlain =>
    .single (w.advance_plain d isPlain)
  have escaped : ∀ b, w.Returns ⟨.string, d⟩ [Byte.backslash, b] := fun b => by
    refine ⟨rfl, fun read isPrefix => ?_⟩
    rcases List.prefix_cons_iff.mp isPrefix with rfl | ⟨rest, rfl, isRest⟩
    · exact Int.le_refl _
    rcases List.prefix_cons_iff.mp isRest with rfl | ⟨none, rfl, isNone⟩
    · exact Int.le_refl _
    · rw [List.prefix_nil.mp isNone]
      exact Int.le_refl _
  cases c with
  | plain b isPlain => exact plain b isPlain
  | escape letter => exact escaped letter.byte
  | unicode a b c d' =>
      exact (escaped 117).append ((plain a a.property.plain).append
        ((plain b b.property.plain).append ((plain c c.property.plain).append
          (plain d' d'.property.plain))))

theorem Returns.stringBody (d : Int) (body : StringBody) :
    w.Returns ⟨.string, d⟩ body.text := by
  induction body with
  | nil => exact .nil _
  | cons c body ih => exact (Returns.stringChar d c).append ih

theorem Returns.quoted (d : Int) (body : StringBody) : w.Returns ⟨.text, d⟩ (quoted body) := by
  have inside := Returns.stringBody (w := w) d body
  refine ⟨?_, fun read isPrefix => ?_⟩
  · rw [Json.quoted, after_cons, advance_openQuote, after_append, inside.back]
    rfl
  · rcases List.prefix_cons_iff.mp isPrefix with rfl | ⟨rest, rfl, isRest⟩
    · exact Int.le_refl _
    rw [after_cons, advance_openQuote]
    rcases prefix_append_split isRest with short | ⟨tail, rfl, isTail⟩
    · exact inside.above rest short
    · rw [after_append, inside.back]
      rcases List.prefix_cons_iff.mp isTail with rfl | ⟨none, rfl, isNone⟩
      · exact Int.le_refl _
      · rw [List.prefix_nil.mp isNone]
        exact Int.le_refl _

theorem Returns.braces {d : Int} {inner : List Byte} (inside : w.Returns ⟨.text, d + 1⟩ inner) :
    w.Returns ⟨.text, d⟩ (Byte.openBrace :: (inner ++ [Byte.closeBrace])) := by
  refine .enclose (by decide) (w.advance_openBrace d) ?_ inside
  rw [advance_closeBrace, Int.add_sub_cancel]

theorem Returns.brackets {d : Int} {inner : List Byte}
    (inside : w.Returns ⟨.text, d + w.of Byte.openBracket⟩ inner) :
    w.Returns ⟨.text, d⟩ (Byte.openBracket :: (inner ++ [Byte.closeBracket])) := by
  refine .enclose w.openBracket (w.advance_text d (by decide)) ?_ inside
  rw [w.advance_text _ (by decide), w.closeBracket, Int.add_neg_cancel_right]

/-- **Reading a text brings the position back**, and closes no bracket it did not open. -/
theorem Returns.composes : Composes fun bytes => ∀ d, w.Returns ⟨.text, d⟩ bytes where
  append first second d := (first d).append (second d)
  inert inert _ := .of_inert inert
  quoted body d := .quoted d body
  brackets inside _ := .brackets (inside _)
  braces inside _ := .braces (inside _)

theorem Returns.inner (d : Int) (o : Object) : w.Returns ⟨.text, d⟩ o.inner :=
  Returns.composes.objectInner o d

/-- **A brace opened by an object stays open until its last byte.** -/
theorem object_prefix (d : Int) (o : Object) {read : List Byte} (isPrefix : read <+: o.text)
    (nonempty : read ≠ []) (proper : read ≠ o.text) :
    d + 1 ≤ (w.after ⟨.text, d⟩ read).depth := by
  rw [Object.text_eq] at isPrefix proper
  rcases List.prefix_cons_iff.mp isPrefix with rfl | ⟨rest, rfl, isRest⟩
  · exact absurd rfl nonempty
  rw [after_cons, advance_openBrace]
  rcases prefix_append_split isRest with short | ⟨tail, rfl, isTail⟩
  · exact (Returns.inner (d + 1) o).above rest short
  · rcases List.prefix_cons_iff.mp isTail with rfl | ⟨none, rfl, isNone⟩
    · refine Int.le_of_eq ?_
      rw [List.append_nil, (Returns.inner (d + 1) o).back]
    · rw [List.prefix_nil.mp isNone] at proper
      exact absurd rfl proper

/-! ## Reading two bytes at an escape

A scanner that keeps an in-string flag instead of a lexical state reads an escape as a whole. -/

/-- The position of a scanner that stands between characters. -/
def standing (inString : Bool) (depth : Int) : Position :=
  ⟨if inString then .string else .text, depth⟩

theorem standing_inj {inString inString' : Bool} {depth depth' : Int}
    (same : standing inString depth = standing inString' depth') :
    inString = inString' ∧ depth = depth' := by
  cases inString <;> cases inString' <;> simp_all [standing]

@[simp] theorem advance_standing_quote (inString : Bool) (depth : Int) :
    w.advance (standing inString depth) Byte.quote = standing (!inString) depth := by
  cases inString <;> rfl

theorem advance_standing (inString : Bool) (depth : Int) {c : Byte}
    (noEscape : ¬ (inString = true ∧ c = Byte.backslash)) :
    ∃ inString' depth', w.advance (standing inString depth) c = standing inString' depth' := by
  cases inString with
  | false =>
      by_cases quote : c = Byte.quote
      · exact ⟨true, depth, by rw [quote]; rfl⟩
      · exact ⟨false, depth + w.of c, w.advance_text depth quote⟩
  | true =>
      by_cases quote : c = Byte.quote
      · exact ⟨false, depth, by rw [quote]; rfl⟩
      · have notBackslash : c ≠ Byte.backslash := fun same => noEscape ⟨rfl, same⟩
        exact ⟨true, depth, by simp [advance, standing, quote, notBackslash]⟩

/-- Induction along the characters a scanner with an in-string flag reads: single bytes, and
escapes of two bytes, the last of which may be cut off. -/
theorem reading_induction {motive : List Byte → Bool → Int → Prop}
    (nil : ∀ inString depth, motive [] inString depth)
    (lone : ∀ depth, motive [Byte.backslash] true depth)
    (escape : ∀ e rest depth, motive rest true depth →
      motive (Byte.backslash :: e :: rest) true depth)
    (step : ∀ c rest inString depth inString' depth',
      ¬ (inString = true ∧ c = Byte.backslash) →
      w.advance (standing inString depth) c = standing inString' depth' →
      motive rest inString' depth' → motive (c :: rest) inString depth) :
    ∀ (bytes : List Byte) (inString : Bool) (depth : Int), motive bytes inString depth
  | [], inString, depth => nil inString depth
  | c :: rest, inString, depth => by
      by_cases isEscape : inString = true ∧ c = Byte.backslash
      · obtain ⟨rfl, rfl⟩ := isEscape
        match rest with
        | [] => exact lone depth
        | e :: rest => exact escape e rest depth (reading_induction nil lone escape step _ _ _)
      · obtain ⟨inString', depth', moved⟩ := w.advance_standing inString depth isEscape
        exact step c rest inString depth inString' depth' isEscape moved
          (reading_induction nil lone escape step _ _ _)

end Weight

end ParseEmbedded.Json
