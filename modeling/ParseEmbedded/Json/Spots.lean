import ParseEmbedded.Json.Nesting

/-!
# Words and strings in a JSON text

Outside strings a JSON text has no backslash, and no string starts right behind a word: there is
a blank, a colon, a comma or a bracket between them. A reader that gives up where this fails gets
through every object (`Spot.reads_object`), so a quote right behind the end of a word ends a
string (`Spot.reads_behind_word`).
-/

set_option autoImplicit false

namespace ParseEmbedded.Json

/-- A byte that stands between words. -/
def IsGap (b : Byte) : Prop :=
  b = Byte.space ∨ b = Byte.tab ∨ b = Byte.lineFeed ∨ b = Byte.carriageReturn ∨ b = Byte.colon ∨
    b = Byte.comma ∨ b = Byte.openBrace ∨ b = Byte.closeBrace ∨ b = Byte.openBracket ∨
    b = Byte.closeBracket

instance (b : Byte) : Decidable (IsGap b) := inferInstanceAs (Decidable (_ ∨ _))

/-- Where a reader is: in a gap, behind a byte of a word or behind a string, in a string, or behind
a backslash in a string. -/
inductive Spot where
  | gap
  | word
  | string
  | escape
  deriving DecidableEq, Repr

namespace Spot

/-- The spot behind one more byte, if it may stand here. -/
def next : Spot → Byte → Option Spot
  | .string, b =>
      some (if b = Byte.quote then .word else if b = Byte.backslash then .escape else .string)
  | .escape, _ => some .string
  | .gap, b =>
      if b = Byte.quote then some .string
      else if b = Byte.backslash then none
      else some (if IsGap b then .gap else .word)
  | .word, b =>
      if b = Byte.quote ∨ b = Byte.backslash then none
      else some (if IsGap b then .gap else .word)

/-- The spot behind a text, if the reader gets through. -/
def reads : Spot → List Byte → Option Spot
  | spot, [] => some spot
  | spot, b :: bytes => (spot.next b).bind fun next => next.reads bytes

/-- A spot outside strings. -/
def Outer (spot : Spot) : Prop := spot = .gap ∨ spot = .word

theorem string_inside : ¬ string.Outer := by
  rintro (same | same) <;> cases same

theorem escape_inside : ¬ escape.Outer := by
  rintro (same | same) <;> cases same

@[simp] theorem reads_nil (spot : Spot) : spot.reads [] = some spot := rfl

theorem reads_cons (spot : Spot) (b : Byte) (bytes : List Byte) :
    spot.reads (b :: bytes) = (spot.next b).bind fun next => next.reads bytes := rfl

theorem reads_append (first second : List Byte) : ∀ spot : Spot,
    spot.reads (first ++ second) = (spot.reads first).bind fun next => next.reads second := by
  induction first with
  | nil => exact fun _ => rfl
  | cons b first ih =>
      intro spot
      rw [List.cons_append, reads_cons, reads_cons, Option.bind_assoc]
      exact congrArg _ (funext fun next => ih next)

/-- What the two parts of a text that is read through lead to. -/
theorem reads_append_some {first second : List Byte} {spot last : Spot}
    (through : spot.reads (first ++ second) = some last) :
    ∃ middle, spot.reads first = some middle ∧ middle.reads second = some last := by
  rw [reads_append] at through
  exact Option.bind_eq_some_iff.mp through

/-! ## Outside strings -/

theorem next_gap {spot : Spot} (outer : spot.Outer) {b : Byte} (gap : IsGap b) :
    spot.next b = some .gap := by
  have notQuote : b ≠ Byte.quote := by
    rintro rfl
    revert gap
    decide
  have notBackslash : b ≠ Byte.backslash := by
    rintro rfl
    revert gap
    decide
  rcases outer with rfl | rfl
  · rw [next, if_neg notQuote, if_neg notBackslash, if_pos gap]
  · rw [next, if_neg (not_or.mpr ⟨notQuote, notBackslash⟩), if_pos gap]

theorem next_inert {spot : Spot} (outer : spot.Outer) {b : Byte} (inert : IsInert b) :
    spot.next b = some (if IsGap b then .gap else .word) := by
  rcases outer with rfl | rfl
  · rw [next, if_neg inert.1, if_neg inert.2.1]
  · rw [next, if_neg (not_or.mpr ⟨inert.1, inert.2.1⟩)]

theorem outer_ite (p : Prop) [Decidable p] : (if p then gap else word).Outer := by
  split
  · exact Or.inl rfl
  · exact Or.inr rfl

/-- Bytes without quotes, backslashes and brackets stay outside strings. -/
theorem reads_inert {bytes : List Byte} : (∀ b ∈ bytes, IsInert b) → ∀ {spot : Spot},
    spot.Outer → ∃ last, spot.reads bytes = some last ∧ last.Outer := by
  induction bytes with
  | nil => exact fun _ spot outer => ⟨spot, rfl, outer⟩
  | cons b bytes ih =>
      intro inert spot outer
      rw [reads_cons, next_inert outer (inert b (List.mem_cons_self ..))]
      exact ih (fun b member => inert b (List.mem_cons_of_mem _ member)) (outer_ite _)

theorem isGap_blank (blank : Blank) : IsGap blank.byte := by
  cases blank <;> decide

theorem reads_gaps {bytes : List Byte} : (∀ b ∈ bytes, IsGap b) →
    gap.reads bytes = some .gap := by
  induction bytes with
  | nil => exact fun _ => rfl
  | cons b bytes ih =>
      intro gaps
      rw [reads_cons, next_gap (Or.inl rfl) (gaps b (List.mem_cons_self ..)), Option.bind_some]
      exact ih fun b member => gaps b (List.mem_cons_of_mem _ member)

theorem reads_blanks (blanks : Blanks) (rest : List Byte) :
    gap.reads (blanks.text ++ rest) = gap.reads rest := by
  have gaps : gap.reads blanks.text = some .gap := reads_gaps fun b member => by
    obtain ⟨blank, -, rfl⟩ := List.mem_map.mp member
    exact isGap_blank blank
  rw [reads_append, gaps, Option.bind_some]

/-! ## In strings -/

theorem next_plain {b : Byte} (plain : IsPlain b) : string.next b = some .string := by
  rw [next, if_neg plain.2.1, if_neg plain.2.2]

theorem reads_stringChar (c : StringChar) : string.reads c.text = some .string := by
  cases c with
  | plain b isPlain =>
      rw [StringChar.text, reads_cons, next_plain isPlain, Option.bind_some, reads_nil]
  | escape letter => rfl
  | unicode a b c d =>
      change string.reads
        ([Byte.backslash, 117] ++ ([a.val] ++ ([b.val] ++ ([c.val] ++ [d.val])))) = _
      have digit : ∀ x : {x : Byte // IsHexDigit x}, string.reads [x.val] = some .string :=
        fun x => by rw [reads_cons, next_plain x.property.plain, Option.bind_some, reads_nil]
      have escaped : string.reads [Byte.backslash, 117] = some .string := rfl
      simp only [reads_append, escaped, digit, Option.bind_some]

theorem reads_stringBody (body : StringBody) : string.reads body.text = some .string := by
  induction body with
  | nil => rfl
  | cons c body ih =>
      change string.reads (c.text ++ StringBody.text body) = _
      rw [reads_append, reads_stringChar, Option.bind_some]
      exact ih

theorem reads_quoted (body : StringBody) : gap.reads (quoted body) = some .word := by
  rw [quoted, reads_cons]
  change string.reads (body.text ++ [Byte.quote]) = _
  rw [reads_append, reads_stringBody]
  rfl

/-! ## Values -/

/-- A reader gets through the text, and is outside strings behind it. -/
def Readable (text : List Byte) : Prop := ∃ last, gap.reads text = some last ∧ last.Outer

theorem Readable.blanks (blanks : Blanks) : Readable blanks.text := by
  have through := reads_blanks blanks []
  rw [List.append_nil] at through
  exact ⟨.gap, through, Or.inl rfl⟩

/-- Behind a text that is read through a gap may follow. -/
theorem Readable.gap_behind {text : List Byte} (readable : Readable text) {b : Byte}
    (isGap : IsGap b) (rest : List Byte) : gap.reads (text ++ b :: rest) = gap.reads rest := by
  obtain ⟨last, through, outer⟩ := readable
  rw [reads_append, through, Option.bind_some, reads_cons, next_gap outer isGap, Option.bind_some]

theorem Readable.append_blanks {text : List Byte} (readable : Readable text) (blanks : Blanks) :
    Readable (text ++ blanks.text) := by
  cases blanks with
  | nil =>
      change Readable (text ++ [])
      rwa [List.append_nil]
  | cons blank blanks =>
      change Readable (text ++ blank.byte :: Blanks.text blanks)
      rw [Readable, readable.gap_behind (isGap_blank blank)]
      exact Readable.blanks blanks

theorem Readable.enclose {inner : List Byte} (readable : Readable inner) {opening closing : Byte}
    (opens : IsGap opening) (closes : IsGap closing) :
    gap.reads (opening :: (inner ++ [closing])) = some .gap := by
  rw [reads_cons, next_gap (Or.inl rfl) opens, Option.bind_some, readable.gap_behind closes]
  rfl

theorem Readable.literal (l : Literal) : Readable l.text := reads_inert l.inert (Or.inl rfl)

/-- The label of a value ends in a gap. -/
theorem reads_label (before : Blanks) (name : StringBody) (afterName beforeValue : Blanks)
    (rest : List Byte) :
    gap.reads (label before name afterName beforeValue ++ rest) = gap.reads rest := by
  have named : Readable (before.text ++ quoted name) := by
    rw [Readable, reads_blanks]
    exact ⟨.word, reads_quoted name, Or.inr rfl⟩
  rw [label, List.append_assoc, List.cons_append,
    (named.append_blanks afterName).gap_behind (by decide), reads_blanks]

mutual
/-- **A reader gets through every value.** -/
theorem readable_value : ∀ v : Value, Readable v.text
  | .literal l => by
      rw [Value.text]
      exact Readable.literal l
  | .string body => by
      rw [Value.text]
      exact ⟨.word, reads_quoted body, Or.inr rfl⟩
  | .array a => by
      rw [Value.text]
      exact ⟨.gap, reads_array a, Or.inl rfl⟩
  | .object o => by
      rw [Value.text]
      exact ⟨.gap, reads_object o, Or.inl rfl⟩

theorem reads_array : ∀ a : Array, gap.reads a.text = some .gap
  | .empty blanks => (Readable.blanks blanks).enclose (by decide) (by decide)
  | .of elements => (readable_elements elements).enclose (by decide) (by decide)

theorem readable_elements : ∀ es : Elements, Readable es.text
  | .last before v after => by
      rw [Elements.text, List.append_assoc, Readable, reads_blanks]
      exact (readable_value v).append_blanks after
  | .more before v after rest => by
      rw [Elements.text, List.append_assoc, List.append_assoc, Readable, reads_blanks,
        ← List.append_assoc, ((readable_value v).append_blanks after).gap_behind (by decide)]
      exact readable_elements rest

/-- A reader gets through every object. -/
theorem reads_object : ∀ o : Object, gap.reads o.text = some .gap
  | .empty blanks => (Readable.blanks blanks).enclose (by decide) (by decide)
  | .of members => (readable_members members).enclose (by decide) (by decide)

theorem readable_members : ∀ ms : Members, Readable ms.text
  | .last before name afterName beforeValue v after => by
      rw [Members.text, List.append_assoc, Readable, reads_label]
      exact (readable_value v).append_blanks after
  | .more before name afterName beforeValue v after rest => by
      rw [Members.text, List.append_assoc, List.append_assoc, Readable, reads_label,
        ← List.append_assoc, ((readable_value v).append_blanks after).gap_behind (by decide)]
      exact readable_members rest
end

/-! ## Behind a word -/

theorem next_inert_inside {spot : Spot} (inside : ¬ spot.Outer) {b : Byte} (inert : IsInert b) :
    spot.next b = some .string := by
  cases spot with
  | gap => exact absurd (Or.inl rfl) inside
  | word => exact absurd (Or.inr rfl) inside
  | string => rw [next, if_neg inert.1, if_neg inert.2.1]
  | escape => rfl

/-- Bytes without quotes, backslashes and brackets stay in a string. -/
theorem reads_inert_inside {bytes : List Byte} : (∀ b ∈ bytes, IsInert b) → ∀ {spot : Spot},
    ¬ spot.Outer → ∃ last, spot.reads bytes = some last ∧ ¬ last.Outer := by
  induction bytes with
  | nil => exact fun _ spot inside => ⟨spot, rfl, inside⟩
  | cons b bytes ih =>
      intro inert spot inside
      rw [reads_cons, next_inert_inside inside (inert b (List.mem_cons_self ..))]
      exact ih (fun b member => inert b (List.mem_cons_of_mem _ member)) string_inside

/-- **A quote right behind a word ends a string.** -/
theorem reads_behind_word {front word : List Byte} {b : Byte} {spot last : Spot}
    (inert : ∀ c ∈ word ++ [b], IsInert c) (isWord : ¬ IsGap b)
    (through : spot.reads (front ++ (word ++ [b] ++ [Byte.quote])) = some last) :
    last = .word := by
  obtain ⟨start, -, through⟩ := reads_append_some through
  rw [List.append_assoc] at through
  obtain ⟨before, toWord, through⟩ := reads_append_some through
  have inertWord : ∀ c ∈ word, IsInert c := fun c member =>
    inert c (List.mem_append_left _ member)
  have inertLast : IsInert b := inert b (List.mem_append_right _ (List.mem_singleton_self b))
  by_cases outer : start.Outer
  · -- outside strings there is no quote behind the word
    obtain ⟨_, same, outer⟩ := reads_inert inertWord outer
    cases same.symm.trans toWord
    rw [List.cons_append, reads_cons, next_inert outer inertLast, if_neg isWord] at through
    cases through
  · obtain ⟨_, same, inside⟩ := reads_inert_inside inertWord outer
    cases same.symm.trans toWord
    rw [List.cons_append, reads_cons, next_inert_inside inside inertLast] at through
    exact (Option.some.inj through).symm

/-! ## The lexical state -/

def mode : Spot → Mode
  | .gap => .text
  | .word => .text
  | .string => .string
  | .escape => .escape

theorem Outer.mode {spot : Spot} (outer : spot.Outer) : spot.mode = .text := by
  rcases outer with rfl | rfl
  · rfl
  · rfl

theorem next_mode {spot next : Spot} {b : Byte} (step : spot.next b = some next) (w : Weight)
    (d : Int) : (w.advance ⟨spot.mode, d⟩ b).mode = next.mode := by
  have text : b ≠ Byte.quote → (if IsGap b then gap else word) = next →
      (w.advance ⟨.text, d⟩ b).mode = next.mode := by
    rintro notQuote rfl
    rw [w.advance_text d notQuote, (outer_ite _).mode]
  cases spot with
  | gap =>
      rw [Spot.next] at step
      split at step
      · rename_i quote
        cases step
        rw [quote]
        rfl
      rename_i notQuote
      split at step
      · cases step
      · exact text notQuote (Option.some.inj step)
  | word =>
      rw [Spot.next] at step
      split at step
      · cases step
      · rename_i neither
        exact text (fun quote => neither (Or.inl quote)) (Option.some.inj step)
  | string =>
      rw [Spot.next] at step
      cases step
      change (if b = Byte.quote then (⟨.text, d⟩ : Position)
        else if b = Byte.backslash then ⟨.escape, d⟩ else ⟨.string, d⟩).mode = _
      split
      · rfl
      split
      · rfl
      · rfl
  | escape =>
      cases step
      rfl

/-- The reader is in the lexical state of a reader of nesting. -/
theorem after_mode {bytes : List Byte} : ∀ {spot last : Spot}, spot.reads bytes = some last →
    ∀ (w : Weight) (d : Int), (w.after ⟨spot.mode, d⟩ bytes).mode = last.mode := by
  induction bytes with
  | nil =>
      intro spot last through w d
      rw [Option.some.inj through]
      rfl
  | cons b bytes ih =>
      intro spot last through w d
      rw [reads_cons] at through
      obtain ⟨next, step, through⟩ := Option.bind_eq_some_iff.mp through
      have stays := next_mode step w d
      rw [Weight.after_cons]
      generalize w.advance ⟨spot.mode, d⟩ b = p at stays
      obtain ⟨mode, d'⟩ := p
      change mode = next.mode at stays
      rw [stays]
      exact ih through w d'

end Spot

end ParseEmbedded.Json
