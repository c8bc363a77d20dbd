import ParseEmbedded.SimpleJson.KeyScan
import ParseEmbedded.Json.Nesting

/-!
# Passing over text in the search for a key

What the key scan does with a key without quotes, backslashes and brackets. Outside nested
values it passes over a stretch of text without losing anything as long as every byte that it
skips behind an occurrence of the key is harmless (`Passes`, `visits_passes`). Inside nested
values the key is not looked for, and the scan follows the reader of brackets: it comes out
where the value ends (`visits_object`, `visits_array`).
-/

set_option autoImplicit false

namespace ParseEmbedded.SimpleJson

open Json

/-- A key without quotes, backslashes and brackets. -/
structure PlainKey where
  key : CString
  nonempty : key.bytes ≠ []
  inert : ∀ c ∈ key.bytes, IsInert c

/-- A text that no key reaches into: it is empty, or starts with a quote or a bracket. -/
def Separates (rest : List Byte) : Prop := ∀ c ∈ rest.head?, ¬ IsInert c

theorem Separates.nil : Separates [] := by
  rintro c ⟨⟩

theorem Separates.cons {c : Byte} (notInert : ¬ IsInert c) (tail : List Byte) :
    Separates (c :: tail) := by
  rintro c ⟨⟩
  exact notInert

namespace PlainKey

variable (k : PlainKey)

abbrev bytes : List Byte := k.key.bytes

theorem not_prefix_cons {c : Byte} (notInert : ¬ IsInert c) (tail : List Byte) :
    ¬ k.bytes <+: c :: tail := by
  intro starts
  obtain ⟨first, rest, same⟩ := List.exists_cons_of_ne_nil k.nonempty
  rw [bytes, same] at starts
  obtain ⟨rfl, -⟩ := List.cons_prefix_cons.mp starts
  exact notInert (k.inert first (same ▸ List.mem_cons_self ..))

/-- A key does not reach over into such a text. -/
theorem prefix_append_iff {rest : List Byte} (separates : Separates rest) (text : List Byte) :
    k.bytes <+: text ++ rest ↔ k.bytes <+: text := by
  refine ⟨fun starts => ?_, fun starts => starts.trans (List.prefix_append _ _)⟩
  rcases prefix_append_split starts with short | ⟨reach, same, isRest⟩
  · exact short
  cases reach with
  | nil => exact ⟨[], (List.append_nil _).trans (same.trans (List.append_nil text))⟩
  | cons c reach =>
      obtain ⟨tail, rfl⟩ := isRest
      have member : c ∈ k.bytes := by
        rw [same]
        exact List.mem_append_right _ (List.mem_cons_self ..)
      exact absurd (k.inert c member) (separates c rfl)

end PlainKey

/-! ## Passing over a stretch of text -/

/-- The search for the key runs through a stretch of text and loses nothing: a byte skipped
behind an occurrence of the key is no quote, and if it is a backslash the escape is of neither a
quote nor a backslash. With `ended` the stretch ends in an occurrence of the key. -/
inductive Passes (key : List Byte) : (ended : Bool) → List Byte → Prop where
  | done : Passes key false []
  | ends : Passes key true key
  | byte {ended : Bool} {c : Byte} {tail : List Byte} (differs : ¬ key <+: c :: tail)
      (notQuote : c ≠ Byte.quote) (notBackslash : c ≠ Byte.backslash)
      (rest : Passes key ended tail) : Passes key ended (c :: tail)
  | escape {ended : Bool} {tail : List Byte} (e : Byte) (rest : Passes key ended tail) :
      Passes key ended (Byte.backslash :: e :: tail)
  | key {ended : Bool} {c : Byte} {tail : List Byte} (notQuote : c ≠ Byte.quote)
      (notBackslash : c ≠ Byte.backslash) (rest : Passes key ended tail) :
      Passes key ended (key ++ c :: tail)
  | keyEscape {ended : Bool} {e : Byte} {tail : List Byte} (notQuote : e ≠ Byte.quote)
      (notBackslash : e ≠ Byte.backslash) (rest : Passes key ended (e :: tail)) :
      Passes key ended (key ++ Byte.backslash :: e :: tail)

section Visits

variable (k : PlainKey)

theorem round_key {level : Int} (outer : level ≤ 1) (inString : Bool) (behind : List Byte) :
    round k.bytes ⟨k.bytes ++ behind, inString, level⟩ = passKey inString level behind := by
  obtain ⟨first, rest, same⟩ := List.exists_cons_of_ne_nil k.nonempty
  have starts : k.bytes <+: first :: (rest ++ behind) := ⟨behind, by rw [PlainKey.bytes, same]; rfl⟩
  have dropped : (first :: (rest ++ behind)).drop k.bytes.length = behind := by
    rw [← List.cons_append, ← same]
    exact List.drop_left
  have flat : ¬ level > 1 := Int.not_lt.mpr outer
  conv_lhs => rw [PlainKey.bytes, same, List.cons_append]
  rw [← same]
  simp only [round, starts, if_true, flat, if_false]
  exact congrArg _ dropped

theorem round_pass {c : Byte} {tail : List Byte} {inString : Bool} {level : Int}
    (differs : ¬ k.bytes <+: c :: tail) :
    round k.bytes ⟨c :: tail, inString, level⟩ = passByte c tail inString level := by
  simp only [round, differs, if_false]

theorem passByte_inert {c : Byte} (tail : List Byte) (inString : Bool) (level : Int)
    (inert : IsInert c) : passByte c tail inString level = .next ⟨tail, inString, level⟩ := by
  simp [passByte, inert.1, inert.2.1, inert.2.2.1, inert.2.2.2.1, inert.2.2.2.2.1,
    inert.2.2.2.2.2.1]

/-- Inside a string only quotes and backslashes matter. -/
theorem passByte_string {c : Byte} (tail : List Byte) (level : Int) (notQuote : c ≠ Byte.quote)
    (notBackslash : c ≠ Byte.backslash) :
    passByte c tail true level = .next ⟨tail, true, level⟩ := by
  unfold passByte
  rw [if_neg notQuote, if_neg notBackslash]
  split
  · rfl
  split
  · rfl
  · rfl

/-- What the scan does with the bytes it passes over: inside a string the two flags stay, and
outside strings nothing but inert bytes is passed over. -/
def Passive (inString : Bool) (text : List Byte) : Prop :=
  inString = true ∨ ∀ c ∈ text, IsInert c

theorem Passive.tail {inString : Bool} {c : Byte} {text : List Byte}
    (passive : Passive inString (c :: text)) : Passive inString text :=
  passive.imp_right fun inert _ member => inert _ (List.mem_cons_of_mem c member)

theorem Passive.right {inString : Bool} {first second : List Byte}
    (passive : Passive inString (first ++ second)) : Passive inString second :=
  passive.imp_right fun inert _ member => inert _ (List.mem_append_right first member)

/-- The search comes to the end of the stretch, or to the key that ends it. -/
theorem visits_passes {ended : Bool} {text : List Byte} (passes : Passes k.bytes ended text)
    {rest : List Byte} (separates : Separates rest) {inString : Bool} {level : Int}
    (outer : level ≤ 1) (passive : Passive inString text) :
    Visits k.bytes ⟨text ++ rest, inString, level⟩
      ⟨(if ended then k.bytes else []) ++ rest, inString, level⟩ := by
  induction passes with
  | done => exact .refl
  | ends => exact .refl
  | @byte ended c tail differs notQuote notBackslash _ ih =>
      refine .head ?_ (ih passive.tail)
      have differs' : ¬ k.bytes <+: c :: (tail ++ rest) := fun starts =>
        differs ((k.prefix_append_iff separates (c :: tail)).mp starts)
      rw [List.cons_append, round_pass k differs']
      rcases passive with rfl | inert
      · exact passByte_string _ _ notQuote notBackslash
      · exact passByte_inert _ _ _ (inert c (List.mem_cons_self ..))
  | @escape ended tail e _ ih =>
      rcases passive with rfl | inert
      · refine .head ?_ (ih (.inl rfl))
        rw [List.cons_append, List.cons_append, round_pass k (k.not_prefix_cons (by decide) _)]
        rfl
      · exact absurd (inert _ (List.mem_cons_self ..)) (by decide)
  | @key ended c tail notQuote notBackslash _ ih =>
      refine .head ?_ (ih passive.right.tail)
      rw [List.append_assoc, round_key k outer]
      exact if_pos notQuote
  | @keyEscape ended e tail notQuote notBackslash _ ih =>
      refine .head ?_ (ih passive.right.tail)
      rw [List.append_assoc, round_key k outer]
      rfl

end Visits

/-! ## Nested values -/

/-- One step at bracket level two or more follows the reader of brackets. -/
theorem round_advance (k : PlainKey) {c : Byte} {tail : List Byte} {inString inString' : Bool}
    {level level' : Int} (nested : 2 ≤ level)
    (noEscape : ¬ (inString = true ∧ c = Byte.backslash))
    (moved : brackets.advance (Weight.standing inString level) c =
      Weight.standing inString' level') :
    round k.bytes ⟨c :: tail, inString, level⟩ = .next ⟨tail, inString', level'⟩ := by
  by_cases inert : IsInert c
  · -- the key may start here, but it is not looked for
    have stays : brackets.advance (Weight.standing inString level) c =
        Weight.standing inString level := by
      cases inString with
      | true => simp [Weight.advance, Weight.standing, inert.1, inert.2.1]
      | false => exact brackets.advance_inert level inert
    obtain ⟨rfl, rfl⟩ := Weight.standing_inj (stays.symm.trans moved)
    by_cases starts : k.bytes <+: c :: tail
    · have deep : level > 1 := nested
      simp only [round, starts, if_true, deep]
    · rw [round_pass k starts, passByte_inert _ _ _ inert]
  rw [round_pass k (k.not_prefix_cons inert tail)]
  by_cases quote : c = Byte.quote
  · rw [quote, brackets.advance_standing_quote] at moved
    obtain ⟨rfl, rfl⟩ := Weight.standing_inj moved
    exact if_pos quote
  cases inString with
  | true =>
      have notBackslash : c ≠ Byte.backslash := fun same => noEscape ⟨rfl, same⟩
      have stays : brackets.advance (Weight.standing true level) c =
          Weight.standing true level := by
        simp [Weight.advance, Weight.standing, quote, notBackslash]
      obtain ⟨rfl, rfl⟩ := Weight.standing_inj (stays.symm.trans moved)
      exact passByte_string tail level quote notBackslash
  | false =>
      obtain ⟨rfl, rfl⟩ : false = inString' ∧ level + brackets.of c = level' :=
        Weight.standing_inj ((brackets.advance_text level quote).symm.trans moved)
      by_cases opening : c = Byte.openBrace ∨ c = Byte.openBracket
      · rcases opening with rfl | rfl <;> rfl
      by_cases closing : c = Byte.closeBrace ∨ c = Byte.closeBracket
      · have weight : brackets.of c = -1 := by rcases closing with rfl | rfl <;> decide
        have notBackslash : c ≠ Byte.backslash := by rcases closing with rfl | rfl <;> decide
        simp only [passByte, quote, notBackslash, opening, closing, weight, if_true, if_false,
          Bool.false_eq_true, Int.sub_eq_add_neg]
        exact if_neg (by omega)
      · simp [passByte, quote, opening, closing, brackets]

/-- The bytes read keep the scan at level two or deeper. -/
def KeepsNested (inString : Bool) (level : Int) (bytes : List Byte) : Prop :=
  ∀ read, read <+: bytes → 2 ≤ (brackets.after (Weight.standing inString level) read).depth

theorem visits_follows (k : PlainKey) (tail : List Byte) (inString' : Bool) (level' : Int)
    (bytes : List Byte) (inString : Bool) (level : Int) :
    KeepsNested inString level bytes →
      brackets.after (Weight.standing inString level) bytes = Weight.standing inString' level' →
      Visits k.bytes ⟨bytes ++ tail, inString, level⟩ ⟨tail, inString', level'⟩ := by
  induction bytes, inString, level using brackets.reading_induction with
  | nil inString level =>
      intro _ arrived
      obtain ⟨rfl, rfl⟩ := Weight.standing_inj arrived
      exact .refl
  | lone level =>
      intro _ arrived
      have mode := congrArg Position.mode arrived
      cases inString' <;> cases mode
  | escape e rest level ih =>
      intro keeps arrived
      have keepsRest : KeepsNested true level rest := fun read isPrefix =>
        keeps (Byte.backslash :: e :: read)
          (List.cons_prefix_cons.mpr ⟨rfl, List.cons_prefix_cons.mpr ⟨rfl, isPrefix⟩⟩)
      refine .head ?_ (ih keepsRest arrived)
      rw [List.cons_append, List.cons_append, round_pass k (k.not_prefix_cons (by decide) _)]
      rfl
  | step c rest inString level inString₁ level₁ noEscape moved ih =>
      intro keeps arrived
      have keepsRest : KeepsNested inString₁ level₁ rest := fun read isPrefix => by
        have := keeps (c :: read) (List.cons_prefix_cons.mpr ⟨rfl, isPrefix⟩)
        rwa [Weight.after_cons, moved] at this
      rw [Weight.after_cons, moved] at arrived
      exact .head (round_advance k (keeps [] List.nil_prefix) noEscape moved)
        (ih keepsRest arrived)

/-- A value in brackets, opened at level one. -/
theorem visits_brackets (k : PlainKey) {opening closing : Byte} {inner : List Byte}
    (opens : opening = Byte.openBrace ∨ opening = Byte.openBracket)
    (closes : closing = Byte.closeBrace ∨ closing = Byte.closeBracket)
    (inside : brackets.Returns (Weight.standing false 2) inner) (tail : List Byte) :
    Visits k.bytes ⟨opening :: (inner ++ [closing]) ++ tail, false, 1⟩ ⟨tail, false, 1⟩ := by
  have first : round k.bytes ⟨opening :: (inner ++ (closing :: tail)), false, 1⟩ =
      .next ⟨inner ++ (closing :: tail), false, 2⟩ := by
    rcases opens with rfl | rfl <;> exact round_pass k (k.not_prefix_cons (by decide) _)
  have middle := visits_follows k (closing :: tail) false 2 inner false 2 inside.above inside.back
  have last : round k.bytes ⟨closing :: tail, false, 2⟩ = .next ⟨tail, false, 1⟩ := by
    rcases closes with rfl | rfl <;> exact round_pass k (k.not_prefix_cons (by decide) _)
  rw [List.cons_append, List.append_assoc, List.singleton_append]
  exact .head first (middle.tail last)

/-- **The key is not looked for inside nested values.** -/
theorem visits_object (k : PlainKey) (o : Object) (tail : List Byte) :
    Visits k.bytes ⟨o.text ++ tail, false, 1⟩ ⟨tail, false, 1⟩ := by
  rw [Object.text_eq]
  exact visits_brackets k (.inl rfl) (.inl rfl) (.inner 2 o) tail

theorem visits_array (k : PlainKey) (a : Json.Array) (tail : List Byte) :
    Visits k.bytes ⟨a.text ++ tail, false, 1⟩ ⟨tail, false, 1⟩ := by
  rw [Array.text_eq]
  exact visits_brackets k (.inr rfl) (.inr rfl) (Weight.Returns.composes.arrayInner a 2) tail

end ParseEmbedded.SimpleJson
