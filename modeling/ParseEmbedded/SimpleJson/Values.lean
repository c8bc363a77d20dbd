import ParseEmbedded.Json.Syntax
import ParseEmbedded.SimpleJson.ValueScan

/-!
# The values a lookup extracts

The value loop is one loop for three kinds of values, told apart by the flags it starts with. In
each of them it goes through the text of a value and stores it byte by byte: an array or an object
with a level and a flag for strings, a string up to a quote that is not escaped, and a word up to
the delimiter behind it, with the blanks in front of the delimiter (`lookup_of_value`).
-/

set_option autoImplicit false

namespace ParseEmbedded.SimpleJson

open Json

/-! ## Texts the loop stores -/

/-- Bytes that are stored in front of what the rest of the loop stores. -/
def Extracted.putAll (bytes : List Byte) (rest : Extracted) : Extracted :=
  { rest with written := bytes ++ rest.written }

/-- The loop stores the bytes, which lead from one place to the other. -/
def Stores (json endWithQuote : Bool) (place : ValuePlace) (bytes : List Byte)
    (next : ValuePlace) : Prop :=
  ∀ (room : Nat) (more : List Byte),
    extract json endWithQuote (bytes.length + room) place (bytes ++ more) =
      (extract json endWithQuote room next more).putAll bytes

namespace Stores

variable {json endWithQuote : Bool} {place next last : ValuePlace}

theorem nil : Stores json endWithQuote place [] place := by
  intro room more
  rw [List.length_nil, Nat.zero_add]
  rfl

theorem cons {c : Byte} {bytes : List Byte}
    (step : valueRound json endWithQuote place c = .store next)
    (rest : Stores json endWithQuote next bytes last) :
    Stores json endWithQuote place (c :: bytes) last := by
  intro room more
  rw [List.length_cons, Nat.add_right_comm, List.cons_append, extract, step]
  dsimp only
  rw [rest room more]
  rfl

theorem single {c : Byte} (step : valueRound json endWithQuote place c = .store next) :
    Stores json endWithQuote place [c] next := .cons step .nil

theorem append {first second : List Byte} (one : Stores json endWithQuote place first next)
    (two : Stores json endWithQuote next second last) :
    Stores json endWithQuote place (first ++ second) last := by
  intro room more
  rw [List.length_append, Nat.add_assoc, List.append_assoc, one, two]
  exact congrArg (fun written => Extracted.mk written _ _) (List.append_assoc ..).symm

/-- A place that no byte of the text moves is kept. -/
theorem of_forall {bytes : List Byte}
    (stays : ∀ b ∈ bytes, valueRound json endWithQuote place b = .store place) :
    Stores json endWithQuote place bytes place := by
  induction bytes with
  | nil => exact .nil
  | cons b bytes ih =>
      exact .cons (stays b (List.mem_cons_self ..))
        (ih fun c member => stays c (List.mem_cons_of_mem b member))

end Stores

/-! ## Strings -/

section Strings

variable {json endWithQuote : Bool}

/-- Inside a string of an extraction that does not end at a comma or a bracket. -/
theorem valueRound_plain (goesOn : json = true ∨ endWithQuote = true) (level : Int) {b : Byte}
    (plain : IsPlain b) :
    valueRound json endWithQuote ⟨false, true, level⟩ b = .store ⟨false, true, level⟩ := by
  obtain ⟨-, notQuote, notBackslash⟩ := plain
  rw [valueRound]
  rcases goesOn with rfl | rfl
  · simp [notQuote, notBackslash]
  · simp [notQuote, notBackslash]

theorem Stores.escaped (level : Int) (b : Byte) :
    Stores json endWithQuote ⟨false, true, level⟩ [Byte.backslash, b] ⟨false, true, level⟩ := by
  have opens : valueRound json endWithQuote ⟨false, true, level⟩ Byte.backslash =
      .store ⟨true, true, level⟩ := by
    simp +decide [valueRound]
  exact .cons opens (.single rfl)

theorem Stores.stringChar (goesOn : json = true ∨ endWithQuote = true) (level : Int)
    (c : StringChar) :
    Stores json endWithQuote ⟨false, true, level⟩ c.text ⟨false, true, level⟩ := by
  cases c with
  | plain b isPlain => exact .single (valueRound_plain goesOn level isPlain)
  | escape letter => exact .escaped level letter.byte
  | unicode a b c d =>
      have digit : ∀ x : {x : Byte // IsHexDigit x},
          Stores json endWithQuote ⟨false, true, level⟩ [x.val] ⟨false, true, level⟩ :=
        fun x => .single (valueRound_plain goesOn level x.property.plain)
      exact (Stores.escaped level 117).append
        ((digit a).append ((digit b).append ((digit c).append (digit d))))

theorem Stores.stringBody (goesOn : json = true ∨ endWithQuote = true) (level : Int)
    (body : StringBody) :
    Stores json endWithQuote ⟨false, true, level⟩ body.text ⟨false, true, level⟩ := by
  induction body with
  | nil => exact .nil
  | cons c body ih => exact (Stores.stringChar goesOn level c).append ih

end Strings

/-! ## Arrays and objects -/

/-- Inside an array or an object. -/
abbrev nested (level : Int) : ValuePlace := ⟨false, false, level⟩

theorem valueRound_inert (level : Int) {b : Byte} (inert : IsInert b) :
    valueRound true false (nested level) b = .store (nested level) := by
  obtain ⟨notQuote, notBackslash, openBrace, closeBrace, openBracket, closeBracket, -⟩ := inert
  simp [valueRound, *]

theorem Stores.quoted (level : Int) (body : StringBody) :
    Stores true false (nested level) (quoted body) (nested level) := by
  have opens : valueRound true false (nested level) Byte.quote = .store ⟨false, true, level⟩ := by
    simp +decide [valueRound]
  have closes : valueRound true false ⟨false, true, level⟩ Byte.quote =
      .store (nested level) := by
    simp +decide [valueRound]
  exact .cons opens ((Stores.stringBody (.inl rfl) level body).append (.single closes))

theorem valueRound_open (level : Int) {b : Byte}
    (opens : b = Byte.openBrace ∨ b = Byte.openBracket) :
    valueRound true false (nested level) b = .store (nested (level + 1)) := by
  simp [valueRound, opens]

theorem valueRound_close {level : Int} (inside : level ≠ 0) {b : Byte}
    (closes : b = Byte.closeBrace ∨ b = Byte.closeBracket) :
    valueRound true false (nested level) b =
      if level - 1 < 0 then .malformed
      else if level - 1 = 0 then .close
      else .store (nested (level - 1)) := by
  have opensNot : ¬ (b = Byte.openBrace ∨ b = Byte.openBracket) := by
    rcases closes with rfl | rfl <;> decide
  simp [valueRound, opensNot, closes, inside]

/-- A text between brackets is stored on every level. -/
theorem Stores.enclose {level : Int} (positive : 0 < level) {opening closing : Byte}
    (opens : opening = Byte.openBrace ∨ opening = Byte.openBracket)
    (closes : closing = Byte.closeBrace ∨ closing = Byte.closeBracket) {inner : List Byte}
    (inside : Stores true false (nested (level + 1)) inner (nested (level + 1))) :
    Stores true false (nested level) (opening :: (inner ++ [closing])) (nested level) := by
  have back : valueRound true false (nested (level + 1)) closing = .store (nested level) := by
    rw [valueRound_close (by omega) closes, Int.add_sub_cancel, if_neg (by omega),
      if_neg (by omega)]
  exact .cons (valueRound_open level opens) (inside.append (.single back))

/-- **Inside an array or an object every text is stored**, and leads back to its level. -/
theorem Stores.composes :
    Composes fun bytes => ∀ level, 0 < level →
      Stores true false (nested level) bytes (nested level) where
  append first second level positive := (first level positive).append (second level positive)
  inert inert level _ := .of_forall fun b member => valueRound_inert level (inert b member)
  quoted body level _ := .quoted level body
  brackets inside level positive :=
    .enclose positive (.inr rfl) (.inr rfl) (inside (level + 1) (by omega))
  braces inside level positive :=
    .enclose positive (.inl rfl) (.inl rfl) (inside (level + 1) (by omega))

/-- An array or an object is extracted up to its last byte. -/
theorem extract_brackets {opening closing : Byte}
    (opens : opening = Byte.openBrace ∨ opening = Byte.openBracket)
    (closes : closing = Byte.closeBrace ∨ closing = Byte.closeBracket) {inner : List Byte}
    (inside : Stores true false (nested 1) inner (nested 1)) {room : Nat}
    (enough : (opening :: (inner ++ [closing])).length ≤ room) (more : List Byte) :
    extract true false room (nested 0) (opening :: (inner ++ [closing]) ++ more) =
      ⟨opening :: (inner ++ [closing]), closing :: more, false⟩ := by
  have stored : Stores true false (nested 0) (opening :: inner) (nested 1) :=
    .cons (valueRound_open 0 opens) inside
  rw [← List.cons_append, List.length_append, List.length_singleton] at enough
  obtain ⟨left, rfl⟩ := Nat.exists_eq_add_of_le enough
  rw [← List.cons_append, List.append_assoc, Nat.add_assoc, stored, Nat.add_comm 1 left,
    List.singleton_append, extract, valueRound_close Int.one_ne_zero closes]
  rfl

/-! ## Words -/

/-- A byte of a word, or a blank behind it. -/
theorem valueRound_word {b : Byte} (word : IsWord b) :
    valueRound false false ⟨false, true, 0⟩ b = .store ⟨false, true, 0⟩ := by
  obtain ⟨⟨notQuote, notBackslash, openBrace, closeBrace, openBracket, closeBracket, -⟩,
    notComma⟩ := word
  simp [valueRound, *]

/-- The bytes that end the value of a member. -/
def IsDelimiter (b : Byte) : Prop := b = Byte.comma ∨ b = Byte.closeBrace

theorem valueRound_delimiter {b : Byte} (delimiter : IsDelimiter b) :
    valueRound false false ⟨false, true, 0⟩ b = .stop := by
  rcases delimiter with rfl | rfl <;> decide

theorem extract_word {word : List Byte} (isWord : ∀ b ∈ word, IsWord b) {d : Byte}
    (delimiter : IsDelimiter d) {room : Nat} (enough : word.length ≤ room) (more : List Byte) :
    extract false false room ⟨false, true, 0⟩ (word ++ d :: more) = ⟨word, d :: more, false⟩ := by
  have stored : Stores false false ⟨false, true, 0⟩ word ⟨false, true, 0⟩ :=
    .of_forall fun b member => valueRound_word (isWord b member)
  obtain ⟨left, rfl⟩ := Nat.exists_eq_add_of_le enough
  rw [stored]
  cases left with
  | zero =>
      rw [extract_zero, Extracted.putAll, List.append_nil]
  | succ left =>
      rw [extract, valueRound_delimiter delimiter, Extracted.putAll, List.append_nil]

theorem extract_string (body : StringBody) {room : Nat} (enough : body.text.length ≤ room)
    (more : List Byte) :
    extract false true room ⟨false, true, 0⟩ (body.text ++ Byte.quote :: more) =
      ⟨body.text, Byte.quote :: more, false⟩ := by
  obtain ⟨left, rfl⟩ := Nat.exists_eq_add_of_le enough
  rw [Stores.stringBody (.inr rfl) 0 body]
  cases left with
  | zero =>
      rw [extract_zero, Extracted.putAll, List.append_nil]
  | succ left =>
      rw [extract]
      exact congrArg (fun written => Extracted.mk written _ _) (List.append_nil _)

/-! ## Values -/

/-- What a lookup leaves of a value with blanks behind it: the characters of a string as written,
an array or an object as a whole, and the text of a word with the blanks. -/
def extractedText : Value → Blanks → List Byte
  | .literal l, blanks => l.text ++ blanks.text
  | .string body, _ => body.text
  | .array a, _ => a.text
  | .object o, _ => o.text

/-- The three ways to start the value loop. -/
theorem extractAt_json {c : Byte} (opens : c = Byte.openBrace ∨ c = Byte.openBracket) (room : Nat)
    (tail : List Byte) :
    extractAt room (c :: tail) = extract true false room (nested 0) (c :: tail) := by
  rcases opens with rfl | rfl <;> rfl

theorem extractAt_quote (room : Nat) (tail : List Byte) :
    extractAt room (Byte.quote :: tail) = extract false true room ⟨false, true, 0⟩ tail := rfl

theorem extractAt_word {c : Byte} (word : IsWord c) (room : Nat) (tail : List Byte) :
    extractAt room (c :: tail) = extract false false room ⟨false, true, 0⟩ (c :: tail) := by
  obtain ⟨⟨notQuote, -, openBrace, -, openBracket, -⟩, -⟩ := word
  simp [extractAt, isJson, endsWithQuote, *]

/-- **The value loop extracts the value.** -/
theorem extractAt_value (v : Value) (blanks : Blanks) {d : Byte} (delimiter : IsDelimiter d)
    (tail : List Byte) {room : Nat} (enough : (extractedText v blanks).length ≤ room) :
    (extractAt room (v.text ++ blanks.text ++ d :: tail)).written = extractedText v blanks ∧
      (extractAt room (v.text ++ blanks.text ++ d :: tail)).rest ≠ [] := by
  cases v with
  | literal l =>
      have words : ∀ b ∈ l.text ++ blanks.text, IsWord b :=
        List.forall_mem_append.mpr ⟨l.word, Blanks.word⟩
      obtain ⟨c, rest, starts, -⟩ := (Value.literal l).text_starts
      change l.text = c :: rest at starts
      have first : IsWord c := l.word c (starts ▸ List.mem_cons_self ..)
      have extracted := extract_word words delimiter enough tail
      rw [Value.text, extractedText]
      rw [starts] at extracted ⊢
      rw [List.cons_append, List.cons_append] at extracted ⊢
      rw [extractAt_word first, extracted]
      exact ⟨rfl, List.cons_ne_nil d tail⟩
  | string body =>
      have extracted := extract_string body enough (blanks.text ++ d :: tail)
      rw [Value.text, quoted, List.append_assoc, List.cons_append, extractAt_quote,
        List.append_assoc, List.singleton_append, extracted]
      exact ⟨rfl, List.cons_ne_nil _ _⟩
  | array a =>
      have inside := Stores.composes.arrayInner a 1 Int.one_pos
      rw [extractedText, Array.text_eq] at enough ⊢
      have extracted := extract_brackets (.inr rfl) (.inr rfl) inside enough
        (blanks.text ++ d :: tail)
      rw [Value.text, Array.text_eq, List.append_assoc]
      rw [List.cons_append] at extracted ⊢
      rw [extractAt_json (.inr rfl), extracted]
      exact ⟨rfl, List.cons_ne_nil _ _⟩
  | object o =>
      have inside := Stores.composes.objectInner o 1 Int.one_pos
      rw [extractedText, Object.text_eq] at enough ⊢
      have extracted := extract_brackets (.inl rfl) (.inl rfl) inside enough
        (blanks.text ++ d :: tail)
      rw [Value.text, Object.text_eq, List.append_assoc]
      rw [List.cons_append] at extracted ⊢
      rw [extractAt_json (.inl rfl), extracted]
      exact ⟨rfl, List.cons_ne_nil _ _⟩

/-- **Value extraction is faithful.** Where the key scan stops in front of a value with blanks and
a comma or a closing brace behind it, a lookup with enough room returns 1 and the buffer holds the
extracted text of the value, whatever follows the delimiter. -/
theorem lookup_of_value {data key : CString} (nonempty : key.bytes ≠ []) {found : Nat}
    {json endWithQuote : Bool}
    (stops : findKey data key = .ok (.stopped found json endWithQuote)) {v : Value}
    {blanks : Blanks} {d : Byte} (delimiter : IsDelimiter d) {tail : List Byte}
    (here : data.rest found = v.text ++ blanks.text ++ d :: tail) (buffer : List Byte) {size : Int}
    (enough : ((extractedText v blanks).length : Int) ≤ size - 1) :
    simpleJsonProcessor data key (some buffer) size =
      .ok ⟨1, some (overwrite buffer (extractedText v blanks ++ [Byte.nul]))⟩ := by
  have some : v.text ++ blanks.text ++ d :: tail ≠ [] :=
    List.append_ne_nil_of_right_ne_nil _ (List.cons_ne_nil d tail)
  have extracts : Extracts data key := ⟨nonempty, found, json, endWithQuote, stops, here ▸ some⟩
  rw [findKey_eq] at stops
  cases scanned : scan key.bytes ⟨data.bytes, false, 0⟩ with
  | stopped text =>
      rw [scanned] at stops
      have text_eq : data.rest (data.length - text.length) = text :=
        (List.suffix_iff_eq_drop.mp (scan_suffix scanned)).symm
      obtain rfl : text = v.text ++ blanks.text ++ d :: tail := by
        cases stops
        exact text_eq.symm.trans here
      have room : (extractedText v blanks).length ≤ (size - 1).toNat := by omega
      obtain ⟨written, rest⟩ := extractAt_value v blanks delimiter tail room
      rw [lookup_of_extracts extracts scanned, lookUpAt_some buffer size some, if_neg rest,
        written]
  | _ =>
      rw [scanned] at stops
      cases stops

section Example

/-- `[0,{"a":"]"}]` -/
def exampleValue : Value :=
  .array (.of (.more [] (.literal (.number ⟨false, .zero, none, none⟩)) []
    (.last [] (.object (.of (.last [] (.plain "a") [] [] (.string (.plain "]")) []))) [])))

def exampleObject : CString :=
  CString.literal "\x7b\"v\" : [0,\x7b\"a\":\"]\"\x7d] ,\"w\":0\x7d"

/-- A comma and a bracket inside the value do not end it. -/
theorem lookup_of_value_example :
    simpleJsonProcessor exampleObject (CString.literal "v") (some (List.replicate 16 7)) 16 =
      .ok ⟨1, some (overwrite (List.replicate 16 7)
        (ascii "[0,\x7b\"a\":\"]\"\x7d]" ++ [Byte.nul]))⟩ := by
  have stops : findKey exampleObject (CString.literal "v") = .ok (.stopped 7 true false) := by
    decide +kernel
  have here : exampleObject.rest 7 =
      exampleValue.text ++ Blanks.text [.space] ++ Byte.comma :: ascii "\"w\":0\x7d" := by
    decide +kernel
  exact lookup_of_value (by decide +kernel) stops (.inl rfl) here _ (by decide +kernel)

end Example

end ParseEmbedded.SimpleJson
