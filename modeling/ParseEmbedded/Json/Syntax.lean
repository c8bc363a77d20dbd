import ParseEmbedded.Bytes
import Mathlib.Tactic.Common

/-!
# JSON documents with their source text

A document is kept as written: every blank between two tokens, every escape and every digit of
a number is part of the tree, and `text` gives back the bytes. A text is a well-formed JSON
object exactly when it is the text of an `Object`, so a statement about every well-formed
object is a statement about every tree, and inductions follow the tree.

Bytes from `0x80` on stand for the parts of characters outside ASCII. Which of their sequences
encode a character is not asked here, since nothing in the scanners depends on it.
-/

set_option autoImplicit false

namespace ParseEmbedded.Json

/-! ## Tokens -/

/-- The four bytes that may stand between tokens. -/
inductive Blank where
  | space
  | tab
  | lineFeed
  | carriageReturn
  deriving DecidableEq, Repr

def Blank.byte : Blank → Byte
  | .space => Byte.space
  | .tab => Byte.tab
  | .lineFeed => Byte.lineFeed
  | .carriageReturn => Byte.carriageReturn

abbrev Blanks := List Blank

def Blanks.text (blanks : Blanks) : List Byte := blanks.map Blank.byte

/-- A byte that stands for itself inside a string. -/
def IsPlain (b : Byte) : Prop := 32 ≤ b ∧ b ≠ Byte.quote ∧ b ≠ Byte.backslash

instance (b : Byte) : Decidable (IsPlain b) := inferInstanceAs (Decidable (_ ∧ _))

/-- The letter of a two-byte escape. -/
inductive Escape where
  | quote
  | backslash
  | slash
  | backspace
  | formFeed
  | lineFeed
  | carriageReturn
  | tab
  deriving DecidableEq, Repr

def Escape.byte : Escape → Byte
  | .quote => Byte.quote
  | .backslash => Byte.backslash
  | .slash => 47
  | .backspace => 98
  | .formFeed => 102
  | .lineFeed => 110
  | .carriageReturn => 114
  | .tab => 116

def IsHexDigit (b : Byte) : Prop := (48 ≤ b ∧ b ≤ 57) ∨ (65 ≤ b ∧ b ≤ 70) ∨ (97 ≤ b ∧ b ≤ 102)

instance (b : Byte) : Decidable (IsHexDigit b) := inferInstanceAs (Decidable (_ ∨ _))

/-- A hexadecimal digit is a plain byte: inside a string it stands for itself. -/
theorem IsHexDigit.plain {b : Byte} (digit : IsHexDigit b) : IsPlain b := by
  unfold IsHexDigit at digit
  refine ⟨?_, ?_, ?_⟩ <;> grind

/-- One character of a string, as written. -/
inductive StringChar where
  | plain (b : Byte) (isPlain : IsPlain b)
  | escape (letter : Escape)
  | unicode (a b c d : {x : Byte // IsHexDigit x})
  deriving DecidableEq

def StringChar.text : StringChar → List Byte
  | .plain b _ => [b]
  | .escape letter => [Byte.backslash, letter.byte]
  | .unicode a b c d => [Byte.backslash, 117, a, b, c, d]

/-- What stands between the quotes of a string. -/
abbrev StringBody := List StringChar

def StringBody.text (body : StringBody) : List Byte := body.flatMap StringChar.text

/-- The characters of a literal that stand for themselves. -/
def StringBody.plain (s : String) : StringBody :=
  (ascii s).filterMap fun b => if isPlain : IsPlain b then some (.plain b isPlain) else none

/-- A string with its quotes. -/
def quoted (body : StringBody) : List Byte := Byte.quote :: (body.text ++ [Byte.quote])

abbrev Digit := Fin 10

def Digit.byte (d : Digit) : Byte := 48 + UInt8.ofNat d.val

/-- A nonempty run of digits. -/
structure Digits where
  first : Digit
  rest : List Digit
  deriving DecidableEq, Repr

def Digits.text (digits : Digits) : List Byte := (digits.first :: digits.rest).map Digit.byte

/-- The integer part of a number: a zero, or digits that do not start with one. -/
inductive IntPart where
  | zero
  | nonzero (digits : Digits) (leading : digits.first ≠ 0)
  deriving DecidableEq

def IntPart.text : IntPart → List Byte
  | .zero => [48]
  | .nonzero digits _ => digits.text

def IntPart.digits : IntPart → List Digit
  | .zero => [0]
  | .nonzero digits _ => digits.first :: digits.rest

/-- An exponent: `e` or `E`, an optional sign, digits. -/
structure Exponent where
  upper : Bool
  sign : Option Bool
  digits : Digits
  deriving DecidableEq, Repr

def Exponent.text (e : Exponent) : List Byte :=
  (if e.upper then 69 else 101) ::
    ((match e.sign with
      | none => []
      | some true => [45]
      | some false => [43]) ++ e.digits.text)

structure Number where
  negative : Bool
  int : IntPart
  frac : Option Digits
  exponent : Option Exponent
  deriving DecidableEq

def Number.text (n : Number) : List Byte :=
  (if n.negative then [45] else []) ++ n.int.text ++
    (match n.frac with
      | none => []
      | some digits => 46 :: digits.text) ++
    (match n.exponent with
      | none => []
      | some e => e.text)

/-- The values that are a single unquoted word. -/
inductive Literal where
  | null
  | true
  | false
  | number (n : Number)
  deriving DecidableEq

def Literal.text : Literal → List Byte
  | .null => ascii "null"
  | .true => ascii "true"
  | .false => ascii "false"
  | .number n => n.text

/-! ## Values -/

mutual
inductive Value where
  | literal (l : Literal)
  | string (body : StringBody)
  | array (a : Array)
  | object (o : Object)

inductive Array where
  | empty (blanks : Blanks)
  | of (elements : Elements)

/-- The elements of a nonempty array, each with the blanks around it. -/
inductive Elements where
  | last (before : Blanks) (v : Value) (after : Blanks)
  | more (before : Blanks) (v : Value) (after : Blanks) (rest : Elements)

inductive Object where
  | empty (blanks : Blanks)
  | of (members : Members)

/-- The members of a nonempty object: blanks, name, blanks, a colon, blanks, value, blanks. -/
inductive Members where
  | last (before : Blanks) (name : StringBody) (afterName beforeValue : Blanks) (v : Value)
      (after : Blanks)
  | more (before : Blanks) (name : StringBody) (afterName beforeValue : Blanks) (v : Value)
      (after : Blanks) (rest : Members)
end

/-- A name, its colon and the blanks around the two. -/
def label (before : Blanks) (name : StringBody) (afterName beforeValue : Blanks) : List Byte :=
  before.text ++ quoted name ++ afterName.text ++ Byte.colon :: beforeValue.text

mutual
def Value.text : Value → List Byte
  | .literal l => l.text
  | .string body => quoted body
  | .array a => a.text
  | .object o => o.text

def Array.text : Array → List Byte
  | .empty blanks => Byte.openBracket :: (blanks.text ++ [Byte.closeBracket])
  | .of elements => Byte.openBracket :: (elements.text ++ [Byte.closeBracket])

def Elements.text : Elements → List Byte
  | .last before v after => before.text ++ v.text ++ after.text
  | .more before v after rest =>
      before.text ++ v.text ++ after.text ++ Byte.comma :: rest.text

def Object.text : Object → List Byte
  | .empty blanks => Byte.openBrace :: (blanks.text ++ [Byte.closeBrace])
  | .of members => Byte.openBrace :: (members.text ++ [Byte.closeBrace])

def Members.text : Members → List Byte
  | .last before name afterName beforeValue v after =>
      label before name afterName beforeValue ++ v.text ++ after.text
  | .more before name afterName beforeValue v after rest =>
      label before name afterName beforeValue ++ v.text ++ after.text ++ Byte.comma :: rest.text
end

/-! ## Which bytes occur in a text -/

/-- A byte that no scanner of nesting or of strings reacts to. -/
def IsInert (b : Byte) : Prop :=
  b ≠ Byte.quote ∧ b ≠ Byte.backslash ∧ b ≠ Byte.openBrace ∧ b ≠ Byte.closeBrace ∧
    b ≠ Byte.openBracket ∧ b ≠ Byte.closeBracket ∧ b ≠ Byte.nul

instance (b : Byte) : Decidable (IsInert b) := inferInstanceAs (Decidable (_ ∧ _))

/-- An inert byte that ends no value either. -/
def IsWord (b : Byte) : Prop := IsInert b ∧ b ≠ Byte.comma

instance (b : Byte) : Decidable (IsWord b) := inferInstanceAs (Decidable (_ ∧ _))

/-- For a text that is known the bytes can be tested one after the other. -/
theorem forall_of_all {P : Byte → Prop} [DecidablePred P] {bytes : List Byte}
    (all : bytes.all fun b => decide (P b)) : ∀ b ∈ bytes, P b := by
  intro b member
  exact of_decide_eq_true (List.all_eq_true.mp all b member)

theorem Blank.word (blank : Blank) : IsWord blank.byte := by
  cases blank <;> decide

theorem Digit.word (d : Digit) : IsWord (Digit.byte d) := by
  revert d
  decide

theorem Blanks.word {blanks : Blanks} : ∀ b ∈ blanks.text, IsWord b := by
  intro b member
  obtain ⟨blank, _, rfl⟩ := List.mem_map.mp member
  exact blank.word

theorem Blanks.inert {blanks : Blanks} : ∀ b ∈ blanks.text, IsInert b :=
  fun b member => (Blanks.word b member).1

theorem Digits.word (digits : Digits) : ∀ b ∈ digits.text, IsWord b := by
  intro b member
  obtain ⟨d, _, rfl⟩ := List.mem_map.mp member
  exact Digit.word d

theorem IntPart.word (int : IntPart) : ∀ b ∈ int.text, IsWord b := by
  cases int with
  | zero => exact forall_of_all (by decide)
  | nonzero digits _ => exact digits.word

theorem Exponent.word (e : Exponent) : ∀ b ∈ e.text, IsWord b := by
  obtain ⟨upper, sign, digits⟩ := e
  intro b member
  simp only [Exponent.text, List.mem_cons, List.mem_append] at member
  rcases member with rfl | member | member
  · cases upper <;> simp +decide
  · rcases sign with _ | _ | _ <;> simp at member <;> subst member <;> decide
  · exact digits.word b member

theorem Number.word (n : Number) : ∀ b ∈ n.text, IsWord b := by
  obtain ⟨negative, int, frac, exponent⟩ := n
  intro b member
  simp only [Number.text, List.mem_append] at member
  rcases member with ((member | member) | member) | member
  · cases negative <;> simp at member
    subst member
    decide
  · exact int.word b member
  · cases frac with
    | none => simp at member
    | some digits =>
        rcases List.mem_cons.mp member with rfl | member
        · decide
        · exact digits.word b member
  · cases exponent with
    | none => simp at member
    | some e => exact e.word b member

theorem Literal.word (l : Literal) : ∀ b ∈ l.text, IsWord b := by
  cases l with
  | null => exact forall_of_all (by decide)
  | true => exact forall_of_all (by decide)
  | false => exact forall_of_all (by decide)
  | number n => exact n.word

theorem Literal.inert (l : Literal) : ∀ b ∈ l.text, IsInert b :=
  fun b member => (l.word b member).1

theorem StringChar.noNul (c : StringChar) : Byte.nul ∉ c.text := by
  cases c with
  | plain b isPlain =>
      intro member
      cases List.mem_singleton.mp member
      exact absurd isPlain (by decide)
  | escape letter => cases letter <;> decide
  | unicode a b c d =>
      have notNul : ∀ x : {x : Byte // IsHexDigit x}, Byte.nul ≠ x.val := fun x same =>
        absurd (same ▸ x.property) (by decide)
      simp +decide [StringChar.text, notNul]

theorem StringBody.noNul {body : StringBody} : Byte.nul ∉ body.text := by
  intro member
  obtain ⟨c, _, inChar⟩ := List.mem_flatMap.mp member
  exact c.noNul inChar

theorem quoted_noNul (body : StringBody) : Byte.nul ∉ quoted body := by
  simp +decide [quoted, StringBody.noNul]

theorem noNul_of_inert {bytes : List Byte} (inert : ∀ b ∈ bytes, IsInert b) :
    Byte.nul ∉ bytes := fun member => (inert _ member).2.2.2.2.2.2 rfl

theorem Blanks.noNul {blanks : Blanks} : Byte.nul ∉ blanks.text := noNul_of_inert Blanks.inert

/-! ## Properties of all texts -/

/-- A property of texts that holds of every token and is kept when texts are put together. -/
structure Composes (P : List Byte → Prop) : Prop where
  append : ∀ {first second}, P first → P second → P (first ++ second)
  inert : ∀ {bytes}, (∀ b ∈ bytes, IsInert b) → P bytes
  quoted : ∀ body, P (quoted body)
  brackets : ∀ {inner}, P inner → P (Byte.openBracket :: (inner ++ [Byte.closeBracket]))
  braces : ∀ {inner}, P inner → P (Byte.openBrace :: (inner ++ [Byte.closeBrace]))

namespace Composes

variable {P : List Byte → Prop}

theorem blanks (all : Composes P) (blanks : Blanks) : P blanks.text := all.inert Blanks.inert

theorem mark (all : Composes P) {b : Byte} (isInert : IsInert b) {bytes : List Byte}
    (rest : P bytes) : P (b :: bytes) :=
  all.append (all.inert fun _ member => List.mem_singleton.mp member ▸ isInert) rest

theorem label (all : Composes P) (before : Blanks) (name : StringBody)
    (afterName beforeValue : Blanks) : P (label before name afterName beforeValue) :=
  all.append (all.append (all.append (all.blanks before) (all.quoted name)) (all.blanks afterName))
    (all.mark (by decide) (all.blanks beforeValue))

mutual
/-- **What holds of tokens and is kept by putting texts together holds of every value.** -/
theorem value (all : Composes P) : ∀ v : Value, P v.text
  | .literal l => by
      rw [Value.text]
      exact all.inert l.inert
  | .string body => by
      rw [Value.text]
      exact all.quoted body
  | .array a => by
      rw [Value.text]
      exact all.array a
  | .object o => by
      rw [Value.text]
      exact all.object o

theorem array (all : Composes P) : ∀ a : Array, P a.text
  | .empty blanks => all.brackets (all.blanks blanks)
  | .of elements => all.brackets (all.elements elements)

theorem elements (all : Composes P) : ∀ es : Elements, P es.text
  | .last before v after =>
      all.append (all.append (all.blanks before) (all.value v)) (all.blanks after)
  | .more before v after rest =>
      all.append (all.append (all.append (all.blanks before) (all.value v)) (all.blanks after))
        (all.mark (by decide) (all.elements rest))

theorem object (all : Composes P) : ∀ o : Object, P o.text
  | .empty blanks => all.braces (all.blanks blanks)
  | .of members => all.braces (all.members members)

theorem members (all : Composes P) : ∀ ms : Members, P ms.text
  | .last before name afterName beforeValue v after =>
      all.append (all.append (all.label before name afterName beforeValue) (all.value v))
        (all.blanks after)
  | .more before name afterName beforeValue v after rest =>
      all.append (all.append (all.append (all.label before name afterName beforeValue)
        (all.value v)) (all.blanks after)) (all.mark (by decide) (all.members rest))
end

end Composes

/-- A JSON text holds no zero byte, so it can be stored as a string. -/
theorem composes_noNul : Composes (Byte.nul ∉ ·) where
  append first second member := (List.mem_append.mp member).elim first second
  inert := noNul_of_inert
  quoted := quoted_noNul
  brackets inside := by simp +decide [inside]
  braces inside := by simp +decide [inside]

theorem Object.noNul (o : Object) : Byte.nul ∉ o.text := composes_noNul.object o

/-! ## The first byte of a value -/

theorem Number.text_starts (n : Number) :
    ∃ c tail, n.text = c :: tail ∧ ∀ blank : Blank, c ≠ blank.byte := by
  obtain ⟨negative, int, frac, exponent⟩ := n
  cases negative with
  | true => exact ⟨45, _, rfl, by intro blank; cases blank <;> decide⟩
  | false =>
      cases int with
      | zero => exact ⟨48, _, rfl, by intro blank; cases blank <;> decide⟩
      | nonzero digits _ =>
          have differs : ∀ (d : Digit) (blank : Blank), Digit.byte d ≠ blank.byte := by
            intro d blank
            revert d
            cases blank <;> decide
          exact ⟨Digit.byte digits.first, _, rfl, differs digits.first⟩

/-- A value starts with a byte that is no blank. -/
theorem Value.text_starts (v : Value) :
    ∃ c tail, v.text = c :: tail ∧ ∀ blank : Blank, c ≠ blank.byte := by
  have fixed : ∀ {text : List Byte} (c : Byte) (tail : List Byte), text = c :: tail →
      (c ≠ Byte.space ∧ c ≠ Byte.tab ∧ c ≠ Byte.lineFeed ∧ c ≠ Byte.carriageReturn) →
      ∃ c tail, text = c :: tail ∧ ∀ blank : Blank, c ≠ blank.byte := by
    rintro text c tail rfl ⟨space, tab, lineFeed, carriageReturn⟩
    refine ⟨c, tail, rfl, fun blank => ?_⟩
    cases blank with
    | space => exact space
    | tab => exact tab
    | lineFeed => exact lineFeed
    | carriageReturn => exact carriageReturn
  cases v with
  | literal l =>
      cases l with
      | null => exact fixed 110 _ rfl (by decide)
      | true => exact fixed 116 _ rfl (by decide)
      | false => exact fixed 102 _ rfl (by decide)
      | number n => exact n.text_starts
  | string body => exact fixed Byte.quote _ rfl (by decide)
  | array a => cases a <;> exact fixed Byte.openBracket _ rfl (by decide)
  | object o => cases o <;> exact fixed Byte.openBrace _ rfl (by decide)

/-! ## The two ends of an array and an object -/

/-- What stands between the brackets of an array. -/
def Array.inner : Array → List Byte
  | .empty blanks => blanks.text
  | .of elements => elements.text

theorem Array.text_eq (a : Array) :
    a.text = Byte.openBracket :: (a.inner ++ [Byte.closeBracket]) := by
  cases a <;> rfl

/-- What stands between the braces of an object. -/
def Object.inner : Object → List Byte
  | .empty blanks => blanks.text
  | .of members => members.text

theorem Object.text_eq (o : Object) :
    o.text = Byte.openBrace :: (o.inner ++ [Byte.closeBrace]) := by
  cases o <;> rfl

theorem Composes.arrayInner {P : List Byte → Prop} (all : Composes P) (a : Array) : P a.inner := by
  cases a with
  | empty blanks => exact all.blanks blanks
  | of elements => exact all.elements elements

theorem Composes.objectInner {P : List Byte → Prop} (all : Composes P) (o : Object) :
    P o.inner := by
  cases o with
  | empty blanks => exact all.blanks blanks
  | of members => exact all.members members

theorem Object.two_le_length (o : Object) : 2 ≤ o.text.length := by
  rw [Object.text_eq]
  simp

/-- An object's text as a zero-terminated string. -/
def Object.string (o : Object) : CString := ⟨o.text, o.noNul⟩

/-! ## Documents -/

/-- An object with the blanks around it. -/
structure Document where
  before : Blanks
  object : Object
  after : Blanks

def Document.text (d : Document) : List Byte := d.before.text ++ (d.object.text ++ d.after.text)

def Document.string (d : Document) : CString :=
  ⟨d.text, by simp [Document.text, Blanks.noNul, d.object.noNul]⟩

end ParseEmbedded.Json
