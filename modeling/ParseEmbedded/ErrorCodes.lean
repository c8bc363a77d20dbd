import Mathlib
import ParseEmbedded.Rtos.QueryResult

/-!
# Error codes

`parseGetErrorCode` looks up the code in the answer to a request that has failed. Each platform has
one of its own (`request.c` of the RTOS and `parse.c` of Unix), with a buffer of its own size, a
conversion of its own and an answer of its own where there is no code.

`error_codes_agree` says for which answers both return the code of the server.
-/

set_option autoImplicit false

namespace ParseEmbedded

def CODE : CString := CString.literal "code"

end ParseEmbedded

/-! ## The source -/

namespace ParseEmbedded.Rtos

/-- `parseGetErrorCode` of the RTOS -/
def parseGetErrorCode (stray : Stray) (httpResponseBody : CString) : Int :=
  let code := lookUp stray httpResponseBody CODE (zeros 9) 10
  if code.1 ≠ 0 then atoi (stringOf code.2) else 2

end ParseEmbedded.Rtos

namespace ParseEmbedded.Unix

/-- `parseGetErrorCode` of Unix, for what `char value[16]` holds before: `strtoumax` reads a number
as `atoi` does and wraps around at `2 ^ 64`, and the result is converted to an `int`. -/
def parseGetErrorCode (stray : Rtos.Stray) (value : List Byte) (httpResponseBody : CString) : Int :=
  let code := Rtos.lookUp stray httpResponseBody CODE value 16
  if code.1 ≠ 0 then
    let number := Rtos.atoi (Rtos.stringOf code.2) % 18446744073709551616
    (number + 2147483648) % 4294967296 - 2147483648
  else 0

end ParseEmbedded.Unix

namespace ParseEmbedded

open Json SimpleJson
open Rtos (Stray lookUp zeros stringOf scan_member isspace atoi atoiDigits)

/-! ## The number of a token -/

def digitsNumber (digits : List Digit) : Nat := digits.foldl (fun n d => 10 * n + d.val) 0

/-- The integer in front of the fraction and the exponent. -/
def integer (n : Number) : Int :=
  if n.negative then -(digitsNumber n.int.digits : Int)
  else digitsNumber n.int.digits

/-- The text of this integer, and what the number has behind it. -/
def integerText (n : Number) : List Byte := (if n.negative then [45] else []) ++ n.int.text

def fractionText (n : Number) : List Byte :=
  (match n.frac with
    | none => []
    | some digits => 46 :: digits.text) ++
  (match n.exponent with
    | none => []
    | some e => e.text)

theorem number_text (n : Number) : n.text = integerText n ++ fractionText n :=
  List.append_assoc (integerText n) _ _

theorem int_text (int : IntPart) : int.text = int.digits.map Digit.byte := by
  cases int with
  | zero => decide
  | nonzero digits leading => rfl

/-- A text that does not go on with a digit. -/
def NoDigit (text : List Byte) : Prop := ∀ c ∈ text.head?, ¬ (48 ≤ c ∧ c ≤ 57)

theorem NoDigit.take {text : List Byte} (noDigit : NoDigit text) (n : Nat) :
    NoDigit (text.take n) := by
  intro c first
  cases n with
  | zero => exact absurd first (Option.not_mem_none c)
  | succ n =>
      rw [List.head?_take, if_neg (Nat.succ_ne_zero n)] at first
      exact noDigit c first

theorem fraction_noDigit (n : Number) (blanks : Blanks) :
    NoDigit (fractionText n ++ blanks.text) := by
  have isBlank : NoDigit blanks.text := by
    cases blanks with
    | nil => exact fun c first => absurd first (Option.not_mem_none c)
    | cons blank blanks =>
        intro c first
        obtain rfl := Option.some.inj first
        cases blank <;> decide
  rw [fractionText]
  cases n.frac with
  | some digits =>
      intro c first
      obtain rfl := Option.some.inj first
      decide
  | none =>
      cases n.exponent with
      | none => exact isBlank
      | some e =>
          intro c first
          have starts : c = if e.upper then 69 else 101 := (Option.some.inj first).symm
          rw [starts]
          cases e.upper <;> decide

theorem digit_byte : ∀ d : Digit,
    (48 ≤ d.byte ∧ d.byte ≤ 57) ∧ (d.byte - 48).toNat = d.val := by
  decide

/-- The digits are read as far as they go. -/
theorem atoiDigits_append (digits : List Digit) {rest : List Byte} (noDigit : NoDigit rest) :
    ∀ value : Nat, atoiDigits value (digits.map Digit.byte ++ rest) =
      (digits.foldl (fun n d => 10 * n + d.val) value : Nat) := by
  induction digits with
  | nil =>
      intro value
      cases rest with
      | nil => rfl
      | cons c rest => exact if_neg (noDigit c rfl)
  | cons d digits ih =>
      intro value
      obtain ⟨isDigit, isValue⟩ := digit_byte d
      rw [List.map_cons, List.cons_append, atoiDigits, if_pos isDigit, isValue]
      exact ih (10 * value + d.val)

theorem digit_starts : ∀ d : Digit, ¬ isspace d.byte ∧ d.byte ≠ 45 ∧ d.byte ≠ 43 := by decide

/-- A number without a sign. -/
theorem atoi_digits {c : Byte} (notSpace : ¬ isspace c) (notMinus : c ≠ 45) (notPlus : c ≠ 43)
    (rest : List Byte) : atoi (c :: rest) = atoiDigits 0 (c :: rest) := by
  rw [atoi, List.dropWhile_cons_of_neg notSpace]
  split
  · rename_i minus
    exact absurd (List.cons.inj minus).1 notMinus
  · rename_i plus
    exact absurd (List.cons.inj plus).1 notPlus
  · rfl

theorem atoi_integer (n : Number) {rest : List Byte} (noDigit : NoDigit rest) :
    atoi (integerText n ++ rest) = integer n := by
  have read : atoiDigits 0 (n.int.text ++ rest) = digitsNumber n.int.digits := by
    rw [int_text]
    exact atoiDigits_append n.int.digits noDigit 0
  rw [integerText, integer]
  cases n.negative with
  | true =>
      change -atoiDigits 0 (n.int.text ++ rest) = _
      rw [read]
      rfl
  | false =>
      obtain ⟨d, digits, isFirst⟩ : ∃ d digits, n.int.digits = d :: digits := by
        cases n.int with
        | zero => exact ⟨0, [], rfl⟩
        | nonzero digits leading => exact ⟨digits.first, digits.rest, rfl⟩
      obtain ⟨notSpace, notMinus, notPlus⟩ := digit_starts d
      rw [int_text, isFirst] at read ⊢
      exact (atoi_digits notSpace notMinus notPlus _).trans read

/-- So many digits make a number below this power of ten. -/
theorem digitsNumber_lt (digits : List Digit) : ∀ n : Nat,
    digits.foldl (fun n d => 10 * n + d.val) n < (n + 1) * 10 ^ digits.length := by
  induction digits with
  | nil => exact fun n => by simp
  | cons d digits ih =>
      intro n
      have digit : d.val < 10 := d.isLt
      have more : 10 * n + d.val + 1 ≤ (n + 1) * 10 := by omega
      calc digits.foldl (fun n d => 10 * n + d.val) (10 * n + d.val)
          < (10 * n + d.val + 1) * 10 ^ digits.length := ih _
        _ ≤ (n + 1) * 10 * 10 ^ digits.length := Nat.mul_le_mul_right _ more
        _ = (n + 1) * 10 ^ (d :: digits).length := by
            rw [List.length_cons, Nat.pow_succ, Nat.mul_assoc, Nat.mul_comm 10]

theorem integer_bounds {n : Number} (short : (integerText n).length ≤ 9) :
    -1000000000 < integer n ∧ integer n < 1000000000 := by
  have digits : n.int.digits.length ≤ 9 := by
    rw [integerText, List.length_append, int_text, List.length_map] at short
    omega
  have below : digitsNumber n.int.digits < 1000000000 := by
    calc digitsNumber n.int.digits
        < (0 + 1) * 10 ^ n.int.digits.length := digitsNumber_lt _ 0
      _ ≤ (0 + 1) * 10 ^ 9 := Nat.mul_le_mul_left _ (Nat.pow_le_pow_right (by decide) digits)
      _ = 1000000000 := by decide
  rw [integer]
  split <;> omega

/-! ## The lookup of the code -/

theorem code_ends : CODE.bytes = ascii "cod" ++ [101] := by decide

theorem code_inert : ∀ c ∈ CODE.bytes, IsInert c := forall_of_all (by decide)

theorem code_nonempty : CODE.bytes ≠ [] := by decide

theorem code_isWord : ¬ IsGap 101 := by decide

def codeKey : WordKey :=
  ⟨⟨CODE, code_nonempty, code_inert⟩, ascii "cod", 101, code_ends, code_isWord⟩

/-- Where no member has the name, there is no value. -/
theorem valueFrom_none (behind : List Byte) : ∀ members : Members,
    memberValue CODE.bytes members = none → valueFrom CODE.bytes behind members = none
  | .last _ _ _ _ _ _, noMember => by
      rw [memberValue] at noMember
      rw [valueFrom]
      split at noMember
      · exact absurd noMember (Option.some_ne_none _)
      · rename_i differs
        exact if_neg differs
  | .more _ _ _ _ _ _ rest, noMember => by
      rw [memberValue] at noMember
      rw [valueFrom]
      split at noMember
      · exact absurd noMember (Option.some_ne_none _)
      · rename_i differs
        rw [if_neg differs]
        exact valueFrom_none behind rest noMember

/-- What a lookup of the code returns and leaves in its array. -/
theorem lookUp_code (d : Document) (stray : Stray) (array : List Byte) (size : Nat) :
    lookUp stray d.string CODE array size = ((storedText CODE.bytes d.text).isSome.toNat,
      storeInto array size (storedText CODE.bytes d.text)) := by
  have looked : simpleJsonProcessor d.string CODE (some array) size = _ :=
    lookup_document_stored codeKey d array size
  rw [lookUp, looked]
  rfl

/-- The answer to a request that has failed; the lookup of the code is not misled in it. -/
structure PlainAnswer (d : Document) : Prop where
  spaced : SpacedObject d.object
  unmistaken : UnmistakenDocument CODE.bytes d

section Answer

variable {d : Document} (plain : PlainAnswer d)

include plain

/-- **The lookup of a code that is a number** stores the number and the blanks behind it. -/
theorem code_stored {n : Number}
    (isCode : objectValue CODE.bytes d.object = some (.literal (.number n))) :
    ∃ blanks : Blanks, storedText CODE.bytes d.text = some (n.text ++ blanks.text) := by
  have unmistaken : UnmistakenDocument codeKey.bytes d := plain.unmistaken
  obtain ⟨front, after, mark, tail, delimiter, ⟨blanks, rfl⟩, -, -, stopped⟩ :=
    scan_member plain.spaced unmistaken isCode
  have some : (Value.literal (.number n)).text ++ (blanks.text ++ mark :: tail) ≠ [] :=
    List.append_ne_nil_of_right_ne_nil _
      (List.append_ne_nil_of_right_ne_nil _ (List.cons_ne_nil _ _))
  refine ⟨blanks, (storedText_of_stopped stopped some).trans (congrArg Option.some ?_)⟩
  rw [storedAt, ← List.append_assoc]
  refine (extractAt_value _ blanks delimiter tail ?_).1
  change (n.text ++ blanks.text).length ≤ (n.text ++ blanks.text ++ mark :: tail).length
  exact (List.prefix_append _ _).length_le

theorem code_absent (noCode : objectValue CODE.bytes d.object = none) :
    storedText CODE.bytes d.text = none := by
  have scanned : scan CODE.bytes ⟨d.text, false, 0⟩ = memberEnd (documentValue CODE.bytes d) :=
    scan_document codeKey.toPlainKey plain.spaced plain.unmistaken
  have nothing : documentValue CODE.bytes d = none := by
    rw [documentValue]
    cases isObject : d.object with
    | empty blanks => rfl
    | of members =>
        rw [isObject] at noCode
        exact valueFrom_none _ members noCode
  rw [storedText, scanned, nothing]
  rfl

end Answer

/-- **Both platforms return the code of the server.** If the answer has a code whose integer has at
most nine characters, a sign and digits, with or without a fraction, both return this integer. If it
has none, the RTOS returns 2 and Unix 0. -/
theorem error_codes_agree {d : Document} (plain : PlainAnswer d) (stray : Stray)
    (value : List Byte) :
    (∀ n : Number, objectValue CODE.bytes d.object = some (.literal (.number n)) →
      (integerText n).length ≤ 9 →
        Rtos.parseGetErrorCode stray d.string = integer n ∧
          Unix.parseGetErrorCode stray value d.string = integer n) ∧
      (objectValue CODE.bytes d.object = none →
        Rtos.parseGetErrorCode stray d.string = 2 ∧
          Unix.parseGetErrorCode stray value d.string = 0) := by
  constructor
  · intro n isCode short
    obtain ⟨blanks, stored⟩ := code_stored plain isCode
    have noNul : Byte.nul ∉ n.text ++ blanks.text := storedText_noNul d.string.noNul stored
    have read : ∀ (array : List Byte) (size : Nat), 9 < size →
        atoi (stringOf (storeInto array size (some (n.text ++ blanks.text)))) = integer n := by
      intro array size room
      have cut : ((size : Int) - 1).toNat = (integerText n).length +
          ((size : Int) - 1 - (integerText n).length).toNat := by omega
      rw [stringOf, ofMemory_storeInto array size noNul, number_text, List.append_assoc, cut,
        List.take_length_add_append]
      exact atoi_integer n ((fraction_noDigit n blanks).take _)
    obtain ⟨low, high⟩ := integer_bounds short
    constructor
    · rw [Rtos.parseGetErrorCode, lookUp_code, stored]
      exact read (zeros 9) 10 (by decide)
    · rw [Unix.parseGetErrorCode, lookUp_code, stored]
      have isThere : (some (n.text ++ blanks.text)).isSome.toNat ≠ 0 := Nat.one_ne_zero
      dsimp only
      rw [if_pos isThere, read value 16 (by decide)]
      omega
  · intro noCode
    have nothing := code_absent plain noCode
    constructor
    · rw [Rtos.parseGetErrorCode, lookUp_code, nothing]
      rfl
    · rw [Unix.parseGetErrorCode, lookUp_code, nothing]
      rfl

section Example

theorem one_lt_ten : 1 < 10 := by decide

theorem zero_lt_ten : 0 < 10 := Nat.lt_of_succ_lt one_lt_ten

/-- The digits of the code 101. -/
def oneDigit : Digit := ⟨1, one_lt_ten⟩

def zeroDigit : Digit := ⟨0, zero_lt_ten⟩

theorem one_leads : oneDigit ≠ 0 := by decide

/-- `{"code":101}` -/
def missingObject : Document :=
  ⟨[], .of (.last [] (.plain "code") [] [] (.literal (.number
    ⟨false, .nonzero ⟨oneDigit, [zeroDigit, oneDigit]⟩ one_leads, none, none⟩)) []), []⟩

theorem missingObject_plain : PlainAnswer missingObject where
  spaced := by
    have noBlanks : IsSpacing [] := fun _ member => absurd member List.not_mem_nil
    exact ⟨noBlanks, noBlanks, noBlanks, noBlanks⟩
  unmistaken :=
    ⟨.done, ⟨.done, .inl (by decide)⟩, .inl (List.mem_singleton.mpr (by decide))⟩

/-- A scan that has left its text finds nothing. -/
def nothingFound : Stray := ⟨⟨[], List.not_mem_nil⟩, true, false⟩

theorem error_codes_agree_missing :
    (∀ n : Number, objectValue CODE.bytes missingObject.object = some (.literal (.number n)) →
      (integerText n).length ≤ 9 →
        Rtos.parseGetErrorCode nothingFound missingObject.string = integer n ∧
          Unix.parseGetErrorCode nothingFound (zeros 15) missingObject.string = integer n) ∧
      (objectValue CODE.bytes missingObject.object = none →
        Rtos.parseGetErrorCode nothingFound missingObject.string = 2 ∧
          Unix.parseGetErrorCode nothingFound (zeros 15) missingObject.string = 0) :=
  error_codes_agree missingObject_plain nothingFound (zeros 15)

end Example

end ParseEmbedded
