import ParseEmbedded.Bytes
import ParseEmbedded.Library.Block
import ParseEmbedded.Library.Percent

/-!
# Encoding of a query

`urlEncode` of `utils.c` prints each byte of a string behind what it has printed, as it is if a
table says so, and otherwise with `%%%02X`. A `char` is signed on the Yun: a byte from 128 on is a
negative index of the table, and a negative number for `%02X`.

The memory in front of the table is not modelled: what is read there is a parameter, `outside`, and
the indices are recorded. So are the ranges that are printed to.
-/

set_option autoImplicit false

namespace ParseEmbedded.Yun

open Percent

/-! ## The source -/

/-- The value of a `char`, where it is signed. -/
def signed (c : Byte) : Int := if c < 128 then c.toNat else (c.toNat : Int) - 256

/-- `isalnum` in the locale of C. -/
def isalnum (i : Nat) : Prop := 48 ≤ i ∧ i ≤ 57 ∨ 65 ≤ i ∧ i ≤ 90 ∨ 97 ≤ i ∧ i ≤ 122

instance (i : Nat) : Decidable (isalnum i) := inferInstanceAs (Decidable (_ ∨ _))

/-- An entry of the table `rfc3986`: a character that stays, or zero. -/
def rfc3986 (i : Nat) : Byte :=
  if isalnum i ∨ i = 126 ∨ i = 45 ∨ i = 46 ∨ i = 95 ∨ i = 38 ∨ i = 61 then UInt8.ofNat i else 0

/-- The entry at an index, which may lie outside the table. -/
def entry (outside : Int → Byte) (i : Int) : Byte :=
  if 0 ≤ i ∧ i < 256 then rfc3986 i.toNat else outside i

/-- The digits of a number in base 16, if there are not more than so many. -/
def hexDigits : Nat → Nat → List Byte
  | 0, _ => []
  | most + 1, n =>
      if n < 16 then [hexDigit n] else hexDigits most (n / 16) ++ [hexDigit (n % 16)]

/-- `%02X`, for the `unsigned int` that an `int` is converted to: at least two digits. -/
def printHex (i : Int) : List Byte :=
  let digits := hexDigits 8 (i % 4294967296).toNat
  List.replicate (2 - digits.length) (hexDigit 0) ++ digits

/-- What is printed for a byte. -/
def printed (outside : Int → Byte) (c : Byte) : List Byte :=
  if entry outside (signed c) ≠ 0 then [entry outside (signed c)]
  else percent :: printHex (signed c)

/-- `while (*++enc);`: the next zero behind the place. -/
def nextNul (cells : List Byte) (place : Nat) : Nat :=
  place + 1 + ((cells.drop (place + 1)).takeWhile (· ≠ Byte.nul)).length

/-- The buffer, the place in it that `enc` points to, and what has been used so far: the indices of
the table, and the ranges of the buffer. -/
structure Encoding (size : Nat) where
  buffer : Block Byte size
  enc : Nat
  indices : List Int
  writes : List Extent

/-- A pass of the loop of `urlEncode`. -/
def encodePass {size : Nat} (outside : Int → Byte) (e : Encoding size) (c : Byte) :
    Encoding size :=
  let buffer := e.buffer.store e.enc (printed outside c ++ [Byte.nul])
  { buffer
    enc := nextNul buffer.cells e.enc
    indices := e.indices ++ [signed c]
    writes := e.writes ++ [⟨e.enc, (printed outside c).length + 1⟩] }

/-- `urlEncode` -/
def urlEncode {size : Nat} (outside : Int → Byte) (s : CString) (buffer : Block Byte size) :
    Encoding size :=
  s.bytes.foldl (encodePass outside) ⟨buffer, 0, [], []⟩

/-! ## What is printed -/

/-- The bytes that stay: letters, digits, and the six other characters of the table. -/
def Stays (c : Byte) : Prop :=
  isalnum c.toNat ∨ c = 126 ∨ c = 45 ∨ c = 46 ∨ c = 95 ∨ c = 38 ∨ c = 61

instance (c : Byte) : Decidable (Stays c) := inferInstanceAs (Decidable (_ ∨ _))

/-- Two digits are enough for a byte. -/
theorem printHex_eq {n : Nat} (small : n < 256) :
    printHex n = [hexDigit (n / 16), hexDigit (n % 16)] := by
  have value : ((n : Int) % 4294967296).toNat = n := by omega
  rw [printHex, value]
  by_cases single : n < 16
  · have high : n / 16 = 0 := Nat.div_eq_of_lt single
    have low : n % 16 = n := Nat.mod_eq_of_lt single
    rw [hexDigits, if_pos single, high, low]
    rfl
  · have high : n / 16 < 16 := by omega
    rw [hexDigits, if_neg single, hexDigits, if_pos high]
    rfl

/-- The table says of each byte whether it stays. -/
theorem rfc3986_eq (c : Byte) : rfc3986 c.toNat = if Stays c then c else 0 := by
  have same : ∀ d : Byte, c.toNat = d.toNat ↔ c = d := fun d => UInt8.toNat_inj
  have stays : (isalnum c.toNat ∨ c.toNat = 126 ∨ c.toNat = 45 ∨ c.toNat = 46 ∨ c.toNat = 95 ∨
      c.toNat = 38 ∨ c.toNat = 61) ↔ Stays c :=
    or_congr Iff.rfl (or_congr (same 126) (or_congr (same 45) (or_congr (same 46)
      (or_congr (same 95) (or_congr (same 38) (same 61))))))
  rw [rfc3986, UInt8.ofNat_toNat]
  simp only [stays]

theorem signed_of_lt {c : Byte} (small : c < 128) : signed c = c.toNat := if_pos small

theorem Stays.ne_zero {c : Byte} (stays : Stays c) : c ≠ 0 := by
  rintro rfl
  exact absurd stays (by decide)

/-- **A byte below 128** is printed as it is, or as a percent sign with two digits. -/
theorem printed_eq (outside : Int → Byte) {c : Byte} (small : c < 128) :
    printed outside c = encodeByte Stays c := by
  have nat : c.toNat < 256 := c.toNat_lt
  have here : entry outside (signed c) = if Stays c then c else 0 := by
    rw [entry, signed_of_lt small, if_pos (by omega), Int.toNat_natCast, rfc3986_eq]
  rw [printed, here, encodeByte]
  by_cases stays : Stays c
  · rw [if_pos stays, if_pos stays.ne_zero, if_pos stays]
  · rw [if_neg stays, if_neg (not_not_intro rfl), if_neg stays, signed_of_lt small,
      printHex_eq nat, escape]

/-- What is printed for a byte has no zero in it, and a byte at least. -/
theorem encodeByte_noNul {c : Byte} (notNul : c ≠ Byte.nul) : Byte.nul ∉ encodeByte Stays c := by
  obtain ⟨high, low⟩ := halves_lt c
  rw [encodeByte]
  split
  · exact fun member => notNul (List.mem_singleton.mp member).symm
  · rw [escape]
    have percentSign : Byte.nul ≠ percent := by decide
    simp [percentSign, (hexDigit_ne_zero _ high).symm, (hexDigit_ne_zero _ low).symm]

/-! ## The loop -/

section Loop

variable {size : Nat} {outside : Int → Byte}

/-- Behind a text with a zero, which was printed at a place, `enc` comes to that zero. -/
theorem nextNul_store {buffer : Block Byte size} {place : Nat} {text : List Byte}
    (some : text ≠ []) (noNul : Byte.nul ∉ text)
    (inside : place + (text ++ [Byte.nul]).length ≤ size) :
    nextNul (buffer.store place (text ++ [Byte.nul])).cells place = place + text.length := by
  have front : (buffer.cells.take place).length = place := by
    rw [List.length_take, buffer.length_cells]
    rw [List.length_append] at inside
    omega
  obtain ⟨c, text, rfl⟩ := List.exists_cons_of_ne_nil some
  have noNul' : Byte.nul ∉ text := List.not_mem_of_not_mem_cons noNul
  have behind : ∀ rest, (buffer.cells.take place ++ (c :: text ++ [Byte.nul] ++ rest)).drop
      (place + 1) = text ++ Byte.nul :: rest := by
    intro rest
    rw [← List.drop_drop, List.drop_left' front, List.append_assoc]
    rfl
  have upToZero := CString.ofMemory_append_nul noNul'
  simp only [CString.ofMemory] at upToZero
  rw [nextNul, buffer.store_inside inside, behind, upToZero, List.length_cons]
  omega

/-- What the loop has done when it is through with a part of the string: the buffer starts with the
part encoded, and a zero is behind that as soon as there is a byte. -/
structure Encoded (e : Encoding size) (done : List Byte) : Prop where
  enc : e.enc = (encode Stays done).length
  text : e.buffer.cells.take e.enc = encode Stays done
  ended : done ≠ [] → e.buffer.cells[e.enc]? = some Byte.nul
  writes : ∀ write ∈ e.writes, write.Inside (e.enc + 1)

/-- **A pass prints one byte more.** -/
theorem encodePass_encoded (outside : Int → Byte) {e : Encoding size} {done : List Byte}
    (encoded : Encoded e done) {c : Byte} (notNul : c ≠ Byte.nul) (small : c < 128)
    (room : e.enc + 4 ≤ size) :
    Encoded (encodePass outside e c) (done ++ [c]) := by
  obtain ⟨text, isText⟩ : ∃ text, text = encodeByte Stays c := ⟨_, rfl⟩
  obtain ⟨positive, short⟩ := encodeByte_length Stays c
  have noNul := encodeByte_noNul notNul
  rw [← isText] at positive short noNul
  have inside : e.enc + (text ++ [Byte.nul]).length ≤ size := by
    rw [List.length_append, List.length_singleton]
    omega
  have longer : encode Stays (done ++ [c]) = encode Stays done ++ text := by
    rw [encode, List.flatMap_append, List.flatMap_singleton, ← isText, encode]
  have next : (encodePass outside e c).enc = e.enc + text.length := by
    rw [← nextNul_store (List.ne_nil_of_length_pos positive) noNul inside, isText,
      ← printed_eq outside small, encodePass]
  have stored : (encodePass outside e c).buffer.cells.take (e.enc + text.length + 1) =
      encode Stays done ++ (text ++ [Byte.nul]) := by
    have taken := e.buffer.take_store inside
    rw [encoded.text, List.length_append, List.length_singleton, ← Nat.add_assoc] at taken
    rw [encodePass, printed_eq outside small, ← isText, taken]
  have length : (encode Stays done ++ text).length = e.enc + text.length := by
    rw [List.length_append, ← encoded.enc]
  rw [← List.append_assoc] at stored
  constructor
  · rw [next, longer, length]
  · have front := congrArg (List.take (e.enc + text.length)) stored
    rw [List.take_take, Nat.min_eq_left (Nat.le_succ _), ← length, List.take_left, length] at front
    rw [next, longer, front]
  · intro _
    have zero := congrArg (fun cells => cells[e.enc + text.length]?) stored
    rw [List.getElem?_take_of_lt (Nat.lt_succ_self _), ← length, List.getElem?_concat_length,
      length] at zero
    rw [next, zero]
  · intro write member
    rw [next]
    rw [encodePass, printed_eq outside small, ← isText] at member
    rcases List.mem_append.mp member with earlier | new
    · have := encoded.writes write earlier
      rw [Extent.Inside] at this ⊢
      omega
    · rw [List.mem_singleton.mp new]
      exact Nat.le_refl _

/-- **The whole string is printed**, if all of its bytes are below 128. -/
theorem encoded_foldl (rest : List Byte) : ∀ {e : Encoding size} {done : List Byte},
    Encoded e done → Byte.nul ∉ rest → (∀ c ∈ rest, c < 128) →
      3 * (done ++ rest).length + 1 ≤ size →
        Encoded (rest.foldl (encodePass outside) e) (done ++ rest) := by
  induction rest with
  | nil =>
      intro e done encoded _ _ _
      rwa [List.append_nil]
  | cons c rest ih =>
      intro e done encoded noNul small room
      have written := encode_length_le Stays done
      rw [← encoded.enc] at written
      rw [List.length_append, List.length_cons] at room
      have next := encodePass_encoded outside encoded
        (List.ne_of_not_mem_cons noNul).symm (small c List.mem_cons_self) (by omega)
      have whole : done ++ c :: rest = (done ++ [c]) ++ rest := by
        rw [List.append_assoc, List.singleton_append]
      rw [whole]
      refine ih next (List.not_mem_of_not_mem_cons noNul)
        (fun d member => small d (List.mem_cons_of_mem c member)) ?_
      rw [← whole, List.length_append, List.length_cons]
      exact room

/-- The indices of the table are the bytes as `char`s. -/
theorem foldl_indices (rest : List Byte) : ∀ e : Encoding size,
    (rest.foldl (encodePass outside) e).indices = e.indices ++ rest.map signed := by
  induction rest with
  | nil => exact fun e => (List.append_nil _).symm
  | cons c rest ih =>
      intro e
      rw [List.foldl_cons, ih, encodePass, List.append_assoc, List.map_cons,
        List.singleton_append]

end Loop

/-! ## The whole function -/

/-- The string that is in the buffer behind a call. -/
def encodedText {size : Nat} (outside : Int → Byte) (s : CString) (buffer : Block Byte size) :
    List Byte :=
  (CString.ofMemory (urlEncode outside s buffer).buffer.cells).bytes

/-- The function does what it is for: the table is used inside its bounds, three bytes for each one
of the string and one for the zero are enough, each byte is printed as it is or as a percent sign
with two digits, and what is printed can be read back. -/
structure EncodesUrl {size : Nat} (outside : Int → Byte) (s : CString) (buffer : Block Byte size) :
    Prop where
  indices : ∀ i ∈ (urlEncode outside s buffer).indices, 0 ≤ i ∧ i ≤ 255
  writes : ∀ write ∈ (urlEncode outside s buffer).writes, write.Inside (3 * s.length + 1)
  emits : ∃ pieces, List.Forall₂ (Encodes Stays) s.bytes pieces ∧
    encodedText outside s buffer = pieces.flatten
  decodes : decode (encodedText outside s buffer) = some s.bytes

/-- An index inside the table belongs to a byte below 128. -/
theorem signed_inside_iff {c : Byte} : 0 ≤ signed c ∧ signed c ≤ 255 ↔ c < 128 := by
  have nat : c.toNat < 256 := c.toNat_lt
  rw [signed]
  split
  · exact iff_of_true (by omega) ‹_›
  · exact iff_of_false (by omega) ‹_›

/-- An encoded string has no zero in it. -/
theorem encode_noNul {text : List Byte} (noNul : Byte.nul ∉ text) :
    Byte.nul ∉ encode Stays text := by
  intro member
  obtain ⟨c, there, inPiece⟩ := List.mem_flatMap.mp member
  exact encodeByte_noNul (fun nul => noNul (nul ▸ there)) inPiece

section Call

variable {size : Nat} {outside : Int → Byte} {s : CString} {buffer : Block Byte size}

/-- The indices of a call are the bytes of the string as `char`s. -/
theorem urlEncode_indices : (urlEncode outside s buffer).indices = s.bytes.map signed :=
  foldl_indices s.bytes _

/-- What an empty string leaves in the buffer is what was there. -/
theorem encodedText_of_empty (empty : s.bytes = []) :
    encodedText outside s buffer = buffer.cells.takeWhile (· ≠ Byte.nul) := by
  rw [encodedText, urlEncode, empty]
  rfl

/-- The buffer holds the encoded string, up to a zero. -/
theorem encodedText_eq (encoded : Encoded (urlEncode outside s buffer) s.bytes)
    (empty : s.bytes = [] → buffer.cells.head? = some Byte.nul) :
    encodedText outside s buffer = encode Stays s.bytes := by
  by_cases isEmpty : s.bytes = []
  · obtain ⟨rest, cells⟩ := List.head?_eq_some_iff.mp (empty isEmpty)
    rw [encodedText_of_empty isEmpty, cells, isEmpty]
    rfl
  · obtain ⟨inside, zero⟩ := List.getElem?_eq_some_iff.mp (encoded.ended isEmpty)
    have cells : (urlEncode outside s buffer).buffer.cells = encode Stays s.bytes ++
        Byte.nul :: (urlEncode outside s buffer).buffer.cells.drop
          ((urlEncode outside s buffer).enc + 1) := by
      rw [← encoded.text, ← zero, ← List.drop_eq_getElem_cons, List.take_append_drop]
    rw [encodedText, cells]
    exact CString.ofMemory_append_nul (encode_noNul s.noNul) _

/-- **The function does what it is for** if and only if every byte of the string is below 128, and
it has a byte or the buffer starts with a zero. -/
theorem url_encode_iff (outside : Int → Byte) (s : CString) (buffer : Block Byte size)
    (room : 3 * s.length + 1 ≤ size) :
    EncodesUrl outside s buffer ↔
      (∀ c ∈ s.bytes, c < 128) ∧ (s.bytes = [] → buffer.cells.head? = some Byte.nul) := by
  constructor
  · intro encodes
    refine ⟨fun c member => ?_, fun empty => ?_⟩
    · have index : signed c ∈ (urlEncode outside s buffer).indices := by
        rw [urlEncode_indices]
        exact List.mem_map_of_mem member
      exact signed_inside_iff.mp (encodes.indices _ index)
    · have read := encodes.decodes
      rw [empty] at read
      have nothing := eq_nil_of_decode read
      rw [encodedText_of_empty empty] at nothing
      cases cells : buffer.cells with
      | nil =>
          have length := buffer.length_cells
          rw [cells, List.length_nil] at length
          omega
      | cons c rest =>
          rw [cells, List.takeWhile_cons] at nothing
          by_cases nul : c = Byte.nul
          · rw [nul, List.head?_cons]
          · rw [if_pos (decide_eq_true nul)] at nothing
            exact absurd nothing (List.cons_ne_nil _ _)
  · rintro ⟨small, empty⟩
    have start : Encoded (⟨buffer, 0, [], []⟩ : Encoding size) [] :=
      ⟨rfl, rfl, fun some => absurd rfl some, fun _ none => absurd none List.not_mem_nil⟩
    have encoded : Encoded (urlEncode outside s buffer) s.bytes :=
      encoded_foldl s.bytes start s.noNul small room
    have text := encodedText_eq encoded empty
    refine ⟨fun i member => ?_, fun write member => ?_, ?_, ?_⟩
    · rw [urlEncode_indices] at member
      obtain ⟨c, there, rfl⟩ := List.mem_map.mp member
      exact signed_inside_iff.mpr (small c there)
    · have inside := encoded.writes write member
      have short := encode_length_le Stays s.bytes
      rw [Extent.Inside, encoded.enc] at inside
      exact Nat.le_trans inside (Nat.succ_le_succ short)
    · exact ⟨_, encode_pieces Stays s.bytes, text.trans rfl⟩
    · rw [text]
      exact decode_encode (by decide) s.bytes

end Call

theorem url_encode_iff_query :
    EncodesUrl (fun _ => 0) (CString.literal "where=\x7b\x7d&limit=10")
      (Block.fill 70 (7 : Byte)) :=
  (url_encode_iff (fun _ => 0) (CString.literal "where=\x7b\x7d&limit=10") (Block.fill 70 7)
    (by decide)).mpr ⟨by decide +kernel, fun empty => absurd empty (by decide +kernel)⟩

/-- The byte 233, in front of a table with zeros before it: a negative index, and eight digits. -/
theorem url_encode_counterexample :
    ¬ EncodesUrl (fun _ => 0) (CString.ofMemory [233]) (Block.fill 12 (0 : Byte)) ∧
      encodedText (fun _ => 0) (CString.ofMemory [233]) (Block.fill 12 0) = ascii "%FFFFFFE9" := by
  refine ⟨fun encodes => ?_, by decide +kernel⟩
  have index := encodes.indices (-23) (by decide)
  exact absurd index (by decide)

end ParseEmbedded.Yun
