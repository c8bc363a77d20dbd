import ParseEmbedded.Rtos.Client

/-!
# The query of the blink sample

`urlEncode` and `urlDecode` of `urlencode.c`, and the query with which `blink.c` asks for the
installation of the device.

What has been encoded is decoded again, whatever its bytes are, and the sizes that `blink.h` asks of
the buffers are enough (`url_round_trip`). The query has less room than an installation id can
need: `installation_query_iff` says for which ones it is cut.
-/

set_option autoImplicit false

namespace ParseEmbedded.Rtos.Blink

open SimpleJson

/-! ## The source -/

/-- `isdigit` -/
def IsDigit (c : Byte) : Prop := 48 ≤ c ∧ c ≤ 57

instance (c : Byte) : Decidable (IsDigit c) := inferInstanceAs (Decidable (_ ∧ _))

/-- `isalnum`, or one of the four other characters that stay. -/
def Stays (c : Byte) : Prop :=
  IsDigit c ∨ (65 ≤ c ∧ c ≤ 90) ∨ (97 ≤ c ∧ c ≤ 122) ∨ c = 45 ∨ c = 95 ∨ c = 46 ∨ c = 126

instance (c : Byte) : Decidable (Stays c) := inferInstanceAs (Decidable (_ ∨ _))

abbrev percent : Byte := 37

abbrev plus : Byte := 43

/-- `fromHex`, for any character. -/
def fromHex (ch : Byte) : Byte := if IsDigit ch then ch - 48 else tolower ch - 97 + 10

/-- `toHex` -/
def toHex (code : Byte) : Byte :=
  (ascii "0123456789abcdef").getD (code &&& 15).toNat Byte.nul

/-- What `urlEncode` stores for a character. -/
def encoded (c : Byte) : List Byte :=
  if Stays c then [c]
  else if c = Byte.space then [plus]
  else [percent, toHex (c >>> 4), toHex (c &&& 15)]

/-- `urlEncode`: what it stores from `buf` on. -/
def urlEncode (str : CString) : List Byte := str.bytes.flatMap encoded ++ [Byte.nul]

/-- What `urlDecode` stores for a character other than a percent sign. -/
def unencoded (c : Byte) : Byte := if c = plus then Byte.space else c

/-- The characters that `urlDecode` stores. A percent sign without two characters behind it is
dropped. -/
def decoded : List Byte → List Byte
  | c :: first :: second :: rest =>
      if c = percent then (fromHex first <<< 4 ||| fromHex second) :: decoded rest
      else unencoded c :: decoded (first :: second :: rest)
  | c :: rest => if c = percent then decoded rest else unencoded c :: decoded rest
  | [] => []

/-- `urlDecode`: what it stores from `buf` on. -/
def urlDecode (str : CString) : List Byte := decoded str.bytes ++ [Byte.nul]

/-- The query of `blinkGetInstallationObjectId`, for what `content` holds before. -/
def installationQuery (installationId : CString) (content : List Byte) : CString :=
  let content := snprintfTo content 149
    (ascii "\x7b\"installationId\": \"" ++ installationId.bytes ++ ascii "\"\x7d")
  let encodedContent := overwrite (zeros 149) (urlEncode (CString.ofMemory content))
  CString.ofMemory (snprintfTo (zeros 149) 149
    (ascii "where=" ++ (CString.ofMemory encodedContent).bytes))

/-! ## Round trip -/

theorem encoded_length (c : Byte) : 0 < (encoded c).length ∧ (encoded c).length ≤ 3 := by
  rw [encoded]
  split
  · simp
  · split <;> simp

/-- A byte is decoded from its two digits. -/
theorem fromHex_toHex (c : Byte) :
    fromHex (toHex (c >>> 4)) <<< 4 ||| fromHex (toHex (c &&& 15)) = c := by
  have all : ∀ n < 256, fromHex (toHex (UInt8.ofNat n >>> 4)) <<< 4 |||
      fromHex (toHex (UInt8.ofNat n &&& 15)) = UInt8.ofNat n := by decide +kernel
  have here := all c.toNat c.toNat_lt
  rw [UInt8.ofNat_toNat] at here
  exact here

theorem decoded_cons {c : Byte} (other : c ≠ percent) (rest : List Byte) :
    decoded (c :: rest) = unencoded c :: decoded rest := by
  match rest with
  | [] | [_] => exact if_neg other
  | _ :: _ :: _ => exact if_neg other

theorem decoded_encoded (c : Byte) (rest : List Byte) :
    decoded (encoded c ++ rest) = c :: decoded rest := by
  rw [encoded]
  split
  · rename_i stays
    have notPercent : c ≠ percent := fun same => absurd (same ▸ stays) (by decide)
    have notPlus : c ≠ plus := fun same => absurd (same ▸ stays) (by decide)
    rw [List.singleton_append, decoded_cons notPercent, unencoded, if_neg notPlus]
  · split
    · rename_i isSpace
      rw [isSpace, List.singleton_append, decoded_cons (by decide)]
      rfl
    · rw [List.cons_append, List.cons_append, List.cons_append, List.nil_append, decoded,
        if_pos rfl, fromHex_toHex]

theorem decoded_append (text rest : List Byte) :
    decoded (text.flatMap encoded ++ rest) = text ++ decoded rest := by
  induction text with
  | nil => rfl
  | cons c text ih =>
      rw [List.flatMap_cons, List.append_assoc, decoded_encoded, ih, List.cons_append]

/-- **What has been encoded is decoded again.** -/
theorem decoded_text (text : List Byte) : decoded (text.flatMap encoded) = text := by
  have whole := decoded_append text []
  rw [List.append_nil] at whole
  exact whole.trans (List.append_nil text)

theorem decoded_length (text : List Byte) : (decoded text).length ≤ text.length := by
  fun_induction decoded text with
  | case1 | case2 | case3 | case4 =>
      simp only [List.length_cons] at *
      omega
  | case5 => exact Nat.le_refl 0

theorem encoded_noNul {c : Byte} (notNul : c ≠ Byte.nul) : Byte.nul ∉ encoded c := by
  have digits : ∀ n < 256, toHex (UInt8.ofNat n) ≠ Byte.nul := by decide +kernel
  have digit : ∀ code : Byte, toHex code ≠ Byte.nul := by
    intro code
    have here := digits code.toNat code.toNat_lt
    rw [UInt8.ofNat_toNat] at here
    exact here
  have others : Byte.nul ≠ plus ∧ Byte.nul ≠ percent := by decide
  rw [encoded]
  split
  · exact fun member => notNul (List.mem_singleton.mp member).symm
  · split
    · simp [others.1]
    · simp [others.2, (digit _).symm]

theorem encodedText_noNul (str : CString) : Byte.nul ∉ str.bytes.flatMap encoded := by
  intro member
  obtain ⟨c, inText, isNul⟩ := List.mem_flatMap.mp member
  exact encoded_noNul (fun same => str.noNul (same ▸ inText)) isNul

theorem encodedText_length (text : List Byte) :
    (text.flatMap encoded).length ≤ 3 * text.length := by
  induction text with
  | nil => exact Nat.le_refl 0
  | cons c text ih =>
      have short := (encoded_length c).2
      rw [List.flatMap_cons, List.length_append, List.length_cons]
      omega

/-- **Round trip.** What has been encoded is decoded again, whatever its bytes are. The buffers that
`blink.h` asks for are large enough: three times the string and a zero to encode it, and the string
and a zero to decode any string, well formed or not. -/
theorem url_round_trip (str : CString) :
    CString.ofMemory (urlDecode (CString.ofMemory (urlEncode str))) = str ∧
      (urlEncode str).length ≤ 3 * str.length + 1 ∧
      (urlDecode str).length ≤ str.length + 1 := by
  have text : (CString.ofMemory (urlEncode str)).bytes = str.bytes.flatMap encoded :=
    CString.ofMemory_append_nul (encodedText_noNul str) []
  refine ⟨CString.ext_bytes ?_, ?_, ?_⟩
  · rw [urlDecode, text, decoded_text]
    exact CString.ofMemory_append_nul str.noNul []
  · rw [urlEncode, List.length_append, List.length_singleton]
    exact Nat.succ_le_succ (encodedText_length str.bytes)
  · rw [urlDecode, List.length_append, List.length_singleton]
    exact Nat.succ_le_succ (decoded_length str.bytes)

/-! ## The query -/

/-- A character that is encoded as one character. -/
def IsShort (c : Byte) : Prop := Stays c ∨ c = Byte.space

instance (c : Byte) : Decidable (IsShort c) := inferInstanceAs (Decidable (_ ∨ _))

theorem encoded_short {c : Byte} (short : IsShort c) : (encoded c).length = 1 := by
  rw [encoded]
  split
  · rfl
  · rename_i notStays
    rw [if_pos (short.resolve_left notStays)]
    rfl

theorem encoded_long {c : Byte} (long : ¬ IsShort c) : (encoded c).length = 3 := by
  rw [IsShort, not_or] at long
  rw [encoded, if_neg long.1, if_neg long.2]
  rfl

/-- A character that stays short saves two. -/
theorem encodedText_short {text : List Byte} {c : Byte} (member : c ∈ text) (short : IsShort c) :
    (text.flatMap encoded).length + 2 ≤ 3 * text.length := by
  obtain ⟨front, back, rfl⟩ := List.append_of_mem member
  have first := encodedText_length front
  have last := encodedText_length back
  rw [List.flatMap_append, List.flatMap_cons, List.length_append, List.length_append,
    encoded_short short, List.length_append, List.length_cons]
  omega

theorem encodedText_long {text : List Byte} (long : ∀ c ∈ text, ¬ IsShort c) :
    (text.flatMap encoded).length = 3 * text.length := by
  induction text with
  | nil => rfl
  | cons c text ih =>
      obtain ⟨first, others⟩ := List.forall_mem_cons.mp long
      rw [List.flatMap_cons, List.length_append, encoded_long first, ih others, List.length_cons]
      omega

/-- The object that the query asks for. -/
def wanted (installationId : CString) : List Byte :=
  ascii "\x7b\"installationId\": \"" ++ installationId.bytes ++ ascii "\"\x7d"

theorem wanted_noNul (installationId : CString) : Byte.nul ∉ wanted installationId := by
  have front : Byte.nul ∉ ascii "\x7b\"installationId\": \"" := by decide
  have back : Byte.nul ∉ ascii "\"\x7d" := by decide
  simp [wanted, front, back, installationId.noNul]

theorem wanted_encoded (installationId : CString) :
    ((wanted installationId).flatMap encoded).length =
      36 + (installationId.bytes.flatMap encoded).length := by
  have front : ((ascii "\x7b\"installationId\": \"").flatMap encoded).length = 30 := by decide
  have back : ((ascii "\"\x7d").flatMap encoded).length = 6 := by decide
  rw [wanted, List.flatMap_append, List.flatMap_append, List.length_append, List.length_append,
    front, back]
  omega

/-- What is printed into an array is read back as far as there is room. -/
theorem snprintfTo_string (array : List Byte) (size : Nat) {text : List Byte}
    (noNul : Byte.nul ∉ text) :
    (CString.ofMemory (snprintfTo array size text)).bytes = text.take (size - 1) := by
  rw [snprintfTo, overwrite, List.append_assoc]
  exact CString.ofMemory_append_nul (fun member => noNul (List.mem_of_mem_take member)) _

theorem query_text {installationId : CString} (fits : installationId.length ≤ 36)
    (content : List Byte) :
    (installationQuery installationId content).bytes =
      ascii "where=" ++ ((wanted installationId).flatMap encoded).take 142 := by
  have whole : (wanted installationId).take 148 = wanted installationId := by
    refine List.take_of_length_le ?_
    have front : (ascii "\x7b\"installationId\": \"").length = 20 := by decide
    have back : (ascii "\"\x7d").length = 2 := by decide
    change installationId.bytes.length ≤ 36 at fits
    rw [wanted, List.length_append, List.length_append, front, back]
    omega
  have printed : CString.ofMemory (snprintfTo content 149 (wanted installationId)) =
      ⟨wanted installationId, wanted_noNul installationId⟩ := by
    refine CString.ext_bytes ?_
    rw [snprintfTo_string content 149 (wanted_noNul installationId)]
    exact whole
  have noNul := encodedText_noNul ⟨wanted installationId, wanted_noNul installationId⟩
  have encodedContent : (CString.ofMemory (overwrite (zeros 149)
      (urlEncode ⟨wanted installationId, wanted_noNul installationId⟩))).bytes =
        (wanted installationId).flatMap encoded := by
    rw [urlEncode, overwrite, List.append_assoc]
    exact CString.ofMemory_append_nul noNul _
  have named : Byte.nul ∉ ascii "where=" ++ (wanted installationId).flatMap encoded := by
    have word : Byte.nul ∉ ascii "where=" := by decide
    simp only [List.mem_append, not_or]
    exact ⟨word, noNul⟩
  rw [installationQuery]
  change (CString.ofMemory (snprintfTo (zeros 149) 149 (ascii "where=" ++
    (CString.ofMemory (overwrite (zeros 149) (urlEncode
      (CString.ofMemory (snprintfTo content 149 (wanted installationId)))))).bytes))).bytes = _
  have room : 149 - 1 = (ascii "where=").length + 142 := by decide
  rw [printed, encodedContent, snprintfTo_string _ _ named, room, List.take_length_add_append]

/-- Of an id that is encoded in full the end of the object is cut off: of its brace only the percent
sign is left. -/
theorem query_cut {installationId : CString} (fits : installationId.length ≤ 36)
    (full : 36 ≤ installationId.length) (long : ∀ c ∈ installationId.bytes, ¬ IsShort c)
    (content : List Byte) :
    ∃ front, wanted installationId = front ++ [Byte.closeBrace] ∧
      (installationQuery installationId content).bytes =
        ascii "where=" ++ (front.flatMap encoded ++ [percent]) ∧
      decoded (front.flatMap encoded ++ [percent]) = front := by
  have length := wanted_encoded installationId
  change installationId.bytes.length ≤ 36 at fits
  change 36 ≤ installationId.bytes.length at full
  have all : (installationId.bytes.flatMap encoded).length = 108 := by
    rw [encodedText_long long]
    omega
  obtain ⟨front, isFront⟩ : ∃ front, wanted installationId = front ++ [Byte.closeBrace] :=
    ⟨ascii "\x7b\"installationId\": \"" ++ installationId.bytes ++ ascii "\"",
      by rw [wanted, List.append_assoc _ (ascii "\"")]; rfl⟩
  have brace : encoded Byte.closeBrace = [percent, 55, 100] := by decide
  rw [isFront, List.flatMap_append, List.flatMap_singleton, brace, List.length_append] at length
  have cut : (front.flatMap encoded).length = 141 := by
    change _ + 3 = _ at length
    omega
  have taken : (front.flatMap encoded ++ [percent, 55, 100]).take 142 =
      front.flatMap encoded ++ [percent] := by
    have room : 142 = (front.flatMap encoded).length + 1 := by omega
    rw [room, List.take_length_add_append]
    rfl
  have nothing : decoded [percent] = [] := by decide
  refine ⟨front, isFront, ?_, by rw [decoded_append, nothing, List.append_nil]⟩
  rw [query_text fits, isFront, List.flatMap_append, List.flatMap_singleton, brace, taken]

/-- **Which installations the query asks for.** The encoded query is always within its buffer, and
what is sent of it is decoded to the object that names the installation, unless the installation id
has all of its 36 characters and none of them stays as it is: then the end of the object is cut
off. -/
theorem installation_query_iff (installationId : CString) (content : List Byte)
    (fits : installationId.length ≤ INSTALLATION_ID_MAX_LEN) :
    (urlEncode ⟨wanted installationId, wanted_noNul installationId⟩).length ≤ 150 ∧
      ((∃ text, (installationQuery installationId content).bytes = ascii "where=" ++ text ∧
          decoded text = wanted installationId) ↔
        installationId.length < 36 ∨ ∃ c ∈ installationId.bytes, IsShort c) ∧
      (¬ (installationId.length < 36 ∨ ∃ c ∈ installationId.bytes, IsShort c) →
        ∃ front, wanted installationId = front ++ [Byte.closeBrace] ∧
          (installationQuery installationId content).bytes =
            ascii "where=" ++ (front.flatMap encoded ++ [percent]) ∧
          decoded (front.flatMap encoded ++ [percent]) = front) := by
  have length := wanted_encoded installationId
  have atMost := encodedText_length installationId.bytes
  change installationId.bytes.length ≤ 36 at fits
  have cut (none : ¬ (installationId.length < 36 ∨ ∃ c ∈ installationId.bytes, IsShort c)) := by
    rw [not_or, Nat.not_lt] at none
    exact query_cut fits none.1 (fun c member short => none.2 ⟨c, member, short⟩) content
  refine ⟨?_, ⟨?_, fun room => ?_⟩, cut⟩
  · rw [urlEncode, List.length_append, List.length_singleton]
    change ((wanted installationId).flatMap encoded).length + 1 ≤ 150
    omega
  · rintro ⟨text, same, isWanted⟩
    by_contra none
    obtain ⟨front, isFront, isCut, isDecoded⟩ := cut none
    obtain rfl := List.append_cancel_left (same.symm.trans isCut)
    rw [isDecoded, isFront] at isWanted
    have lengths := congrArg List.length isWanted
    rw [List.length_append, List.length_singleton] at lengths
    omega
  · have fitting : ((wanted installationId).flatMap encoded).length ≤ 142 := by
      rcases room with short | ⟨c, member, short⟩
      · change installationId.bytes.length < 36 at short
        omega
      · have saved := encodedText_short member short
        omega
    refine ⟨_, query_text fits content, ?_⟩
    rw [List.take_of_length_le fitting]
    exact decoded_text (wanted installationId)

/-- An installation id as the library makes it, and one without a character that stays. -/
theorem installation_query_ids :
    (∃ text, (installationQuery (CString.literal "01234567-89ab-4cde-8f01-23456789abcd")
          (zeros 149)).bytes = ascii "where=" ++ text ∧
        decoded text = wanted (CString.literal "01234567-89ab-4cde-8f01-23456789abcd")) ∧
      ¬ ∃ text, (installationQuery (CString.literal "!!!!!!!!!!!!!!!!!!!!!!!!!!!!!!!!!!!!")
          (zeros 149)).bytes = ascii "where=" ++ text ∧
        decoded text = wanted (CString.literal "!!!!!!!!!!!!!!!!!!!!!!!!!!!!!!!!!!!!") :=
  ⟨(installation_query_iff _ (zeros 149) (by decide)).2.1.mpr
      (.inr ⟨48, by decide, by decide⟩),
    mt (installation_query_iff _ (zeros 149) (by decide)).2.1.mp
      (not_or.mpr ⟨by decide, by decide⟩)⟩

end ParseEmbedded.Rtos.Blink
