import Mathlib.Data.List.Forall2
import Mathlib.Tactic.Common

/-!
# Percent encoding

A text is encoded byte by byte: the bytes of a set stay, and every other one becomes a percent sign
with two hexadecimal digits. Where the percent sign itself is not in the set, the text can be read
back, `decode_encode`.
-/

set_option autoImplicit false

namespace ParseEmbedded.Percent

abbrev percent : UInt8 := 37

/-- A hexadecimal digit, in upper case. -/
def hexDigit (n : Nat) : UInt8 := if n < 10 then UInt8.ofNat (48 + n) else UInt8.ofNat (55 + n)

/-- The value of a hexadecimal digit, in either case. -/
def hexValue (c : UInt8) : Option Nat :=
  if 48 ≤ c ∧ c ≤ 57 then some (c.toNat - 48)
  else if 65 ≤ c ∧ c ≤ 70 then some (c.toNat - 55)
  else if 97 ≤ c ∧ c ≤ 102 then some (c.toNat - 87)
  else none

theorem hexValue_hexDigit : ∀ n < 16, hexValue (hexDigit n) = some n := by decide

theorem hexDigit_ne_zero : ∀ n < 16, hexDigit n ≠ 0 := by decide

/-- A byte as a percent sign with two digits. -/
def escape (c : UInt8) : List UInt8 :=
  [percent, hexDigit (c.toNat / 16), hexDigit (c.toNat % 16)]

/-- A byte that is read, and its text. -/
inductive Encodes (keep : UInt8 → Prop) (c : UInt8) : List UInt8 → Prop
  | same (kept : keep c) : Encodes keep c [c]
  | escaped (high low : UInt8) (highDigit : (hexValue high).isSome)
      (lowDigit : (hexValue low).isSome) : Encodes keep c [percent, high, low]

section Encode

variable (keep : UInt8 → Prop) [DecidablePred keep]

def encodeByte (c : UInt8) : List UInt8 := if keep c then [c] else escape c

def encode (text : List UInt8) : List UInt8 := text.flatMap (encodeByte keep)

/-- A percent sign is read with the two digits behind it; anything else stands for itself. -/
def decode : List UInt8 → Option (List UInt8)
  | [] => some []
  | c :: text =>
      if c = percent then
        match text with
        | high :: low :: text =>
            match hexValue high, hexValue low with
            | some h, some l => (decode text).map (UInt8.ofNat (16 * h + l) :: ·)
            | _, _ => none
        | _ => none
      else (decode text).map (c :: ·)

theorem halves_lt (c : UInt8) : c.toNat / 16 < 16 ∧ c.toNat % 16 < 16 := by
  have small : c.toNat < 256 := c.toNat_lt
  omega

theorem encodeByte_encodes (c : UInt8) : Encodes keep c (encodeByte keep c) := by
  obtain ⟨high, low⟩ := halves_lt c
  rw [encodeByte]
  split
  · exact .same ‹_›
  · refine .escaped _ _ ?_ ?_
    · rw [hexValue_hexDigit _ high]
      rfl
    · rw [hexValue_hexDigit _ low]
      rfl

/-- The encoded text is put together of a piece for each byte. -/
theorem encode_pieces (text : List UInt8) :
    List.Forall₂ (Encodes keep) text (text.map (encodeByte keep)) :=
  List.forall₂_map_right_iff.mpr (List.forall₂_same.mpr fun c _ => encodeByte_encodes keep c)

theorem encodeByte_length (c : UInt8) :
    0 < (encodeByte keep c).length ∧ (encodeByte keep c).length ≤ 3 := by
  rw [encodeByte]
  split
  · simp
  · simp [escape]

/-- **The encoded text** is at most three times as long. -/
theorem encode_length_le (text : List UInt8) : (encode keep text).length ≤ 3 * text.length := by
  induction text with
  | nil => exact Nat.le_refl 0
  | cons c text ih =>
      have short := (encodeByte_length keep c).2
      rw [encode, List.flatMap_cons, List.length_append, List.length_cons]
      rw [encode] at ih
      omega

theorem decode_escape (c : UInt8) (text : List UInt8) :
    decode (escape c ++ text) = (decode text).map (c :: ·) := by
  obtain ⟨high, low⟩ := halves_lt c
  have whole : 16 * (c.toNat / 16) + c.toNat % 16 = c.toNat := Nat.div_add_mod ..
  rw [escape, List.cons_append, List.cons_append, List.cons_append, List.nil_append, decode,
    if_pos rfl]
  simp only [hexValue_hexDigit _ high, hexValue_hexDigit _ low]
  rw [whole, UInt8.ofNat_toNat]

variable {keep}

/-- A byte that is kept is read as itself, unless it is the percent sign. -/
theorem decode_encodeByte (notKept : ¬ keep percent) (c : UInt8) (text : List UInt8) :
    decode (encodeByte keep c ++ text) = (decode text).map (c :: ·) := by
  rw [encodeByte]
  split
  · rename_i kept
    have other : c ≠ percent := fun same => notKept (same ▸ kept)
    rw [List.singleton_append, decode.eq_def]
    dsimp only
    rw [if_neg other]
  · exact decode_escape c text

/-- **What has been encoded can be read back.** -/
theorem decode_encode (notKept : ¬ keep percent) (text : List UInt8) :
    decode (encode keep text) = some text := by
  induction text with
  | nil => rfl
  | cons c text ih =>
      rw [encode] at ih
      rw [encode, List.flatMap_cons, decode_encodeByte notKept, ih, Option.map_some]

/-- Only an empty text is read as an empty one. -/
theorem eq_nil_of_decode {text : List UInt8} (read : decode text = some []) : text = [] := by
  cases text with
  | nil => rfl
  | cons c text =>
      have other : ∀ {d : UInt8} {rest : Option (List UInt8)}, rest.map (d :: ·) ≠ some [] := by
        intro d rest same
        obtain ⟨tail, -, whole⟩ := Option.map_eq_some_iff.mp same
        exact List.cons_ne_nil d tail whole
      rw [decode.eq_def] at read
      dsimp only at read
      split at read
      · split at read
        · split at read
          · exact absurd read other
          · cases read
        · cases read
      · exact absurd read other

end Encode

end ParseEmbedded.Percent
