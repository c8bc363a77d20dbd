import Mathlib.Data.List.TakeWhile

/-!
# Bytes and zero-terminated strings

The characters the scanners of the SDK look at, and the two ways C code looks at memory: a
block of bytes of a known extent, and a string that ends at its first zero byte. A `CString`
holds the bytes before the terminator, so its length is the `strlen` of the string and the
index of the terminator is the largest one a reader may touch.
-/

set_option autoImplicit false

namespace ParseEmbedded

/-- A C `char`, as the eight bits stored in memory. -/
abbrev Byte := UInt8

namespace Byte

abbrev nul : Byte := 0
abbrev tab : Byte := 9
abbrev lineFeed : Byte := 10
abbrev carriageReturn : Byte := 13
abbrev space : Byte := 32
abbrev quote : Byte := 34
abbrev comma : Byte := 44
abbrev slash : Byte := 47
abbrev colon : Byte := 58
abbrev openBracket : Byte := 91
abbrev backslash : Byte := 92
abbrev closeBracket : Byte := 93
abbrev openBrace : Byte := 123
abbrev closeBrace : Byte := 125

end Byte

/-- The bytes of a string literal of the source, whose characters are all ASCII. -/
def ascii (s : String) : List Byte := s.toList.map Char.toUInt8

/-- `snprintf` into a buffer of this size: what it leaves in front of the zero. -/
def snprintf (size : Nat) (text : List Byte) : List Byte := text.take (size - 1)

/-- `strncat`: at most `count` bytes of the source are appended. -/
def strncat (destination source : List Byte) (count : Nat) : List Byte :=
  destination ++ source.take count

/-- A zero-terminated string: the bytes before the terminator. -/
structure CString where
  bytes : List Byte
  noNul : Byte.nul ∉ bytes
  deriving DecidableEq

namespace CString

/-- The string that starts at the first byte of a block of memory and ends at the first zero. -/
def ofMemory (memory : List Byte) : CString where
  bytes := memory.takeWhile (· ≠ Byte.nul)
  noNul := fun member => by simpa using List.mem_takeWhile_imp member

/-- A string literal of the source. -/
def literal (s : String) : CString := ofMemory (ascii s)

/-- `strlen`: the index of the terminator. -/
def length (s : CString) : Nat := s.bytes.length

theorem ne_nul {s : CString} {b : Byte} (member : b ∈ s.bytes) : b ≠ Byte.nul := by
  rintro rfl
  exact s.noNul member

theorem ext_bytes {s t : CString} (same : s.bytes = t.bytes) : s = t := by
  cases s
  cases t
  congr

/-- Memory without a zero byte is a string as a whole. -/
theorem ofMemory_bytes {memory : List Byte} (noNul : Byte.nul ∉ memory) :
    (ofMemory memory).bytes = memory := by
  refine List.takeWhile_eq_self_iff.mpr fun b member => ?_
  simpa using fun h : b = Byte.nul => noNul (h ▸ member)

/-- A string followed by a zero byte is found again at its first byte. -/
theorem ofMemory_append_nul {text : List Byte} (noNul : Byte.nul ∉ text) (rest : List Byte) :
    (ofMemory (text ++ Byte.nul :: rest)).bytes = text := by
  have kept : ∀ b ∈ text, decide (b ≠ Byte.nul) = true := fun b member => by
    simpa using fun h : b = Byte.nul => noNul (h ▸ member)
  simp only [ofMemory]
  rw [List.takeWhile_append_of_pos kept]
  simp

/-- A text without a zero byte goes on with the string behind it. -/
theorem ofMemory_append {text : List Byte} (noNul : Byte.nul ∉ text) (rest : List Byte) :
    (ofMemory (text ++ rest)).bytes = text ++ (ofMemory rest).bytes := by
  have kept : ∀ b ∈ text, decide (b ≠ Byte.nul) = true := fun b member => by
    simpa using fun h : b = Byte.nul => noNul (h ▸ member)
  exact List.takeWhile_append_of_pos kept

/-- One string followed by another. -/
def append (s t : CString) : CString where
  bytes := s.bytes ++ t.bytes
  noNul := fun member => (List.mem_append.mp member).elim s.noNul t.noNul

end CString

end ParseEmbedded
