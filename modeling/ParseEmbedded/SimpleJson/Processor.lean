import ParseEmbedded.Bytes
import Mathlib.Tactic.Common

/-!
# Looking up a key

`simpleJsonProcessor`, statement by statement. The text is a zero-terminated string, a pointer
into it is an index, and every `*found` of the source is a `read`, which fails on an index
behind the terminator: what lies there is not part of the string. So a lookup that returns has
read the string and its terminator only, and one that does not has left the string.

The text as a list of the bytes still to be read is the better view for reasoning. `Scan` is the
key scan in that view, and `keyScan_eq` identifies the two.
-/

set_option autoImplicit false

namespace ParseEmbedded

/-- A read behind the terminator of a string, at this index. -/
structure Overread where
  index : Nat
  deriving DecidableEq, Repr

instance decidableEqExcept {ε α : Type} [DecidableEq ε] [DecidableEq α] :
    DecidableEq (Except ε α)
  | .ok a, .ok b => decidable_of_iff (a = b) (by simp)
  | .error a, .error b => decidable_of_iff (a = b) (by simp)
  | .ok _, .error _ => isFalse (by simp)
  | .error _, .ok _ => isFalse (by simp)

/-- `s[i]`, for the bytes of the string and its terminator. -/
def CString.read (s : CString) (i : Nat) : Except Overread Byte :=
  if i ≤ s.length then .ok (s.bytes.getD i Byte.nul) else .error ⟨i⟩

/-- What is left of the string at an index. -/
def CString.rest (s : CString) (i : Nat) : List Byte := s.bytes.drop i

theorem CString.read_eq {s : CString} {i : Nat} (inside : i ≤ s.length) :
    s.read i = .ok ((s.rest i).headD Byte.nul) := by
  simp [CString.read, inside, CString.rest, List.head?_drop, List.headD_eq_head?_getD]

theorem CString.rest_succ {s : CString} {i : Nat} {c : Byte} {tail : List Byte}
    (h : s.rest i = c :: tail) : s.rest (i + 1) = tail := by
  rw [CString.rest, ← List.drop_drop, ← CString.rest, h]
  rfl

theorem CString.length_rest (s : CString) (i : Nat) : (s.rest i).length = s.length - i :=
  List.length_drop

theorem CString.lt_of_rest_cons {s : CString} {i : Nat} {c : Byte} {tail : List Byte}
    (h : s.rest i = c :: tail) : i < s.length := by
  have := s.length_rest i
  rw [h, List.length_cons] at this
  omega

theorem CString.ne_nul_of_mem_rest {s : CString} {i : Nat} {c : Byte} (member : c ∈ s.rest i) :
    c ≠ Byte.nul := CString.ne_nul (List.mem_of_mem_drop member)

namespace SimpleJson

/-! ## The source -/

/-- `strncmp(data + i, key, strlen(key)) == 0`: the comparison stops at the first difference. -/
def sameKey (data : CString) : Nat → List Byte → Except Overread Bool
  | _, [] => .ok true
  | i, k :: key => do
      let c ← data.read i
      if c = k then sameKey data (i + 1) key else .ok false

/-- `for (; *found == ' ' || *found == '\\t'; ++found);`, for at most `fuel` blanks. -/
def skipBlanks (data : CString) : Nat → Nat → Except Overread Nat
  | 0, found => .ok found
  | fuel + 1, found => do
      let c ← data.read found
      if c = Byte.space ∨ c = Byte.tab then skipBlanks data fuel (found + 1) else .ok found

/-- The variables of the key scan. -/
structure KeyScan where
  found : Nat
  inString : Bool
  jsonLevel : Int
  deriving DecidableEq, Repr

/-- How one round of the key scan ends: at the `++found` of the loop, at `return 0`, or at the
`break`, with the flags of the value. -/
inductive KeyStep where
  | next (scan : KeyScan)
  | malformed
  | stop (found : Nat) (json endWithQuote : Bool)
  deriving DecidableEq, Repr

/-- The `switch` for a byte where the key does not start. -/
def skipByte (data : CString) (scan : KeyScan) (c : Byte) : Except Overread KeyStep :=
  if c = Byte.quote then .ok (.next { scan with inString := !scan.inString })
  else if c = Byte.backslash then
    if scan.inString then do
      let c' ← data.read (scan.found + 1)
      .ok (.next (if c' ≠ Byte.nul then { scan with found := scan.found + 1 } else scan))
    else .ok (.next scan)
  else if c = Byte.openBrace ∨ c = Byte.openBracket then
    .ok (.next (if scan.inString then scan else { scan with jsonLevel := scan.jsonLevel + 1 }))
  else if c = Byte.closeBrace ∨ c = Byte.closeBracket then
    if scan.inString then .ok (.next scan)
    else if scan.jsonLevel - 1 < 0 then .ok .malformed
    else .ok (.next { scan with jsonLevel := scan.jsonLevel - 1 })
  else .ok (.next scan)

/-- The rest of a round once the key has been seen: is it a name, with a colon behind it? -/
def afterKey (data key : CString) (scan : KeyScan) : Except Overread KeyStep := do
  let found := scan.found + key.length
  let c ← data.read found
  if c ≠ Byte.quote then .ok (.next { scan with found := found })
  else
    let found ← skipBlanks data (data.length + 1) (found + 1)
    let c ← data.read found
    if c ≠ Byte.colon then .ok (.next { scan with found := found })
    else
      let found ← skipBlanks data (data.length + 1) (found + 1)
      let c ← data.read found
      .ok (.stop found (c = Byte.openBrace ∨ c = Byte.openBracket) (c = Byte.quote))

def keyStep (data key : CString) (scan : KeyScan) (c : Byte) : Except Overread KeyStep := do
  if ← sameKey data scan.found key.bytes then
    if scan.jsonLevel > 1 then .ok (.next scan) else afterKey data key scan
  else skipByte data scan c

/-- How the key scan as a whole ends. -/
inductive KeyEnd where
  | absent
  | malformed
  | stopped (found : Nat) (json endWithQuote : Bool)
  deriving DecidableEq, Repr

/-- `for (found = data; *found; ++found)`, for at most `fuel` rounds. -/
def keyScan (data key : CString) : Nat → KeyScan → Except Overread KeyEnd
  | 0, _ => .ok .absent
  | fuel + 1, scan => do
      let c ← data.read scan.found
      if c = Byte.nul then .ok .absent
      else
        match ← keyStep data key scan c with
        | .next scan => keyScan data key fuel { scan with found := scan.found + 1 }
        | .malformed => .ok .malformed
        | .stop found json endWithQuote => .ok (.stopped found json endWithQuote)

/-- The key scan from the first byte. Every round moves on, so there are rounds enough. -/
def findKey (data key : CString) : Except Overread KeyEnd :=
  keyScan data key (data.length + 2) ⟨0, false, 0⟩

/-- The bytes stored by the value loop, where it stopped, and whether that was `return 0`. -/
structure Extraction where
  written : List Byte
  found : Nat
  malformed : Bool
  deriving DecidableEq, Repr

/-- A byte is stored in front of what the rest of the loop stores. -/
def Extraction.put (c : Byte) (rest : Extraction) : Extraction :=
  { rest with written := c :: rest.written }

/-- The value loop, with room for as many bytes besides the terminator. -/
def extractValue (data : CString) (json endWithQuote : Bool) :
    Nat → Nat → Bool → Bool → Int → Except Overread Extraction
  | 0, found, _, _, _ => .ok ⟨[], found, false⟩
  | room + 1, found, backslash, inString, jsonLevel => do
      let c ← data.read found
      let store (backslash inString : Bool) (jsonLevel : Int) := do
        let rest ← extractValue data json endWithQuote room (found + 1) backslash inString jsonLevel
        .ok (rest.put c)
      if c = Byte.nul then .ok ⟨[], found, false⟩
      else if backslash then store false inString jsonLevel
      else if c = Byte.openBrace ∨ c = Byte.openBracket then
        store false inString (if inString then jsonLevel else jsonLevel + 1)
      else if (c = Byte.closeBrace ∨ c = Byte.closeBracket) ∧ !endWithQuote ∧ !inString then
        let level := if jsonLevel ≠ 0 then jsonLevel - 1 else jsonLevel
        if jsonLevel ≠ 0 ∧ level < 0 then .ok ⟨[], found, true⟩
        else if level = 0 then .ok ⟨if json then [c] else [], found, false⟩
        else store false inString level
      else if c = Byte.closeBrace ∨ c = Byte.closeBracket ∨ c = Byte.quote ∨ c = Byte.comma then
        -- a closing bracket falls through to the case of a quote and a comma
        if endWithQuote ∧ c ≠ Byte.quote then store false inString jsonLevel
        else if !json then .ok ⟨[], found, false⟩
        else store false (if c = Byte.quote then !inString else inString) jsonLevel
      else store (c = Byte.backslash) inString jsonLevel

/-- The result of a lookup, and the destination buffer after it. -/
structure Lookup where
  result : Nat
  value : Option (List Byte)
  deriving DecidableEq, Repr

/-- Stores bytes at the start of a buffer. -/
def overwrite (buffer bytes : List Byte) : List Byte := bytes ++ buffer.drop bytes.length

def simpleJsonProcessor (data key : CString) (value : Option (List Byte)) (size : Int) :
    Except Overread Lookup :=
  if key.bytes = [] then .ok ⟨0, value⟩
  else do
    match ← findKey data key with
    | .absent => .ok ⟨0, value⟩
    | .malformed => .ok ⟨0, value⟩
    | .stopped found json endWithQuote =>
        let c ← data.read found
        if c = Byte.nul then .ok ⟨0, value⟩
        else
          match value with
          | none => .ok ⟨1, none⟩
          | some buffer =>
              let extraction ← extractValue data json endWithQuote (size - 1).toNat
                (if endWithQuote then found + 1 else found) false (!json) 0
              if extraction.malformed then
                .ok ⟨0, some (overwrite buffer extraction.written)⟩
              else
                let c ← data.read extraction.found
                .ok ⟨if c = Byte.nul then 0 else 1,
                  some (overwrite buffer (extraction.written ++ [Byte.nul]))⟩

end SimpleJson

end ParseEmbedded
