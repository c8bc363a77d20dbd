import ParseEmbedded.Json.Nesting

/-!
# Finding a message in a block of bytes

The scanners of `simplejson.c` that look for the braces of a JSON object: the two that carry
their state through pointer parameters, and the three entry points built on them. A pointer is
the block of memory from the address on, and what lies past the modelled block reads as zero.
Positions are natural numbers: the blocks of the callers hold at most 2048 bytes, far below the
range of an `int`.

`getPushJson_outcome` says what `getPushJson` can return for arbitrary bytes, and
`getPushJson_append` that its two results depend on the first `dataSize` bytes only, although
the scanners read past them.
-/

set_option autoImplicit false

namespace ParseEmbedded.SimpleJson

open Json

/-! ## The scanners -/

/-- The returned pointer, and the values of the in-out parameters on return. -/
structure BeginningScan where
  found : Option (List Byte)
  inString : Bool
  pos : Nat
  deriving DecidableEq, Repr

def findJsonBeginningParams : List Byte → Nat → Bool → Nat → BeginningScan
  | [], _, inString, pos => ⟨none, inString, pos⟩
  | c :: data, size, inString, pos =>
      if c = Byte.nul ∨ size ≤ pos then ⟨none, inString, pos⟩
      else if c = Byte.openBrace then
        if inString then findJsonBeginningParams data size inString (pos + 1)
        else ⟨some (c :: data), inString, pos⟩
      else if c = Byte.quote then findJsonBeginningParams data size (!inString) (pos + 1)
      else if c = Byte.backslash then
        match data with
        | next :: rest =>
            if inString ∧ next ≠ Byte.nul then
              findJsonBeginningParams rest size inString (pos + 2)
            else findJsonBeginningParams (next :: rest) size inString (pos + 1)
        | [] => ⟨none, inString, pos + 1⟩
      else findJsonBeginningParams data size inString (pos + 1)

structure EndScan where
  found : Option (List Byte)
  inString : Bool
  level : Int
  pos : Nat
  deriving DecidableEq, Repr

def findJsonEndParams : List Byte → Nat → Bool → Int → Nat → EndScan
  | [], _, inString, level, pos => ⟨none, inString, level, pos⟩
  | c :: data, size, inString, level, pos =>
      if c = Byte.nul ∨ size ≤ pos then ⟨none, inString, level, pos⟩
      else if c = Byte.openBrace then
        findJsonEndParams data size inString (if inString then level else level + 1) (pos + 1)
      else if c = Byte.closeBrace then
        let level' := if inString then level else level - 1
        -- the level is tested inside strings too
        if level' = 0 then ⟨some data, inString, level', pos⟩
        else findJsonEndParams data size inString level' (pos + 1)
      else if c = Byte.quote then findJsonEndParams data size (!inString) level (pos + 1)
      else if c = Byte.backslash then
        match data with
        | next :: rest =>
            if inString ∧ next ≠ Byte.nul then
              findJsonEndParams rest size inString level (pos + 2)
            else findJsonEndParams (next :: rest) size inString level (pos + 1)
        | [] => ⟨none, inString, level, pos + 1⟩
      else findJsonEndParams data size inString level (pos + 1)

/-- `findJsonBeginning` on the rest of a zero-terminated string. -/
def findJsonBeginning (data : List Byte) : Option (List Byte) :=
  (findJsonBeginningParams data data.length false 0).found

/-- `findJsonEnd` on the rest of a zero-terminated string. -/
def findJsonEnd (data : List Byte) : Option (List Byte) :=
  (findJsonEndParams data data.length false 0 0).found

def findSecondJson (data : List Byte) : Option (List Byte) := do
  let data ← findJsonBeginning data
  let data ← findJsonEnd data
  findJsonBeginning data

def isCompleteJson (data : List Byte) : Nat :=
  match findJsonBeginning data with
  | none => 0
  | some data => if (findJsonEnd data).isSome then 1 else 0

/-- The returned pointer of `getPushJson` and its two output parameters. -/
structure PushJson where
  json : Option (List Byte)
  start : Int
  length : Int
  deriving DecidableEq, Repr

def getPushJson (data : List Byte) (dataSize : Nat) : PushJson :=
  let beginning := findJsonBeginningParams data dataSize false 0
  match beginning.found with
  | none => ⟨none, -1, -1⟩
  | some _ =>
      let pos := beginning.pos
      let ending := findJsonEndParams (data.drop pos) (dataSize - pos) false 0 0
      { json := some (data.drop pos)
        start := pos
        length := if ending.found.isSome then ending.pos + 1 else -1 }

/-! ## One step of each scanner -/

section Steps

variable {c : Byte} {data : List Byte} {size : Nat} {inString : Bool} {level : Int} {pos : Nat}

theorem findJsonBeginning_nil :
    findJsonBeginningParams [] size inString pos = ⟨none, inString, pos⟩ := rfl

theorem findJsonBeginning_cons :
    findJsonBeginningParams (c :: data) size inString pos =
      if c = Byte.nul ∨ size ≤ pos then ⟨none, inString, pos⟩
      else if c = Byte.openBrace then
        if inString then findJsonBeginningParams data size inString (pos + 1)
        else ⟨some (c :: data), inString, pos⟩
      else if c = Byte.quote then findJsonBeginningParams data size (!inString) (pos + 1)
      else if c = Byte.backslash then
        match data with
        | next :: rest =>
            if inString ∧ next ≠ Byte.nul then
              findJsonBeginningParams rest size inString (pos + 2)
            else findJsonBeginningParams (next :: rest) size inString (pos + 1)
        | [] => ⟨none, inString, pos + 1⟩
      else findJsonBeginningParams data size inString (pos + 1) :=
  findJsonBeginningParams.eq_def ..

theorem findJsonBeginning_stop (h : c = Byte.nul ∨ size ≤ pos) :
    findJsonBeginningParams (c :: data) size inString pos = ⟨none, inString, pos⟩ := by
  rw [findJsonBeginning_cons]
  exact if_pos h

theorem findJsonBeginning_openBrace (within : pos < size) :
    findJsonBeginningParams (Byte.openBrace :: data) size inString pos =
      if inString then findJsonBeginningParams data size inString (pos + 1)
      else ⟨some (Byte.openBrace :: data), inString, pos⟩ := by
  have more : ¬ size ≤ pos := by omega
  rw [findJsonBeginning_cons]
  simp +decide [more]

theorem findJsonBeginning_quote (within : pos < size) :
    findJsonBeginningParams (Byte.quote :: data) size inString pos =
      findJsonBeginningParams data size (!inString) (pos + 1) := by
  have more : ¬ size ≤ pos := by omega
  rw [findJsonBeginning_cons]
  simp +decide [more]

theorem findJsonBeginning_escape {next : Byte} (within : pos < size)
    (notNul : next ≠ Byte.nul) :
    findJsonBeginningParams (Byte.backslash :: next :: data) size true pos =
      findJsonBeginningParams data size true (pos + 2) := by
  have more : ¬ size ≤ pos := by omega
  rw [findJsonBeginning_cons]
  simp +decide [more, notNul]

/-- A byte the scanner for the beginning passes over. -/
theorem findJsonBeginning_pass (notNul : c ≠ Byte.nul) (within : pos < size)
    (notBrace : c ≠ Byte.openBrace) (notQuote : c ≠ Byte.quote)
    (notEscape : c = Byte.backslash → inString = false ∨ data.headD Byte.nul = Byte.nul) :
    findJsonBeginningParams (c :: data) size inString pos =
      findJsonBeginningParams data size inString (pos + 1) := by
  have more : ¬ size ≤ pos := by omega
  rw [findJsonBeginning_cons]
  by_cases h : c = Byte.backslash
  · subst h
    cases data with
    | nil => simp +decide [more, findJsonBeginning_nil]
    | cons next rest =>
        rcases notEscape rfl with outside | ended
        · simp +decide [more, outside]
        · have ended : next = Byte.nul := ended
          simp +decide [more, ended]
  · simp [notNul, more, notBrace, notQuote, h]

theorem findJsonEnd_nil :
    findJsonEndParams [] size inString level pos = ⟨none, inString, level, pos⟩ := rfl

theorem findJsonEnd_cons :
    findJsonEndParams (c :: data) size inString level pos =
      if c = Byte.nul ∨ size ≤ pos then ⟨none, inString, level, pos⟩
      else if c = Byte.openBrace then
        findJsonEndParams data size inString (if inString then level else level + 1) (pos + 1)
      else if c = Byte.closeBrace then
        if (if inString then level else level - 1) = 0 then
          ⟨some data, inString, if inString then level else level - 1, pos⟩
        else
          findJsonEndParams data size inString (if inString then level else level - 1) (pos + 1)
      else if c = Byte.quote then findJsonEndParams data size (!inString) level (pos + 1)
      else if c = Byte.backslash then
        match data with
        | next :: rest =>
            if inString ∧ next ≠ Byte.nul then
              findJsonEndParams rest size inString level (pos + 2)
            else findJsonEndParams (next :: rest) size inString level (pos + 1)
        | [] => ⟨none, inString, level, pos + 1⟩
      else findJsonEndParams data size inString level (pos + 1) :=
  findJsonEndParams.eq_def ..

theorem findJsonEnd_stop (h : c = Byte.nul ∨ size ≤ pos) :
    findJsonEndParams (c :: data) size inString level pos = ⟨none, inString, level, pos⟩ := by
  rw [findJsonEnd_cons]
  exact if_pos h

theorem findJsonEnd_openBrace (within : pos < size) :
    findJsonEndParams (Byte.openBrace :: data) size inString level pos =
      findJsonEndParams data size inString (if inString then level else level + 1) (pos + 1) := by
  have more : ¬ size ≤ pos := by omega
  rw [findJsonEnd_cons]
  simp +decide [more]

theorem findJsonEnd_closeBrace (within : pos < size) :
    findJsonEndParams (Byte.closeBrace :: data) size inString level pos =
      if (if inString then level else level - 1) = 0 then
        ⟨some data, inString, if inString then level else level - 1, pos⟩
      else
        findJsonEndParams data size inString (if inString then level else level - 1)
          (pos + 1) := by
  have more : ¬ size ≤ pos := by omega
  rw [findJsonEnd_cons]
  simp +decide [more]

theorem findJsonEnd_quote (within : pos < size) :
    findJsonEndParams (Byte.quote :: data) size inString level pos =
      findJsonEndParams data size (!inString) level (pos + 1) := by
  have more : ¬ size ≤ pos := by omega
  rw [findJsonEnd_cons]
  simp +decide [more]

theorem findJsonEnd_escape {next : Byte} (within : pos < size) (notNul : next ≠ Byte.nul) :
    findJsonEndParams (Byte.backslash :: next :: data) size true level pos =
      findJsonEndParams data size true level (pos + 2) := by
  have more : ¬ size ≤ pos := by omega
  rw [findJsonEnd_cons]
  simp +decide [more, notNul]

/-- A byte the scanner for the end passes over. -/
theorem findJsonEnd_pass (notNul : c ≠ Byte.nul) (within : pos < size)
    (notOpen : c ≠ Byte.openBrace) (notClose : c ≠ Byte.closeBrace) (notQuote : c ≠ Byte.quote)
    (notEscape : c = Byte.backslash → inString = false ∨ data.headD Byte.nul = Byte.nul) :
    findJsonEndParams (c :: data) size inString level pos =
      findJsonEndParams data size inString level (pos + 1) := by
  have more : ¬ size ≤ pos := by omega
  rw [findJsonEnd_cons]
  by_cases h : c = Byte.backslash
  · subst h
    cases data with
    | nil => simp +decide [more, findJsonEnd_nil]
    | cons next rest =>
        rcases notEscape rfl with outside | ended
        · simp +decide [more, outside]
        · have ended : next = Byte.nul := ended
          simp +decide [more, ended]
  · simp [notNul, more, notOpen, notClose, notQuote, h]

end Steps

/-! ## Where the scanners stop -/

/-- A scan that started at position `pos` passed over nonzero bytes and stands on `rest`, at a
position `last` inside the block. -/
def Arrives (size : Nat) (data : List Byte) (pos : Nat) (rest : List Byte) (last : Nat) : Prop :=
  ∃ passed, data = passed ++ rest ∧ last = pos + passed.length ∧ last < size ∧
    Byte.nul ∉ passed

theorem Arrives.here {size : Nat} {rest : List Byte} {pos : Nat} (within : pos < size) :
    Arrives size rest pos rest pos :=
  ⟨[], rfl, rfl, within, List.not_mem_nil⟩

theorem Arrives.cons {size : Nat} {data : List Byte} {pos : Nat} {rest : List Byte} {last : Nat}
    {c : Byte} (notNul : c ≠ Byte.nul) (arrives : Arrives size data (pos + 1) rest last) :
    Arrives size (c :: data) pos rest last := by
  obtain ⟨passed, rfl, rfl, within, noNul⟩ := arrives
  refine ⟨c :: passed, rfl, ?_, within, ?_⟩
  · rw [List.length_cons]
    omega
  · exact List.not_mem_cons_of_ne_of_not_mem (Ne.symm notNul) noNul

theorem findJsonBeginning_arrives {data : List Byte} {size : Nat} {inString : Bool} {pos : Nat}
    {beginning : List Byte}
    (h : (findJsonBeginningParams data size inString pos).found = some beginning) :
    (∃ rest, beginning = Byte.openBrace :: rest) ∧
      Arrives size data pos beginning (findJsonBeginningParams data size inString pos).pos := by
  fun_induction findJsonBeginningParams data size inString pos with
  | case1 => cases h
  | case2 => cases h
  | case3 data size pos more ih =>
      exact ⟨(ih h).1, (ih h).2.cons (by decide)⟩
  | case4 data size inString pos outside more =>
      cases h
      exact ⟨⟨data, rfl⟩, .here (by omega)⟩
  | case5 data size inString pos more notBrace ih =>
      exact ⟨(ih h).1, (ih h).2.cons (by decide)⟩
  | case6 size inString pos next rest escaped more notBrace notQuote ih =>
      exact ⟨(ih h).1, ((ih h).2.cons escaped.2).cons (by decide)⟩
  | case7 size inString pos next rest escaped more notBrace notQuote ih =>
      exact ⟨(ih h).1, (ih h).2.cons (by decide)⟩
  | case8 => cases h
  | case9 c data size inString pos more notBrace notQuote notEscape ih =>
      exact ⟨(ih h).1, (ih h).2.cons fun nul => more (.inl nul)⟩

theorem findJsonEnd_arrives {data : List Byte} {size : Nat} {inString : Bool} {level : Int}
    {pos : Nat} {rest : List Byte}
    (h : (findJsonEndParams data size inString level pos).found = some rest) :
    Arrives size data pos (Byte.closeBrace :: rest)
      (findJsonEndParams data size inString level pos).pos := by
  fun_induction findJsonEndParams data size inString level pos with
  | case1 => cases h
  | case2 => cases h
  | case3 data size inString level pos more ih => exact (ih h).cons (by decide)
  | case4 data size inString level pos level' zero more notOpen =>
      cases h
      exact .here (by omega)
  | case5 data size inString level pos level' notZero more notOpen ih =>
      exact (ih h).cons (by decide)
  | case6 data size inString level pos more notOpen notClose ih => exact (ih h).cons (by decide)
  | case7 size inString level pos next rest escaped more notOpen notClose notQuote ih =>
      exact ((ih h).cons escaped.2).cons (by decide)
  | case8 size inString level pos next rest escaped more notOpen notClose notQuote ih =>
      exact (ih h).cons (by decide)
  | case9 => cases h
  | case10 c data size inString level pos more notOpen notClose notQuote notEscape ih =>
      exact (ih h).cons fun nul => more (.inl nul)

/-! ## What lies past the block -/

/-- Where the scan found what it looks for. -/
def BeginningScan.stop (scan : BeginningScan) : Option Nat := scan.found.map fun _ => scan.pos

def EndScan.stop (scan : EndScan) : Option Nat := scan.found.map fun _ => scan.pos

theorem findJsonBeginning_exhausted (data : List Byte) {size pos : Nat} (inString : Bool)
    (ended : size ≤ pos) : (findJsonBeginningParams data size inString pos).stop = none := by
  cases data with
  | nil => rfl
  | cons c data =>
      rw [findJsonBeginning_stop (.inr ended)]
      rfl

theorem findJsonEnd_exhausted (data : List Byte) {size pos : Nat} (inString : Bool) (level : Int)
    (ended : size ≤ pos) : (findJsonEndParams data size inString level pos).stop = none := by
  cases data with
  | nil => rfl
  | cons c data =>
      rw [findJsonEnd_stop (.inr ended)]
      rfl

theorem findJsonBeginning_append (data beyond : List Byte) (inString : Bool) (pos size : Nat)
    (fits : size = pos + data.length) :
    (findJsonBeginningParams (data ++ beyond) size inString pos).stop =
      (findJsonBeginningParams data size inString pos).stop := by
  fun_induction findJsonBeginningParams data size inString pos with
  | case1 size inString pos =>
      exact findJsonBeginning_exhausted beyond inString (by simp [fits])
  | case2 c data size inString pos stop =>
      rw [List.cons_append, findJsonBeginning_stop stop]
  | case3 data size pos more ih =>
      rw [List.cons_append, findJsonBeginning_openBrace (by omega), if_pos rfl]
      exact ih (by simp at fits; omega)
  | case4 data size inString pos outside more =>
      rw [List.cons_append, findJsonBeginning_openBrace (by omega), if_neg outside]
      rfl
  | case5 data size inString pos more notBrace ih =>
      rw [List.cons_append, findJsonBeginning_quote (by omega)]
      exact ih (by simp at fits; omega)
  | case6 size inString pos next rest escaped more notBrace notQuote ih =>
      rw [escaped.1] at ih ⊢
      rw [List.cons_append, List.cons_append, findJsonBeginning_escape (by omega) escaped.2]
      exact ih (by simp at fits; omega)
  | case7 size inString pos next rest escaped more notBrace notQuote ih =>
      rw [List.cons_append, findJsonBeginning_pass (by decide) (by omega) (by decide) (by decide)]
      · exact ih (by simp at fits ⊢; omega)
      · intro _
        rw [List.cons_append, List.headD_cons]
        grind
  | case8 size inString pos more notBrace notQuote =>
      -- the backslash is the last byte of the block: the peek past it changes nothing
      have last : size = pos + 1 := by simpa using fits
      by_cases peek : inString = true ∧ beyond.headD Byte.nul ≠ Byte.nul
      · obtain ⟨rfl, notNul⟩ := peek
        cases beyond with
        | nil => exact absurd rfl notNul
        | cons next rest =>
            have notNul : next ≠ Byte.nul := notNul
            rw [List.cons_append, List.nil_append, findJsonBeginning_escape (by omega) notNul,
              findJsonBeginning_exhausted _ _ (by omega)]
            rfl
      · rw [List.cons_append, List.nil_append, findJsonBeginning_pass (by decide) (by omega)
          (by decide) (by decide) (by grind), findJsonBeginning_exhausted _ _ (by omega)]
        rfl
  | case9 c data size inString pos more notBrace notQuote notEscape ih =>
      rw [List.cons_append, findJsonBeginning_pass (by grind) (by omega) notBrace notQuote
        (fun same => absurd same notEscape)]
      exact ih (by simp at fits; omega)

theorem findJsonBeginning_stop_ge {data : List Byte} {size : Nat} {inString : Bool} {pos p : Nat}
    (h : (findJsonBeginningParams data size inString pos).stop = some p) : pos ≤ p := by
  obtain ⟨beginning, found, rfl⟩ := Option.map_eq_some_iff.mp h
  obtain ⟨-, passed, -, last, -⟩ := findJsonBeginning_arrives found
  omega

/-- A beginning is found in a smaller block too, if it lies there. -/
theorem findJsonBeginning_shrink {data : List Byte} {size small : Nat} {inString : Bool}
    {pos p : Nat} (inside : p < small)
    (h : (findJsonBeginningParams data size inString pos).stop = some p) :
    (findJsonBeginningParams data small inString pos).stop = some p := by
  have reach := findJsonBeginning_stop_ge h
  fun_induction findJsonBeginningParams data size inString pos with
  | case1 => cases h
  | case2 => cases h
  | case3 data size pos more ih =>
      rw [findJsonBeginning_openBrace (by omega), if_pos rfl]
      exact ih h (findJsonBeginning_stop_ge h)
  | case4 data size inString pos outside more =>
      rw [findJsonBeginning_openBrace (by omega), if_neg outside]
      exact h
  | case5 data size inString pos more notBrace ih =>
      rw [findJsonBeginning_quote (by omega)]
      exact ih h (findJsonBeginning_stop_ge h)
  | case6 size inString pos next rest escaped more notBrace notQuote ih =>
      rw [escaped.1] at h ih ⊢
      rw [findJsonBeginning_escape (by omega) escaped.2]
      exact ih h (findJsonBeginning_stop_ge h)
  | case7 size inString pos next rest escaped more notBrace notQuote ih =>
      rw [findJsonBeginning_pass (by decide) (by omega) (by decide) (by decide) (by grind)]
      exact ih h (findJsonBeginning_stop_ge h)
  | case8 => cases h
  | case9 c data size inString pos more notBrace notQuote notEscape ih =>
      rw [findJsonBeginning_pass (by grind) (by omega) notBrace notQuote
        (fun same => absurd same notEscape)]
      exact ih h (findJsonBeginning_stop_ge h)

theorem findJsonEnd_append (data beyond : List Byte) (inString : Bool) (level : Int)
    (pos size : Nat) (fits : size = pos + data.length) :
    (findJsonEndParams (data ++ beyond) size inString level pos).stop =
      (findJsonEndParams data size inString level pos).stop := by
  fun_induction findJsonEndParams data size inString level pos with
  | case1 size inString level pos =>
      exact findJsonEnd_exhausted beyond inString level (by simp [fits])
  | case2 c data size inString level pos stop =>
      rw [List.cons_append, findJsonEnd_stop stop]
  | case3 data size inString level pos more ih =>
      rw [List.cons_append, findJsonEnd_openBrace (by omega)]
      exact ih (by simp at fits; omega)
  | case4 data size inString level pos level' zero more notOpen =>
      rw [List.cons_append, findJsonEnd_closeBrace (by omega), if_pos zero]
      rfl
  | case5 data size inString level pos level' notZero more notOpen ih =>
      rw [List.cons_append, findJsonEnd_closeBrace (by omega), if_neg notZero]
      exact ih (by simp at fits; omega)
  | case6 data size inString level pos more notOpen notClose ih =>
      rw [List.cons_append, findJsonEnd_quote (by omega)]
      exact ih (by simp at fits; omega)
  | case7 size inString level pos next rest escaped more notOpen notClose notQuote ih =>
      rw [escaped.1] at ih ⊢
      rw [List.cons_append, List.cons_append, findJsonEnd_escape (by omega) escaped.2]
      exact ih (by simp at fits; omega)
  | case8 size inString level pos next rest escaped more notOpen notClose notQuote ih =>
      rw [List.cons_append, findJsonEnd_pass (by decide) (by omega) (by decide) (by decide)
        (by decide)]
      · exact ih (by simp at fits ⊢; omega)
      · intro _
        rw [List.cons_append, List.headD_cons]
        grind
  | case9 size inString level pos more notOpen notClose notQuote =>
      have last : size = pos + 1 := by simpa using fits
      by_cases peek : inString = true ∧ beyond.headD Byte.nul ≠ Byte.nul
      · obtain ⟨rfl, notNul⟩ := peek
        cases beyond with
        | nil => exact absurd rfl notNul
        | cons next rest =>
            have notNul : next ≠ Byte.nul := notNul
            rw [List.cons_append, List.nil_append, findJsonEnd_escape (by omega) notNul,
              findJsonEnd_exhausted _ _ _ (by omega)]
            rfl
      · rw [List.cons_append, List.nil_append, findJsonEnd_pass (by decide) (by omega)
          (by decide) (by decide) (by decide) (by grind), findJsonEnd_exhausted _ _ _ (by omega)]
        rfl
  | case10 c data size inString level pos more notOpen notClose notQuote notEscape ih =>
      rw [List.cons_append, findJsonEnd_pass (by grind) (by omega) notOpen notClose notQuote
        (fun same => absurd same notEscape)]
      exact ih (by simp at fits; omega)

theorem findJsonEnd_stop_ge {data : List Byte} {size : Nat} {inString : Bool} {level : Int}
    {pos p : Nat} (h : (findJsonEndParams data size inString level pos).stop = some p) :
    pos ≤ p := by
  obtain ⟨rest, found, rfl⟩ := Option.map_eq_some_iff.mp h
  obtain ⟨passed, -, last, -⟩ := findJsonEnd_arrives found
  omega

/-- An end is found in every block that it lies in. -/
theorem findJsonEnd_resize {data : List Byte} {size other : Nat} {inString : Bool} {level : Int}
    {pos p : Nat} (inside : p < other)
    (h : (findJsonEndParams data size inString level pos).stop = some p) :
    (findJsonEndParams data other inString level pos).stop = some p := by
  have reach := findJsonEnd_stop_ge h
  fun_induction findJsonEndParams data size inString level pos with
  | case1 => cases h
  | case2 => cases h
  | case3 data size inString level pos more ih =>
      rw [findJsonEnd_openBrace (by omega)]
      exact ih h (findJsonEnd_stop_ge h)
  | case4 data size inString level pos level' zero more notOpen =>
      rw [findJsonEnd_closeBrace (by omega), if_pos zero]
      exact h
  | case5 data size inString level pos level' notZero more notOpen ih =>
      rw [findJsonEnd_closeBrace (by omega), if_neg notZero]
      exact ih h (findJsonEnd_stop_ge h)
  | case6 data size inString level pos more notOpen notClose ih =>
      rw [findJsonEnd_quote (by omega)]
      exact ih h (findJsonEnd_stop_ge h)
  | case7 size inString level pos next rest escaped more notOpen notClose notQuote ih =>
      rw [escaped.1] at h ih ⊢
      rw [findJsonEnd_escape (by omega) escaped.2]
      exact ih h (findJsonEnd_stop_ge h)
  | case8 size inString level pos next rest escaped more notOpen notClose notQuote ih =>
      rw [findJsonEnd_pass (by decide) (by omega) (by decide) (by decide) (by decide) (by grind)]
      exact ih h (findJsonEnd_stop_ge h)
  | case9 => cases h
  | case10 c data size inString level pos more notOpen notClose notQuote notEscape ih =>
      rw [findJsonEnd_pass (by grind) (by omega) notOpen notClose notQuote
        (fun same => absurd same notEscape)]
      exact ih h (findJsonEnd_stop_ge h)

/-! ## What `getPushJson` returns -/

/-- The results of `getPushJson`, from where its two scanners stop. -/
theorem getPushJson_eq (data : List Byte) (dataSize : Nat) :
    getPushJson data dataSize =
      match (findJsonBeginningParams data dataSize false 0).stop with
      | none => ⟨none, -1, -1⟩
      | some pos =>
          ⟨some (data.drop pos), pos,
            match (findJsonEndParams (data.drop pos) (dataSize - pos) false 0 0).stop with
            | none => -1
            | some last => last + 1⟩ := by
  cases hb : (findJsonBeginningParams data dataSize false 0).found with
  | none => simp [getPushJson, BeginningScan.stop, hb]
  | some beginning =>
      simp only [getPushJson, BeginningScan.stop, EndScan.stop, hb, Option.map_some]
      cases (findJsonEndParams (data.drop
        (findJsonBeginningParams data dataSize false 0).pos) (dataSize -
          (findJsonBeginningParams data dataSize false 0).pos) false 0 0).found <;> rfl

theorem findJsonBeginning_stop_lt {data : List Byte} {size : Nat} {pos : Nat}
    (h : (findJsonBeginningParams data size false 0).stop = some pos) :
    ∃ before rest, data = before ++ Byte.openBrace :: rest ∧ pos = before.length ∧
      pos < size ∧ Byte.nul ∉ before := by
  obtain ⟨beginning, found, rfl⟩ := Option.map_eq_some_iff.mp h
  obtain ⟨⟨rest, rfl⟩, passed, rfl, last, within, noNul⟩ := findJsonBeginning_arrives found
  exact ⟨passed, rest, rfl, by simpa using last, by omega, noNul⟩

theorem findJsonEnd_stop_lt {data : List Byte} {size : Nat} {last : Nat}
    (h : (findJsonEndParams data size false 0 0).stop = some last) :
    ∃ body after, data = body ++ Byte.closeBrace :: after ∧ last = body.length ∧ last < size ∧
      Byte.nul ∉ body := by
  obtain ⟨rest, found, rfl⟩ := Option.map_eq_some_iff.mp h
  obtain ⟨passed, rfl, last, within, noNul⟩ := findJsonEnd_arrives found
  exact ⟨passed, rest, rfl, by simpa using last, by omega, noNul⟩

/-- **The bytes past `dataSize` do not influence where a message starts and ends.** -/
theorem getPushJson_append (data beyond : List Byte) :
    (getPushJson (data ++ beyond) data.length).start = (getPushJson data data.length).start ∧
      (getPushJson (data ++ beyond) data.length).length =
        (getPushJson data data.length).length := by
  have beginnings := findJsonBeginning_append data beyond false 0 data.length (by omega)
  rw [getPushJson_eq, getPushJson_eq, beginnings]
  cases h : (findJsonBeginningParams data data.length false 0).stop with
  | none => exact ⟨rfl, rfl⟩
  | some pos =>
      obtain ⟨before, rest, same, -, within, -⟩ := findJsonBeginning_stop_lt h
      have ends := findJsonEnd_append (data.drop pos) beyond false 0 0 (data.length - pos)
        (by simp)
      simp only [List.drop_append_of_le_length (Nat.le_of_lt within), ends, and_self]

/-- The possible results on a block of bytes: nothing, an object whose end is missing, or a
message. A message starts and ends with a brace and holds no zero byte. -/
inductive Outcome (bytes : List Byte) : Int → Int → Prop where
  | nothing : Outcome bytes (-1) (-1)
  | cut (before rest : List Byte) (split : bytes = before ++ Byte.openBrace :: rest)
      (noNul : Byte.nul ∉ before) : Outcome bytes before.length (-1)
  | complete (before message after : List Byte) (split : bytes = before ++ message ++ after)
      (noNul : Byte.nul ∉ before ++ message) (first : message.head? = some Byte.openBrace)
      (last : message.getLast? = some Byte.closeBrace) :
      Outcome bytes before.length message.length

theorem getPushJson_outcome (bytes : List Byte) :
    Outcome bytes (getPushJson bytes bytes.length).start
      (getPushJson bytes bytes.length).length := by
  rw [getPushJson_eq]
  cases beginning : (findJsonBeginningParams bytes bytes.length false 0).stop with
  | none => exact .nothing
  | some pos =>
      obtain ⟨before, rest, split, rfl, within, noNul⟩ := findJsonBeginning_stop_lt beginning
      have dropped : bytes.drop before.length = Byte.openBrace :: rest := by simp [split]
      simp only [dropped]
      cases ending :
          (findJsonEndParams (Byte.openBrace :: rest) (bytes.length - before.length) false 0 0).stop
        with
      | none => exact .cut before rest split noNul
      | some last =>
          obtain ⟨body, after, bodySplit, rfl, -, bodyNoNul⟩ := findJsonEnd_stop_lt ending
          have message : Outcome bytes before.length (body ++ [Byte.closeBrace]).length :=
            .complete before (body ++ [Byte.closeBrace]) after
              (by simp [split, bodySplit]) (by simp +decide [noNul, bodyNoNul])
              (by cases body <;> simp_all +decide) (by simp)
          simpa using message

theorem getPushJson_json {bytes beyond : List Byte}
    (found : 0 ≤ (getPushJson bytes bytes.length).start) :
    (getPushJson (bytes ++ beyond) bytes.length).json =
      some ((bytes ++ beyond).drop (getPushJson bytes bytes.length).start.toNat) := by
  have beginnings := findJsonBeginning_append bytes beyond false 0 bytes.length (by omega)
  rw [getPushJson_eq] at found ⊢
  rw [getPushJson_eq, beginnings]
  cases h : (findJsonBeginningParams bytes bytes.length false 0).stop with
  | none => simp [h] at found
  | some pos => rfl

/-- **Behind bytes in which nothing begins, an object begins in the bytes that follow.** -/
theorem getPushJson_start_ge {front back : List Byte}
    (nothing : (getPushJson front front.length).start = -1)
    (found : 0 ≤ (getPushJson (front ++ back) (front ++ back).length).start) :
    (front.length : Int) ≤ (getPushJson (front ++ back) (front ++ back).length).start := by
  rw [getPushJson_eq] at nothing found ⊢
  cases whole : (findJsonBeginningParams (front ++ back) (front ++ back).length false 0).stop with
  | none =>
      rw [whole] at found
      change (0 : Int) ≤ -1 at found
      omega
  | some pos =>
      change (front.length : Int) ≤ pos
      by_contra before
      have alone := findJsonBeginning_append front back false 0 front.length (by omega)
      rw [findJsonBeginning_shrink (by omega) whole] at alone
      rw [← alone] at nothing
      simp at nothing
end ParseEmbedded.SimpleJson
