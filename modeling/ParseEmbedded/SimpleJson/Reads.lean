import ParseEmbedded.SimpleJson.Incremental

/-!
# The bytes `getPushJson` reads

The loops of the two scanners look at a byte before they compare its position with the size, and
behind a backslash in a string they look one byte ahead. `readBeginning` and `readEnd` are the
scanners with the indices they read, and `getPushJson_reads_inside_iff` says when all of these lie
inside the block: only a zero byte in it, or a complete object, keeps the scanners from going on
behind its last byte.
-/

set_option autoImplicit false

namespace ParseEmbedded.SimpleJson

open Json

/-! ## The scanners with their reads -/

/-- A result, and the indices of the bytes that were read for it. -/
structure Reading (α : Type) where
  result : α
  reads : List Nat
  deriving DecidableEq, Repr

/-- Nothing more is read. -/
def Reading.of {α : Type} (result : α) : Reading α := ⟨result, []⟩

/-- The byte at this index is read first. -/
def Reading.at {α : Type} (index : Nat) (rest : Reading α) : Reading α :=
  { rest with reads := index :: rest.reads }

/-- `findJsonBeginningParams`: the condition of the loop reads the byte, then compares. -/
def readBeginning : List Byte → Nat → Bool → Nat → Reading BeginningScan
  | [], _, inString, pos => .at pos (.of ⟨none, inString, pos⟩)
  | c :: data, size, inString, pos =>
      .at pos <|
        if c = Byte.nul ∨ size ≤ pos then .of ⟨none, inString, pos⟩
        else if c = Byte.openBrace then
          if inString then readBeginning data size inString (pos + 1)
          else .of ⟨some (c :: data), inString, pos⟩
        else if c = Byte.quote then readBeginning data size (!inString) (pos + 1)
        else if c = Byte.backslash ∧ inString then
          .at (pos + 1) <|
            match data with
            | next :: rest =>
                if next ≠ Byte.nul then readBeginning rest size inString (pos + 2)
                else readBeginning (next :: rest) size inString (pos + 1)
            | [] => readBeginning [] size inString (pos + 1)
        else readBeginning data size inString (pos + 1)

/-- `findJsonEndParams`, whose loop is the same. -/
def readEnd : List Byte → Nat → Bool → Int → Nat → Reading EndScan
  | [], _, inString, level, pos => .at pos (.of ⟨none, inString, level, pos⟩)
  | c :: data, size, inString, level, pos =>
      .at pos <|
        if c = Byte.nul ∨ size ≤ pos then .of ⟨none, inString, level, pos⟩
        else if c = Byte.openBrace then
          readEnd data size inString (if inString then level else level + 1) (pos + 1)
        else if c = Byte.closeBrace then
          let level' := if inString then level else level - 1
          if level' = 0 then .of ⟨some data, inString, level', pos⟩
          else readEnd data size inString level' (pos + 1)
        else if c = Byte.quote then readEnd data size (!inString) level (pos + 1)
        else if c = Byte.backslash ∧ inString then
          .at (pos + 1) <|
            match data with
            | next :: rest =>
                if next ≠ Byte.nul then readEnd rest size inString level (pos + 2)
                else readEnd (next :: rest) size inString level (pos + 1)
            | [] => readEnd [] size inString level (pos + 1)
        else readEnd data size inString level (pos + 1)

/-- `getPushJson`: the second pass starts at `data + pos`. -/
def readPushJson (data : List Byte) (dataSize : Nat) : Reading PushJson :=
  let beginning := readBeginning data dataSize false 0
  match beginning.result.found with
  | none => ⟨⟨none, -1, -1⟩, beginning.reads⟩
  | some _ =>
      let pos := beginning.result.pos
      let ending := readEnd (data.drop pos) (dataSize - pos) false 0 0
      { result :=
          { json := some (data.drop pos)
            start := pos
            length := if ending.result.found.isSome then ending.result.pos + 1 else -1 }
        reads := beginning.reads ++ ending.reads.map (pos + ·) }

/-! ## They are the scanners -/

section Steps

variable {c : Byte} {data : List Byte} {size : Nat} {inString : Bool} {level : Int} {pos : Nat}

theorem readBeginning_cons :
    readBeginning (c :: data) size inString pos =
      .at pos (
        if c = Byte.nul ∨ size ≤ pos then .of ⟨none, inString, pos⟩
        else if c = Byte.openBrace then
          if inString then readBeginning data size inString (pos + 1)
          else .of ⟨some (c :: data), inString, pos⟩
        else if c = Byte.quote then readBeginning data size (!inString) (pos + 1)
        else if c = Byte.backslash ∧ inString then
          .at (pos + 1) (
            match data with
            | next :: rest =>
                if next ≠ Byte.nul then readBeginning rest size inString (pos + 2)
                else readBeginning (next :: rest) size inString (pos + 1)
            | [] => readBeginning [] size inString (pos + 1))
        else readBeginning data size inString (pos + 1)) :=
  readBeginning.eq_def ..

theorem readEnd_cons :
    readEnd (c :: data) size inString level pos =
      .at pos (
        if c = Byte.nul ∨ size ≤ pos then .of ⟨none, inString, level, pos⟩
        else if c = Byte.openBrace then
          readEnd data size inString (if inString then level else level + 1) (pos + 1)
        else if c = Byte.closeBrace then
          if (if inString then level else level - 1) = 0 then
            .of ⟨some data, inString, if inString then level else level - 1, pos⟩
          else readEnd data size inString (if inString then level else level - 1) (pos + 1)
        else if c = Byte.quote then readEnd data size (!inString) level (pos + 1)
        else if c = Byte.backslash ∧ inString then
          .at (pos + 1) (
            match data with
            | next :: rest =>
                if next ≠ Byte.nul then readEnd rest size inString level (pos + 2)
                else readEnd (next :: rest) size inString level (pos + 1)
            | [] => readEnd [] size inString level (pos + 1))
        else readEnd data size inString level (pos + 1)) :=
  readEnd.eq_def ..

end Steps


theorem readBeginning_result (data : List Byte) (size : Nat) (inString : Bool) (pos : Nat) :
    (readBeginning data size inString pos).result =
      findJsonBeginningParams data size inString pos := by
  fun_induction findJsonBeginningParams data size inString pos with
  | case1 => rfl
  | case2 c data size inString pos stop =>
      rw [readBeginning_cons, if_pos stop]
      rfl
  | case3 data size pos more ih =>
      rw [readBeginning_cons, if_neg more, if_pos rfl, if_pos rfl]
      exact ih
  | case4 data size inString pos outside more =>
      rw [readBeginning_cons, if_neg more, if_pos rfl, if_neg outside]
      rfl
  | case5 data size inString pos more notBrace ih =>
      rw [readBeginning_cons, if_neg more, if_neg notBrace, if_pos rfl]
      exact ih
  | case6 size inString pos next rest escaped more notBrace notQuote ih =>
      rw [readBeginning_cons, if_neg more, if_neg notBrace, if_neg notQuote,
        if_pos ⟨rfl, escaped.1⟩]
      dsimp only
      rw [if_pos escaped.2]
      exact ih
  | case7 size inString pos next rest escaped more notBrace notQuote ih =>
      rw [readBeginning_cons, if_neg more, if_neg notBrace, if_neg notQuote]
      split
      · rename_i inside
        dsimp only
        rw [if_neg fun notNul => escaped ⟨inside.2, notNul⟩]
        exact ih
      · exact ih
  | case8 size inString pos more notBrace notQuote =>
      rw [readBeginning_cons, if_neg more, if_neg notBrace, if_neg notQuote]
      split
      · rfl
      · rfl
  | case9 c data size inString pos more notBrace notQuote notEscape ih =>
      rw [readBeginning_cons, if_neg more, if_neg notBrace, if_neg notQuote,
        if_neg fun escape => notEscape escape.1]
      exact ih

theorem readEnd_result (data : List Byte) (size : Nat) (inString : Bool) (level : Int)
    (pos : Nat) :
    (readEnd data size inString level pos).result =
      findJsonEndParams data size inString level pos := by
  fun_induction findJsonEndParams data size inString level pos with
  | case1 => rfl
  | case2 c data size inString level pos stop =>
      rw [readEnd_cons, if_pos stop]
      rfl
  | case3 data size inString level pos more ih =>
      rw [readEnd_cons, if_neg more, if_pos rfl]
      exact ih
  | case4 data size inString level pos level' zero more notOpen =>
      rw [readEnd_cons, if_neg more, if_neg notOpen, if_pos rfl]
      rw [if_pos zero]
      rfl
  | case5 data size inString level pos level' notZero more notOpen ih =>
      rw [readEnd_cons, if_neg more, if_neg notOpen, if_pos rfl]
      rw [if_neg notZero]
      exact ih
  | case6 data size inString level pos more notOpen notClose ih =>
      rw [readEnd_cons, if_neg more, if_neg notOpen, if_neg notClose, if_pos rfl]
      exact ih
  | case7 size inString level pos next rest escaped more notOpen notClose notQuote ih =>
      rw [readEnd_cons, if_neg more, if_neg notOpen, if_neg notClose, if_neg notQuote,
        if_pos ⟨rfl, escaped.1⟩]
      dsimp only
      rw [if_pos escaped.2]
      exact ih
  | case8 size inString level pos next rest escaped more notOpen notClose notQuote ih =>
      rw [readEnd_cons, if_neg more, if_neg notOpen, if_neg notClose, if_neg notQuote]
      split
      · rename_i inside
        dsimp only
        rw [if_neg fun notNul => escaped ⟨inside.2, notNul⟩]
        exact ih
      · exact ih
  | case9 size inString level pos more notOpen notClose notQuote =>
      rw [readEnd_cons, if_neg more, if_neg notOpen, if_neg notClose, if_neg notQuote]
      split
      · rfl
      · rfl
  | case10 c data size inString level pos more notOpen notClose notQuote notEscape ih =>
      rw [readEnd_cons, if_neg more, if_neg notOpen, if_neg notClose, if_neg notQuote,
        if_neg fun escape => notEscape escape.1]
      exact ih

/-- **The scanners with their reads return what the scanners return.** -/
theorem readPushJson_result (data : List Byte) (dataSize : Nat) :
    (readPushJson data dataSize).result = getPushJson data dataSize := by
  rw [readPushJson, getPushJson]
  simp only [readBeginning_result]
  cases (findJsonBeginningParams data dataSize false 0).found with
  | none => rfl
  | some beginning => simp only [readEnd_result]

/-! ## Reads inside a block -/

/-- All reads lie in front of the size. -/
def Reading.Inside {α : Type} (size : Nat) (reading : Reading α) : Prop :=
  ∀ i ∈ reading.reads, i < size

@[simp] theorem Reading.inside_of {α : Type} (size : Nat) (result : α) :
    (Reading.of result).Inside size := by
  simp [Inside, of]

@[simp] theorem Reading.inside_at {α : Type} {size index : Nat} {rest : Reading α} :
    (rest.at index).Inside size ↔ index < size ∧ rest.Inside size := by
  simp [Inside, Reading.at]

/-- The first byte is read whatever the size is. -/
theorem readBeginning_first {data : List Byte} {size : Nat} {inString : Bool} {pos : Nat}
    (inside : (readBeginning data size inString pos).Inside size) : pos < size := by
  cases data with
  | nil => exact (Reading.inside_at.mp inside).1
  | cons c data =>
      rw [readBeginning_cons] at inside
      exact (Reading.inside_at.mp inside).1

theorem readEnd_first {data : List Byte} {size : Nat} {inString : Bool} {level : Int} {pos : Nat}
    (inside : (readEnd data size inString level pos).Inside size) : pos < size := by
  cases data with
  | nil => exact (Reading.inside_at.mp inside).1
  | cons c data =>
      rw [readEnd_cons] at inside
      exact (Reading.inside_at.mp inside).1

theorem nul_mem_cons {c : Byte} {data : List Byte} (notNul : c ≠ Byte.nul) :
    Byte.nul ∈ c :: data ↔ Byte.nul ∈ data := by
  simp [Ne.symm notNul]

/-- **The first pass stays in its block if there is a beginning or a zero byte in it**, and only
then. -/
theorem readBeginning_inside_iff (data beyond : List Byte) (inString : Bool) (pos size : Nat)
    (fits : size = pos + data.length) :
    (readBeginning (data ++ beyond) size inString pos).Inside size ↔
      Byte.nul ∈ data ∨ (findJsonBeginningParams data size inString pos).stop ≠ none := by
  fun_induction findJsonBeginningParams data size inString pos with
  | case1 size inString pos =>
      refine iff_of_false (fun inside => ?_) (by simp [BeginningScan.stop])
      have := readBeginning_first inside
      rw [fits] at this
      exact Nat.lt_irrefl _ this
  | case2 c data size inString pos stop =>
      have within : pos < size := by simp at fits; omega
      have nul : c = Byte.nul := stop.resolve_right (by omega)
      rw [List.cons_append, readBeginning_cons, if_pos stop]
      simp [within, nul]
  | case3 data size pos more ih =>
      rw [List.cons_append, readBeginning_cons, if_neg more, if_pos rfl, if_pos rfl,
        Reading.inside_at, ih (by simp at fits; omega), nul_mem_cons (by decide)]
      exact and_iff_right (by omega)
  | case4 data size inString pos outside more =>
      rw [List.cons_append, readBeginning_cons, if_neg more, if_pos rfl, if_neg outside]
      have within : pos < size := by omega
      simp [within, BeginningScan.stop]
  | case5 data size inString pos more notBrace ih =>
      rw [List.cons_append, readBeginning_cons, if_neg more, if_neg notBrace, if_pos rfl,
        Reading.inside_at, ih (by simp at fits; omega), nul_mem_cons (by decide)]
      exact and_iff_right (by omega)
  | case6 size inString pos next rest escaped more notBrace notQuote ih =>
      rw [List.cons_append, List.cons_append, readBeginning_cons, if_neg more, if_neg notBrace,
        if_neg notQuote, if_pos ⟨rfl, escaped.1⟩]
      dsimp only
      rw [if_pos escaped.2, Reading.inside_at, Reading.inside_at, ih (by simp at fits; omega),
        nul_mem_cons (by decide), nul_mem_cons escaped.2]
      have within : pos + 1 < size := by simp at fits; omega
      exact (and_iff_right (by omega)).trans (and_iff_right within)
  | case7 size inString pos next rest escaped more notBrace notQuote ih =>
      have within : pos + 1 < size := by simp at fits; omega
      rw [List.cons_append, List.cons_append, readBeginning_cons, if_neg more, if_neg notBrace,
        if_neg notQuote, Reading.inside_at, nul_mem_cons (by decide),
        ← ih (by simp at fits ⊢; omega)]
      refine (and_iff_right (by omega)).trans ?_
      split
      · rename_i inside
        dsimp only
        rw [if_neg fun notNul => escaped ⟨inside.2, notNul⟩, Reading.inside_at]
        exact and_iff_right within
      · rfl
  | case8 size inString pos more notBrace notQuote =>
      -- the backslash is the last byte of the block: what is read next lies behind it
      have last : size = pos + 1 := by simpa using fits
      refine iff_of_false (fun inside => ?_) (by simp +decide [BeginningScan.stop])
      rw [List.cons_append, List.nil_append, readBeginning_cons, if_neg more, if_neg notBrace,
        if_neg notQuote, Reading.inside_at] at inside
      obtain ⟨-, inside⟩ := inside
      split at inside
      · have := (Reading.inside_at.mp inside).1
        omega
      · have := readBeginning_first inside
        omega
  | case9 c data size inString pos more notBrace notQuote notEscape ih =>
      have notNul : c ≠ Byte.nul := fun nul => more (.inl nul)
      rw [List.cons_append, readBeginning_cons, if_neg more, if_neg notBrace, if_neg notQuote,
        if_neg fun escape => notEscape escape.1, Reading.inside_at, ih (by simp at fits; omega),
        nul_mem_cons notNul]
      exact and_iff_right (by omega)

/-- **The second pass stays in its block if there is an end or a zero byte in it**, and only
then. -/
theorem readEnd_inside_iff (data beyond : List Byte) (inString : Bool) (level : Int)
    (pos size : Nat) (fits : size = pos + data.length) :
    (readEnd (data ++ beyond) size inString level pos).Inside size ↔
      Byte.nul ∈ data ∨ (findJsonEndParams data size inString level pos).stop ≠ none := by
  fun_induction findJsonEndParams data size inString level pos with
  | case1 size inString level pos =>
      refine iff_of_false (fun inside => ?_) (by simp [EndScan.stop])
      have := readEnd_first inside
      rw [fits] at this
      exact Nat.lt_irrefl _ this
  | case2 c data size inString level pos stop =>
      have within : pos < size := by simp at fits; omega
      have nul : c = Byte.nul := stop.resolve_right (by omega)
      rw [List.cons_append, readEnd_cons, if_pos stop]
      simp [within, nul]
  | case3 data size inString level pos more ih =>
      rw [List.cons_append, readEnd_cons, if_neg more, if_pos rfl, Reading.inside_at,
        ih (by simp at fits; omega), nul_mem_cons (by decide)]
      exact and_iff_right (by omega)
  | case4 data size inString level pos level' zero more notOpen =>
      rw [List.cons_append, readEnd_cons, if_neg more, if_neg notOpen, if_pos rfl, if_pos zero]
      have within : pos < size := by omega
      simp [within, EndScan.stop]
  | case5 data size inString level pos level' notZero more notOpen ih =>
      rw [List.cons_append, readEnd_cons, if_neg more, if_neg notOpen, if_pos rfl,
        if_neg notZero, Reading.inside_at, ih (by simp at fits; omega), nul_mem_cons (by decide)]
      exact and_iff_right (by omega)
  | case6 data size inString level pos more notOpen notClose ih =>
      rw [List.cons_append, readEnd_cons, if_neg more, if_neg notOpen, if_neg notClose, if_pos rfl,
        Reading.inside_at, ih (by simp at fits; omega), nul_mem_cons (by decide)]
      exact and_iff_right (by omega)
  | case7 size inString level pos next rest escaped more notOpen notClose notQuote ih =>
      rw [List.cons_append, List.cons_append, readEnd_cons, if_neg more, if_neg notOpen,
        if_neg notClose, if_neg notQuote, if_pos ⟨rfl, escaped.1⟩]
      dsimp only
      rw [if_pos escaped.2, Reading.inside_at, Reading.inside_at, ih (by simp at fits; omega),
        nul_mem_cons (by decide), nul_mem_cons escaped.2]
      have within : pos + 1 < size := by simp at fits; omega
      exact (and_iff_right (by omega)).trans (and_iff_right within)
  | case8 size inString level pos next rest escaped more notOpen notClose notQuote ih =>
      have within : pos + 1 < size := by simp at fits; omega
      rw [List.cons_append, List.cons_append, readEnd_cons, if_neg more, if_neg notOpen,
        if_neg notClose, if_neg notQuote, Reading.inside_at, nul_mem_cons (by decide),
        ← ih (by simp at fits ⊢; omega)]
      refine (and_iff_right (by omega)).trans ?_
      split
      · rename_i inside
        dsimp only
        rw [if_neg fun notNul => escaped ⟨inside.2, notNul⟩, Reading.inside_at]
        exact and_iff_right within
      · rfl
  | case9 size inString level pos more notOpen notClose notQuote =>
      have last : size = pos + 1 := by simpa using fits
      refine iff_of_false (fun inside => ?_) (by simp +decide [EndScan.stop])
      rw [List.cons_append, List.nil_append, readEnd_cons, if_neg more, if_neg notOpen,
        if_neg notClose, if_neg notQuote, Reading.inside_at] at inside
      obtain ⟨-, inside⟩ := inside
      split at inside
      · have := (Reading.inside_at.mp inside).1
        omega
      · have := readEnd_first inside
        omega
  | case10 c data size inString level pos more notOpen notClose notQuote notEscape ih =>
      have notNul : c ≠ Byte.nul := fun nul => more (.inl nul)
      rw [List.cons_append, readEnd_cons, if_neg more, if_neg notOpen, if_neg notClose,
        if_neg notQuote, if_neg fun escape => notEscape escape.1, Reading.inside_at,
        ih (by simp at fits; omega), nul_mem_cons notNul]
      exact and_iff_right (by omega)

/-! ## Both passes -/

/-- A block holds a complete object if both passes stop in it. -/
theorem isCompleteJson_iff (data : List Byte) :
    isCompleteJson data = 1 ↔ ∃ p, beginAt data data.length = some p ∧
      endAt (data.drop p) (data.length - p) ≠ none := by
  rw [isCompleteJson, findJsonBeginning]
  cases found : (findJsonBeginningParams data data.length false 0).found with
  | none =>
      refine iff_of_false (by simp) ?_
      rintro ⟨p, begins, -⟩
      rw [beginAt, BeginningScan.stop, found] at begins
      cases begins
  | some beginning =>
      have begins : beginAt data data.length =
          some (findJsonBeginningParams data data.length false 0).pos := by
        rw [beginAt, BeginningScan.stop, found]
        rfl
      obtain ⟨-, passed, same, last, -⟩ := findJsonBeginning_arrives found
      have dropped : data.drop passed.length = beginning := by rw [same, List.drop_left]
      have length : beginning.length = data.length - passed.length := by
        rw [← dropped, List.length_drop]
      rw [begins, last, Nat.zero_add]
      simp only [Option.some.injEq, exists_eq_left', dropped, endAt, EndScan.stop, findJsonEnd,
        length, ne_eq, Option.map_eq_none_iff]
      cases (findJsonEndParams beginning (data.length - passed.length) false 0 0).found with
      | none => simp
      | some rest => simp

/-- **When `getPushJson` reads only bytes of its block**: the block holds a zero byte or a complete
object. -/
theorem getPushJson_reads_inside_iff (data beyond : List Byte) :
    (readPushJson (data ++ beyond) data.length).result =
        getPushJson (data ++ beyond) data.length ∧
      ((∀ i ∈ (readPushJson (data ++ beyond) data.length).reads, i < data.length) ↔
        Byte.nul ∈ data ∨ isCompleteJson data = 1) := by
  refine ⟨readPushJson_result .., ?_⟩
  have first := readBeginning_inside_iff data beyond false 0 data.length (by omega)
  have begins := findJsonBeginning_append data beyond false 0 data.length (by omega)
  rw [isCompleteJson_iff]
  change _ ↔ _ ∨ beginAt data data.length ≠ none at first
  change _ = beginAt data data.length at begins
  rw [readPushJson]
  simp only [readBeginning_result]
  cases found : (findJsonBeginningParams (data ++ beyond) data.length false 0).found with
  | none =>
      have none : beginAt data data.length = none := by
        rw [← begins, BeginningScan.stop, found]
        rfl
      rw [none] at first ⊢
      simpa [Reading.Inside] using first
  | some beginning =>
      have begins : beginAt data data.length =
          some (findJsonBeginningParams (data ++ beyond) data.length false 0).pos := by
        rw [← begins, BeginningScan.stop, found]
        rfl
      generalize (findJsonBeginningParams (data ++ beyond) data.length false 0).pos = p at begins ⊢
      obtain ⟨before, rest, split, rfl, within, noNul⟩ := findJsonBeginning_stop_lt begins
      have behind : Byte.nul ∈ data.drop before.length ↔ Byte.nul ∈ data := by
        rw [split, List.drop_left, List.mem_append]
        exact (or_iff_right noNul).symm
      have second := readEnd_inside_iff (data.drop before.length) beyond false 0 0
        (data.length - before.length) (by simp)
      rw [behind, ← List.drop_append_of_le_length (Nat.le_of_lt within)] at second
      change _ ↔ _ ∨ endAt (data.drop before.length) (data.length - before.length) ≠ none at second
      have inside := first.mpr (.inr (by rw [begins]; simp))
      simp only [begins, Option.some.injEq, exists_eq_left']
      rw [← second, Reading.Inside]
      simp only [List.mem_append, List.mem_map]
      constructor
      · intro all i member
        have := all _ (.inr ⟨i, member, rfl⟩)
        omega
      · rintro all _ (member | ⟨i, member, rfl⟩)
        · exact inside _ member
        · have := all i member
          omega

/-- An opening brace in a buffer that is full: the second pass reads the byte behind it. -/
theorem getPushJson_reads_counterexample :
    ¬ ∀ data beyond : List Byte,
      ∀ i ∈ (readPushJson (data ++ beyond) data.length).reads, i < data.length := by
  intro all
  have outside : 1 < [Byte.openBrace].length :=
    all [Byte.openBrace] [] 1 (by decide +kernel)
  exact absurd outside (by decide)

end ParseEmbedded.SimpleJson
