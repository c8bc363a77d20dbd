import ParseEmbedded.SimpleJson.KeyScan

/-!
# The value loop as a scan of the remaining text

`extract` states the value loop of `simpleJsonProcessor` in terms of the text still to be read,
as `scan` does for the key scan, and `simpleJsonProcessor_eq` puts the two together: a lookup is
the key scan followed by `lookUpAt` on the text from the value on.

The bracket level never falls below zero, so the loop never gives up on a malformed text
(`extract_not_malformed`), and what it stores fits the buffer (`lookup_stays_in_buffer`).
-/

set_option autoImplicit false

namespace ParseEmbedded.SimpleJson

/-! ## One byte -/

/-- The variables of the value loop. -/
structure ValuePlace where
  backslash : Bool
  inString : Bool
  jsonLevel : Int
  deriving DecidableEq, Repr

/-- What the value loop does at a byte: it stores it and goes on, stops, stops and stores a closing
bracket, or gives up. -/
inductive ValueRound where
  | store (place : ValuePlace)
  | stop
  | close
  | malformed
  deriving DecidableEq, Repr

/-- The round at a byte that is not the terminator. -/
def valueRound (json endWithQuote : Bool) (place : ValuePlace) (c : Byte) : ValueRound :=
  let ⟨backslash, inString, level⟩ := place
  if backslash then .store ⟨false, inString, level⟩
  else if c = Byte.openBrace ∨ c = Byte.openBracket then
    .store ⟨false, inString, if inString then level else level + 1⟩
  else if (c = Byte.closeBrace ∨ c = Byte.closeBracket) ∧ !endWithQuote ∧ !inString then
    let next := if level ≠ 0 then level - 1 else level
    if level ≠ 0 ∧ next < 0 then .malformed
    else if next = 0 then .close
    else .store ⟨false, inString, next⟩
  else if c = Byte.closeBrace ∨ c = Byte.closeBracket ∨ c = Byte.quote ∨ c = Byte.comma then
    if endWithQuote ∧ c ≠ Byte.quote then .store ⟨false, inString, level⟩
    else if !json then .stop
    else .store ⟨false, if c = Byte.quote then !inString else inString, level⟩
  else .store ⟨c = Byte.backslash, inString, level⟩

/-- What the loop has stored, the text it has stopped at, and whether it has given up. -/
structure Extracted where
  written : List Byte
  rest : List Byte
  malformed : Bool
  deriving DecidableEq, Repr

def Extracted.put (c : Byte) (rest : Extracted) : Extracted :=
  { rest with written := c :: rest.written }

section Extract

variable (json endWithQuote : Bool)

/-- The value loop, with room for as many bytes besides the terminator. -/
def extract : Nat → ValuePlace → List Byte → Extracted
  | 0, _, text => ⟨[], text, false⟩
  | _ + 1, _, [] => ⟨[], [], false⟩
  | room + 1, place, c :: tail =>
      match valueRound json endWithQuote place c with
      | .store next => (extract room next tail).put c
      | .stop => ⟨[], c :: tail, false⟩
      | .close => ⟨if json then [c] else [], c :: tail, false⟩
      | .malformed => ⟨[], c :: tail, true⟩

@[simp] theorem extract_zero (place : ValuePlace) (text : List Byte) :
    extract json endWithQuote 0 place text = ⟨[], text, false⟩ := by
  rw [extract]

@[simp] theorem extract_nil (room : Nat) (place : ValuePlace) :
    extract json endWithQuote room place [] = ⟨[], [], false⟩ := by
  cases room with
  | zero => rw [extract]
  | succ room => rw [extract]

/-- The rest is a rest of the text. -/
theorem extract_suffix (room : Nat) : ∀ (place : ValuePlace) (text : List Byte),
    (extract json endWithQuote room place text).rest <:+ text := by
  induction room with
  | zero =>
      intro place text
      simp
  | succ room ih =>
      intro place text
      cases text with
      | nil => simp
      | cons c tail =>
          rw [extract]
          split
          · exact (ih _ tail).trans (List.suffix_cons c tail)
          · exact List.suffix_rfl
          · exact List.suffix_rfl
          · exact List.suffix_rfl

/-! ## The source computes the scan -/

/-- What the loop of the source returns, in terms of the text. -/
def Extracted.toExtraction (data : CString) (e : Extracted) : Extraction :=
  ⟨e.written, data.length - e.rest.length, e.malformed⟩

/-- **The loop of the source is the scan of the text.** -/
theorem extractValue_eq (data : CString) (room : Nat) :
    ∀ {found : Nat} (place : ValuePlace), found ≤ data.length →
      extractValue data json endWithQuote room found place.backslash place.inString
          place.jsonLevel =
        .ok ((extract json endWithQuote room place (data.rest found)).toExtraction data) := by
  induction room with
  | zero =>
      intro found place inside
      rw [extractValue, extract_zero, Extracted.toExtraction, CString.length_rest,
        Nat.sub_sub_self inside]
  | succ room ih =>
      intro found place inside
      obtain ⟨backslash, inString, level⟩ := place
      simp only [extractValue, CString.read_eq inside, ok_bind]
      have index := data.length_rest found
      have here : data.length - (data.rest found).length = found := by
        rw [index, Nat.sub_sub_self inside]
      cases h : data.rest found with
      | nil =>
          rw [h] at here
          rw [extract_nil, Extracted.toExtraction, here]
          rfl
      | cons c tail =>
          rw [h] at here
          have notNul : c ≠ Byte.nul := CString.ne_nul_of_mem_rest (h ▸ List.mem_cons_self ..)
          have store : ∀ next : ValuePlace,
              (extractValue data json endWithQuote room (found + 1) next.backslash next.inString
                  next.jsonLevel >>= fun rest => .ok (rest.put c)) =
                .ok (((extract json endWithQuote room next tail).put c).toExtraction data) := by
            intro next
            rw [ih next (CString.lt_of_rest_cons h), CString.rest_succ h, ok_bind]
            rfl
          have stop : ∀ written malformed,
              (.ok ⟨written, found, malformed⟩ : Except Overread Extraction) =
                .ok ((⟨written, c :: tail, malformed⟩ : Extracted).toExtraction data) := by
            intro written malformed
            rw [Extracted.toExtraction, here]
          rw [List.headD_cons, if_neg notNul, extract, valueRound]
          by_cases escaped : backslash = true
          · rw [if_pos escaped, if_pos escaped]
            exact store ⟨false, inString, level⟩
          rw [if_neg escaped, if_neg escaped]
          by_cases opens : c = Byte.openBrace ∨ c = Byte.openBracket
          · rw [if_pos opens, if_pos opens]
            exact store ⟨false, inString, if inString then level else level + 1⟩
          rw [if_neg opens, if_neg opens]
          by_cases closes : (c = Byte.closeBrace ∨ c = Byte.closeBracket) ∧
              (!endWithQuote) = true ∧ (!inString) = true
          · rw [if_pos closes, if_pos closes]
            generalize (if level ≠ 0 then level - 1 else level) = next
            by_cases fails : level ≠ 0 ∧ next < 0
            · rw [if_pos fails, if_pos fails]
              exact stop [] true
            rw [if_neg fails, if_neg fails]
            by_cases last : next = 0
            · rw [if_pos last, if_pos last]
              exact stop _ false
            · rw [if_neg last, if_neg last]
              exact store ⟨false, inString, next⟩
          rw [if_neg closes, if_neg closes]
          by_cases ends : c = Byte.closeBrace ∨ c = Byte.closeBracket ∨ c = Byte.quote ∨
              c = Byte.comma
          · rw [if_pos ends, if_pos ends]
            by_cases inside : endWithQuote = true ∧ c ≠ Byte.quote
            · rw [if_pos inside, if_pos inside]
              exact store ⟨false, inString, level⟩
            rw [if_neg inside, if_neg inside]
            by_cases plain : (!json) = true
            · rw [if_pos plain, if_pos plain]
              exact stop [] false
            · rw [if_neg plain, if_neg plain]
              exact store ⟨false, if c = Byte.quote then !inString else inString, level⟩
          · rw [if_neg ends, if_neg ends]
            exact store ⟨c = Byte.backslash, inString, level⟩

/-! ## What is stored -/

/-- What is stored stands at the front of the text. -/
theorem extract_written (room : Nat) : ∀ (place : ValuePlace) (text : List Byte),
    (extract json endWithQuote room place text).written <+: text ∧
      (extract json endWithQuote room place text).written.length ≤ room := by
  induction room with
  | zero =>
      intro place text
      rw [extract_zero]
      exact ⟨List.nil_prefix, Nat.le_refl 0⟩
  | succ room ih =>
      intro place text
      cases text with
      | nil =>
          rw [extract_nil]
          exact ⟨List.nil_prefix, Nat.zero_le _⟩
      | cons c tail =>
          have nothing : ([] : List Byte) <+: c :: tail ∧ ([] : List Byte).length ≤ room + 1 :=
            ⟨List.nil_prefix, Nat.zero_le _⟩
          rw [extract]
          split
          · rename_i next _
            obtain ⟨isPrefix, short⟩ := ih next tail
            exact ⟨List.cons_prefix_cons.mpr ⟨rfl, isPrefix⟩, Nat.succ_le_succ short⟩
          · exact nothing
          · cases json with
            | false => exact nothing
            | true => exact ⟨⟨tail, rfl⟩, Nat.succ_le_succ (Nat.zero_le _)⟩
          · exact nothing

/-- A level that is not negative stays so, and then the loop does not give up. -/
theorem valueRound_level {place : ValuePlace} (level : 0 ≤ place.jsonLevel) (c : Byte) :
    valueRound json endWithQuote place c ≠ .malformed ∧
      ∀ next, valueRound json endWithQuote place c = .store next → 0 ≤ next.jsonLevel := by
  obtain ⟨backslash, inString, depth⟩ := place
  change 0 ≤ depth at level
  have stores : ∀ place : ValuePlace, 0 ≤ place.jsonLevel →
      ValueRound.store place ≠ .malformed ∧
        ∀ next, ValueRound.store place = .store next → 0 ≤ next.jsonLevel := by
    intro place nonneg
    refine ⟨ValueRound.noConfusion, fun next same => ?_⟩
    rw [← ValueRound.store.inj same]
    exact nonneg
  rw [valueRound]
  dsimp only
  split
  · exact stores _ level
  split
  · refine stores _ ?_
    dsimp only
    split
    · exact level
    · omega
  split
  · have nonneg : 0 ≤ if depth ≠ 0 then depth - 1 else depth := by
      split
      · omega
      · exact level
    generalize (if depth ≠ 0 then depth - 1 else depth) = next at nonneg
    rw [if_neg fun fails => Int.not_le.mpr fails.2 nonneg]
    split
    · exact ⟨ValueRound.noConfusion, fun next same => ValueRound.noConfusion same⟩
    · exact stores _ nonneg
  split
  · split
    · exact stores _ level
    split
    · exact ⟨ValueRound.noConfusion, fun next same => ValueRound.noConfusion same⟩
    · exact stores _ level
  · exact stores _ level

/-- **The loop never gives up on a malformed text.** -/
theorem extract_not_malformed (room : Nat) : ∀ (place : ValuePlace) (text : List Byte),
    0 ≤ place.jsonLevel → (extract json endWithQuote room place text).malformed = false := by
  induction room with
  | zero =>
      intro place text _
      rw [extract_zero]
  | succ room ih =>
      intro place text level
      cases text with
      | nil => rw [extract_nil]
      | cons c tail =>
          obtain ⟨never, nonneg⟩ := valueRound_level json endWithQuote level c
          rw [extract]
          cases step : valueRound json endWithQuote place c with
          | store next => exact ih next tail (nonneg next step)
          | stop => rfl
          | close => rfl
          | malformed => exact absurd step never

/-! ## Less room, and more text -/

/-- **With less room the same is stored, as far as there is room.** -/
theorem extract_take {room : Nat} : ∀ {more : Nat}, room ≤ more →
    ∀ {place : ValuePlace} {text : List Byte},
      (extract json endWithQuote more place text).rest ≠ [] →
      (extract json endWithQuote room place text).written =
          (extract json endWithQuote more place text).written.take room ∧
        (extract json endWithQuote room place text).rest ≠ [] := by
  induction room with
  | zero =>
      intro more _ place text stops
      rw [extract_zero, List.take_zero]
      refine ⟨rfl, fun empty => stops ?_⟩
      change text = [] at empty
      rw [empty, extract_nil]
  | succ room ih =>
      intro more le place text stops
      obtain ⟨more, rfl⟩ : ∃ n, more = n + 1 := ⟨more - 1, by omega⟩
      cases text with
      | nil =>
          rw [extract_nil] at stops
          exact absurd rfl stops
      | cons c tail =>
          rw [extract] at stops ⊢
          rw [extract]
          cases step : valueRound json endWithQuote place c with
          | store next =>
              rw [step] at stops
              obtain ⟨written, rest⟩ := ih (Nat.le_of_succ_le_succ le) stops
              exact ⟨congrArg (c :: ·) written, rest⟩
          | stop => exact ⟨rfl, List.cons_ne_nil _ _⟩
          | close =>
              refine ⟨?_, List.cons_ne_nil _ _⟩
              cases json with
              | false => rfl
              | true =>
                  change [c] = [c].take (room + 1)
                  rw [List.take_succ_cons, List.take_nil]
          | malformed => exact ⟨rfl, List.cons_ne_nil _ _⟩

/-- **A loop that has stopped inside the text does not look at what follows it.** -/
theorem extract_append (more : List Byte) (room : Nat) :
    ∀ {place : ValuePlace} {text : List Byte},
      (extract json endWithQuote room place text).rest ≠ [] →
      extract json endWithQuote room place (text ++ more) =
        { extract json endWithQuote room place text with
          rest := (extract json endWithQuote room place text).rest ++ more } := by
  induction room with
  | zero =>
      intro place text _
      rw [extract_zero, extract_zero]
  | succ room ih =>
      intro place text stops
      cases text with
      | nil =>
          rw [extract_nil] at stops
          exact absurd rfl stops
      | cons c tail =>
          rw [extract] at stops
          rw [List.cons_append, extract, extract]
          cases step : valueRound json endWithQuote place c with
          | store next =>
              rw [step] at stops
              exact congrArg (Extracted.put c) (ih stops)
          | stop => rfl
          | close => rfl
          | malformed => rfl

end Extract

/-! ## Lookups -/

/-- What is left behind a round of the key scan, or from the value on, is a rest of the text. -/
theorem round_suffix {key : List Byte} {place : Place} :
    (∀ next, round key place = .next next → next.rest <:+ place.rest) ∧
      ∀ value, round key place = .stop value → value <:+ place.rest := by
  obtain ⟨rest, inString, level⟩ := place
  have blanks : ∀ text, dropBlanks text <:+ text := fun text => List.dropWhile_suffix _
  cases rest with
  | nil => exact ⟨fun next same => Round.noConfusion same, fun value same => Round.noConfusion same⟩
  | cons c tail =>
      have tailOf : tail <:+ c :: tail := List.suffix_cons c tail
      rw [round]
      dsimp only
      split
      · split
        · refine ⟨fun next same => ?_, fun value same => Round.noConfusion same⟩
          rw [← Round.next.inj same]
          exact tailOf
        · have behindOf : (c :: tail).drop key.length <:+ c :: tail := List.drop_suffix _ _
          generalize (c :: tail).drop key.length = behind at behindOf
          cases behind with
          | nil =>
              exact ⟨fun next same => Round.noConfusion same,
                fun value same => Round.noConfusion same⟩
          | cons q after =>
              have afterOf : after <:+ c :: tail := (List.suffix_cons q after).trans behindOf
              rw [passKey]
              split
              · refine ⟨fun next same => ?_, fun value same => Round.noConfusion same⟩
                rw [← Round.next.inj same]
                exact afterOf
              · cases colon : dropBlanks after with
                | nil =>
                    exact ⟨fun next same => Round.noConfusion same,
                      fun value same => Round.noConfusion same⟩
                | cons d after' =>
                    have after'Of : after' <:+ c :: tail :=
                      (List.suffix_cons d after').trans ((colon ▸ blanks after).trans afterOf)
                    dsimp only
                    split
                    · refine ⟨fun next same => ?_, fun value same => Round.noConfusion same⟩
                      rw [← Round.next.inj same]
                      exact after'Of
                    · refine ⟨fun next same => Round.noConfusion same, fun value same => ?_⟩
                      rw [← Round.stop.inj same]
                      exact (blanks after').trans after'Of
      · have nexts : ∀ text inString level, text <:+ c :: tail →
            (∀ next, Round.next ⟨text, inString, level⟩ = .next next →
                next.rest <:+ c :: tail) ∧
              ∀ value, Round.next ⟨text, inString, level⟩ = .stop value → value <:+ c :: tail := by
          intro text inString level suffix
          refine ⟨fun next same => ?_, fun value same => Round.noConfusion same⟩
          rw [← Round.next.inj same]
          exact suffix
        rw [passByte]
        split
        · exact nexts _ _ _ tailOf
        split
        · refine nexts _ _ _ ?_
          split
          · exact (List.tail_suffix tail).trans tailOf
          · exact tailOf
        split
        · exact nexts _ _ _ tailOf
        split
        · split
          · exact nexts _ _ _ tailOf
          split
          · exact ⟨fun next same => Round.noConfusion same,
              fun value same => Round.noConfusion same⟩
          · exact nexts _ _ _ tailOf
        · exact nexts _ _ _ tailOf

/-- The value stands at the end of the text. -/
theorem scan_suffix {key : List Byte} {place : Place} {value : List Byte}
    (stopped : scan key place = .stopped value) : value <:+ place.rest := by
  induction place, stopped using scan_stopped_induct with
  | stop place step => exact round_suffix.2 _ step
  | next place next step stopped ih => exact ih.trans (round_suffix.1 next step)

/-- Objects and arrays are extracted as a whole. -/
def isJson (text : List Byte) : Bool :=
  text.headD Byte.nul = Byte.openBrace ∨ text.headD Byte.nul = Byte.openBracket

def endsWithQuote (text : List Byte) : Bool := text.headD Byte.nul = Byte.quote

/-- The value loop on the text from the value on. -/
def extractAt (room : Nat) (text : List Byte) : Extracted :=
  extract (isJson text) (endsWithQuote text) room ⟨false, !isJson text, 0⟩
    (if endsWithQuote text then text.tail else text)

/-- What a lookup does with the text from the value on. -/
def lookUpAt (value : Option (List Byte)) (size : Int) (text : List Byte) : Lookup :=
  if text = [] then ⟨0, value⟩
  else
    match value with
    | none => ⟨1, none⟩
    | some buffer =>
        let e := extractAt (size - 1).toNat text
        ⟨if e.rest = [] then 0 else 1, some (overwrite buffer (e.written ++ [Byte.nul]))⟩

/-- A lookup whose key scan has stopped. -/
theorem simpleJsonProcessor_stopped {data key : CString} (nonempty : key.bytes ≠ [])
    {text : List Byte} (suffix : text <:+ data.bytes)
    (ended : findKey data key = (ScanEnd.stopped text).toKeyEnd data)
    (value : Option (List Byte)) (size : Int) :
    simpleJsonProcessor data key value size = .ok (lookUpAt value size text) := by
  have here : data.rest (data.length - text.length) = text :=
    (List.suffix_iff_eq_drop.mp suffix).symm
  have inside : data.length - text.length ≤ data.length := Nat.sub_le _ _
  rw [simpleJsonProcessor, if_neg nonempty, ended]
  change (data.read (data.length - text.length) >>= fun c => _) = _
  rw [CString.read_eq inside, here, ok_bind]
  cases text with
  | nil =>
      cases value with
      | none => rfl
      | some buffer => rfl
  | cons c tail =>
      have notNul : c ≠ Byte.nul := CString.ne_nul_of_mem_rest (here ▸ List.mem_cons_self ..)
      rw [List.headD_cons, if_neg notNul]
      cases value with
      | none => rw [lookUpAt, if_neg (List.cons_ne_nil c tail)]
      | some buffer =>
          rw [lookUpAt, if_neg (List.cons_ne_nil c tail)]
          have lt := CString.lt_of_rest_cons here
          -- the loop starts behind a quote
          obtain ⟨start, startIs, insideStart, startRest⟩ : ∃ start,
              (if endsWithQuote (c :: tail) then data.length - (c :: tail).length + 1
                else data.length - (c :: tail).length) = start ∧ start ≤ data.length ∧
              data.rest start = if endsWithQuote (c :: tail) then tail else c :: tail := by
            cases endsWithQuote (c :: tail) with
            | true => exact ⟨_, rfl, lt, CString.rest_succ here⟩
            | false => exact ⟨_, rfl, Nat.le_of_lt lt, here⟩
          have extracted := extractValue_eq (isJson (c :: tail)) (endsWithQuote (c :: tail)) data
            (size - 1).toNat ⟨false, !isJson (c :: tail), 0⟩ insideStart
          rw [startRest] at extracted
          change _ = Except.ok ((extractAt (size - 1).toNat (c :: tail)).toExtraction data)
            at extracted
          have whole := extract_not_malformed (isJson (c :: tail)) (endsWithQuote (c :: tail))
            (size - 1).toNat ⟨false, !isJson (c :: tail), 0⟩
            (if endsWithQuote (c :: tail) then tail else c :: tail) (Int.le_refl 0)
          have restOf := extract_suffix (isJson (c :: tail)) (endsWithQuote (c :: tail))
            (size - 1).toNat ⟨false, !isJson (c :: tail), 0⟩
            (if endsWithQuote (c :: tail) then tail else c :: tail)
          change (extractValue data (isJson (c :: tail)) (endsWithQuote (c :: tail))
            (size - 1).toNat (if endsWithQuote (c :: tail) then
              data.length - (c :: tail).length + 1 else data.length - (c :: tail).length) false
            (!isJson (c :: tail)) 0 >>= fun extraction => _) = _
          rw [startIs, extracted, ok_bind]
          have restOfData : (extractAt (size - 1).toNat (c :: tail)).rest <:+ data.bytes :=
            restOf.trans (startRest ▸ List.drop_suffix _ _)
          change (extractAt (size - 1).toNat (c :: tail)).malformed = false at whole
          generalize extractAt (size - 1).toNat (c :: tail) = e at restOfData whole ⊢
          change (if e.malformed then _ else _) = _
          rw [whole, if_neg Bool.false_ne_true]
          have restIs : data.rest (data.length - e.rest.length) = e.rest :=
            (List.suffix_iff_eq_drop.mp restOfData).symm
          change (data.read (data.length - e.rest.length) >>= fun c => _) = _
          rw [CString.read_eq (Nat.sub_le _ _), restIs, ok_bind]
          dsimp only
          cases ended : e.rest with
          | nil => rfl
          | cons d rest =>
              rw [ended] at restIs
              have notNul : d ≠ Byte.nul :=
                CString.ne_nul_of_mem_rest (restIs ▸ List.mem_cons_self ..)
              rw [List.headD_cons, if_neg notNul, if_neg (List.cons_ne_nil d rest)]
              rfl

/-- **A lookup is the key scan, and then the value loop on the text from the value on.** -/
theorem simpleJsonProcessor_eq (data : CString) {key : CString} (nonempty : key.bytes ≠ [])
    (value : Option (List Byte)) (size : Int) :
    simpleJsonProcessor data key value size =
      match scan key.bytes ⟨data.bytes, false, 0⟩ with
      | .absent => .ok ⟨0, value⟩
      | .malformed => .ok ⟨0, value⟩
      | .stopped text => .ok (lookUpAt value size text)
      | .overread => .error ⟨data.length + 1⟩ := by
  have ended := findKey_eq data key
  cases scanned : scan key.bytes ⟨data.bytes, false, 0⟩ with
  | stopped text =>
      rw [scanned] at ended
      exact simpleJsonProcessor_stopped nonempty (scan_suffix scanned) ended value size
  | _ =>
      rw [scanned] at ended
      rw [simpleJsonProcessor, if_neg nonempty, ended]
      rfl

/-! ## The buffer -/

/-- The key scan stops at a value, and the extraction starts. -/
def Extracts (data key : CString) : Prop :=
  key.bytes ≠ [] ∧ ∃ found json endWithQuote,
    findKey data key = .ok (.stopped found json endWithQuote) ∧ data.rest found ≠ []

theorem extracts_iff (data key : CString) : Extracts data key ↔ key.bytes ≠ [] ∧
    ∃ text, scan key.bytes ⟨data.bytes, false, 0⟩ = .stopped text ∧ text ≠ [] := by
  refine and_congr_right fun _ => ?_
  rw [findKey_eq]
  cases scanned : scan key.bytes ⟨data.bytes, false, 0⟩ with
  | stopped text =>
      have here : data.rest (data.length - text.length) = text :=
        (List.suffix_iff_eq_drop.mp (scan_suffix scanned)).symm
      constructor
      · rintro ⟨found, json, endWithQuote, same, some⟩
        cases same
        exact ⟨text, rfl, here ▸ some⟩
      · rintro ⟨text', same, some⟩
        cases same
        exact ⟨_, _, _, rfl, here.symm ▸ some⟩
  | _ =>
      constructor
      · rintro ⟨found, json, endWithQuote, same, -⟩
        cases same
      · rintro ⟨text, same, -⟩
        cases same

/-- What a lookup that stays within the text comes to. -/
theorem lookup_cases {data key : CString} {value : Option (List Byte)} {size : Int}
    {lookup : Lookup} (done : simpleJsonProcessor data key value size = .ok lookup) :
    (¬ Extracts data key ∧ lookup = ⟨0, value⟩) ∨
      ∃ text, text ≠ [] ∧ Byte.nul ∉ text ∧
        (Extracts data key ∧ scan key.bytes ⟨data.bytes, false, 0⟩ = .stopped text) ∧
        lookup = lookUpAt value size text := by
  by_cases nonempty : key.bytes = []
  · rw [simpleJsonProcessor, if_pos nonempty] at done
    exact Or.inl ⟨fun starts => starts.1 nonempty, (Except.ok.inj done).symm⟩
  rw [simpleJsonProcessor_eq data nonempty] at done
  have starts := extracts_iff data key
  cases scanned : scan key.bytes ⟨data.bytes, false, 0⟩ with
  | absent =>
      rw [scanned] at done starts
      refine Or.inl ⟨fun extracts => ?_, (Except.ok.inj done).symm⟩
      obtain ⟨-, text, same, -⟩ := starts.mp extracts
      cases same
  | malformed =>
      rw [scanned] at done starts
      refine Or.inl ⟨fun extracts => ?_, (Except.ok.inj done).symm⟩
      obtain ⟨-, text, same, -⟩ := starts.mp extracts
      cases same
  | overread =>
      rw [scanned] at done
      cases done
  | stopped text =>
      rw [scanned] at done starts
      by_cases some : text = []
      · subst some
        refine Or.inl ⟨fun extracts => ?_, ?_⟩
        · obtain ⟨-, text, same, some⟩ := starts.mp extracts
          exact some (ScanEnd.stopped.inj same).symm
        · rw [← Except.ok.inj done]
          cases value with
          | none => rfl
          | some buffer => rfl
      · refine Or.inr ⟨text, some, fun member => ?_, ⟨starts.mpr ⟨nonempty, text, rfl, some⟩, rfl⟩,
          (Except.ok.inj done).symm⟩
        exact data.noNul ((scan_suffix scanned).subset member)

theorem drop_overwrite {buffer bytes : List Byte} {n : Nat} (short : bytes.length ≤ n) :
    (overwrite buffer bytes).drop n = buffer.drop n := by
  obtain ⟨m, rfl⟩ := Nat.exists_eq_add_of_le short
  rw [overwrite, ← List.drop_drop, List.drop_left, List.drop_drop]

theorem lookUpAt_some (buffer : List Byte) (size : Int) {text : List Byte} (nonempty : text ≠ []) :
    lookUpAt (some buffer) size text =
      ⟨if (extractAt (size - 1).toNat text).rest = [] then 0 else 1,
        some (overwrite buffer ((extractAt (size - 1).toNat text).written ++ [Byte.nul]))⟩ := by
  rw [lookUpAt, if_neg nonempty]

theorem extractAt_written (room : Nat) {text : List Byte} (noNul : Byte.nul ∉ text) :
    Byte.nul ∉ (extractAt room text).written ∧ (extractAt room text).written.length ≤ room := by
  obtain ⟨isPrefix, short⟩ := extract_written (isJson text) (endsWithQuote text) room
    ⟨false, !isJson text, 0⟩ (if endsWithQuote text then text.tail else text)
  refine ⟨fun member => noNul ?_, short⟩
  have member := isPrefix.subset member
  split at member
  · exact List.mem_of_mem_tail member
  · exact member

/-- The `return 0` of the value loop is dead code. -/
theorem extractValue_not_malformed {data : CString} {json endWithQuote : Bool}
    {room found : Nat} {backslash inString : Bool} {level : Int} (nonneg : 0 ≤ level)
    {extraction : Extraction}
    (done : extractValue data json endWithQuote room found backslash inString level =
      .ok extraction) : extraction.malformed = false := by
  by_cases inside : found ≤ data.length
  · rw [extractValue_eq json endWithQuote data room ⟨backslash, inString, level⟩ inside] at done
    rw [← Except.ok.inj done]
    exact extract_not_malformed json endWithQuote room _ _ nonneg
  · cases room with
    | zero =>
        rw [← Except.ok.inj done]
    | succ room =>
        rw [extractValue, CString.read, if_neg inside] at done
        cases done

/-- **A lookup stays in its buffer.** While the key scan stays within the text, all bytes are
stored below the size; once the extraction has started the buffer ends up with a text that
leaves room for its zero, and before that it is left alone; and the loop does not give up on a
malformed text. -/
theorem lookup_stays_in_buffer {data key : CString} {buffer : List Byte} {size : Int}
    (room : 1 ≤ size) {lookup : Lookup}
    (within : simpleJsonProcessor data key (some buffer) size = .ok lookup) :
    (∃ after, lookup.value = some after ∧
        after.drop size.toNat = buffer.drop size.toNat ∧
        (Extracts data key → ∃ text, Byte.nul ∉ text ∧ text.length ≤ size - 1 ∧
          after = overwrite buffer (text ++ [Byte.nul])) ∧
        (¬ Extracts data key → after = buffer)) ∧
      ∀ found json endWithQuote extraction,
        findKey data key = .ok (.stopped found json endWithQuote) →
        extractValue data json endWithQuote (size - 1).toNat
            (if endWithQuote then found + 1 else found) false (!json) 0 = .ok extraction →
          extraction.malformed = false := by
  refine ⟨?_, fun _ _ _ _ _ done => extractValue_not_malformed (Int.le_refl 0) done⟩
  rcases lookup_cases within with ⟨idle, rfl⟩ | ⟨text, some, noNul, starts, rfl⟩
  · exact ⟨buffer, rfl, rfl, fun starts => absurd starts idle, fun _ => rfl⟩
  · rw [lookUpAt_some buffer size some]
    obtain ⟨noNul', short⟩ := extractAt_written (size - 1).toNat noNul
    refine ⟨_, rfl, ?_, fun _ => ⟨_, noNul', by omega, rfl⟩, fun idle => absurd starts.1 idle⟩
    refine drop_overwrite ?_
    rw [List.length_append, List.length_singleton]
    omega

section Example

/-- `{"val1":1,"val3":{"val4":false}}` -/
def exampleData : CString :=
  CString.literal "\x7b\"val1\":1,\"val3\":\x7b\"val4\":false\x7d\x7d"

theorem lookup_stays_in_buffer_example :
    ∃ after, some (ascii "\x7b\"v" ++ [Byte.nul, 7]) = some after ∧
      after.drop 4 = (List.replicate 5 (7 : Byte)).drop 4 := by
  have within : simpleJsonProcessor exampleData (CString.literal "val3")
      (some (List.replicate 5 7)) 4 = .ok ⟨1, some (ascii "\x7b\"v" ++ [Byte.nul, 7])⟩ := by
    decide +kernel
  obtain ⟨⟨after, same, behind, -⟩, -⟩ := lookup_stays_in_buffer (by decide) within
  exact ⟨after, same, behind⟩

end Example

/-! ## Less room -/

/-- A lookup whose key scan stops in front of a text does not depend on the destination. -/
theorem lookup_of_extracts {data key : CString} (extracts : Extracts data key) {text : List Byte}
    (scanned : scan key.bytes ⟨data.bytes, false, 0⟩ = .stopped text)
    (value : Option (List Byte)) (size : Int) :
    simpleJsonProcessor data key value size = .ok (lookUpAt value size text) := by
  rw [simpleJsonProcessor_eq data extracts.1, scanned]

/-- **Truncation is coherent.** If a lookup returns 1 with some size, it returns 1 with every
smaller size, with as many bytes of the same string as there is room for, and the query without a
buffer returns 1 too. -/
theorem lookup_truncates {data key : CString} {buffer buffer' after : List Byte} {n m : Int}
    (le : n ≤ m)
    (whole : simpleJsonProcessor data key (some buffer) m = .ok ⟨1, some after⟩) :
    simpleJsonProcessor data key (some buffer') n =
        .ok ⟨1, some (overwrite buffer'
          ((CString.ofMemory after).bytes.take (n - 1).toNat ++ [Byte.nul]))⟩ ∧
      ∀ size, simpleJsonProcessor data key none size = .ok ⟨1, none⟩ := by
  rcases lookup_cases whole with ⟨-, same⟩ | ⟨text, some, noNul, ⟨extracts, scanned⟩, same⟩
  · cases same
  · rw [lookUpAt_some buffer m some] at same
    have stops : (extractAt (m - 1).toNat text).rest ≠ [] := by
      intro empty
      rw [if_pos empty] at same
      cases same
    obtain ⟨written, stops'⟩ := extract_take (isJson text) (endsWithQuote text)
      (Int.toNat_le_toNat (Int.sub_le_sub_right le 1)) stops
    change (extractAt (n - 1).toNat text).written = (extractAt (m - 1).toNat text).written.take _
      at written
    change (extractAt (n - 1).toNat text).rest ≠ [] at stops'
    have string : (CString.ofMemory after).bytes = (extractAt (m - 1).toNat text).written := by
      rw [if_neg stops] at same
      rw [Option.some.inj (Lookup.mk.inj same).2, overwrite, List.append_assoc]
      exact CString.ofMemory_append_nul (extractAt_written _ noNul).1 _
    constructor
    · rw [lookup_of_extracts extracts scanned, lookUpAt_some buffer' n some, if_neg stops', string,
        written]
    · intro size
      rw [lookup_of_extracts extracts scanned, lookUpAt, if_neg some]

/-- The test that asks for three characters of an object. -/
theorem lookup_truncates_example :
    simpleJsonProcessor exampleData (CString.literal "val3") (some (List.replicate 4 7)) 4 =
        .ok ⟨1, some (ascii "\x7b\"v" ++ [Byte.nul])⟩ ∧
      ∀ size, simpleJsonProcessor exampleData (CString.literal "val3") none size =
        .ok ⟨1, none⟩ := by
  have whole : simpleJsonProcessor exampleData (CString.literal "val3")
      (some (List.replicate 15 7)) 15 =
        .ok ⟨1, some (ascii "\x7b\"val4\":false\x7d" ++ [Byte.nul])⟩ := by
    decide +kernel
  exact lookup_truncates (by decide) whole

end ParseEmbedded.SimpleJson
