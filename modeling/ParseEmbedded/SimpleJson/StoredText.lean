import ParseEmbedded.SimpleJson.FailedLookup
import ParseEmbedded.SimpleJson.Surroundings

/-!
# What a lookup stores of a text

`storedText` is what a lookup stores of a text if there is room for all of it, whether or not the
value comes to its end there; with less room it stores the beginning (`lookup_stored`). A lookup in
a text that has been cut off stores the value of the whole text as soon as the characters of the
value are in it, its last quote may be missing (`storedText_take_iff`).
-/

set_option autoImplicit false

namespace ParseEmbedded.SimpleJson

open Json

/-! ## Less room -/

/-- What is stored with less room is the beginning of what is stored with more. -/
theorem extract_written_take (json endWithQuote : Bool) {room : Nat} : ∀ {more : Nat},
    room ≤ more → ∀ (place : ValuePlace) (text : List Byte),
      (extract json endWithQuote room place text).written =
        (extract json endWithQuote more place text).written.take room := by
  induction room with
  | zero =>
      intro more _ place text
      rw [extract_zero, List.take_zero]
  | succ room ih =>
      intro more le place text
      obtain ⟨more, rfl⟩ : ∃ n, more = n + 1 := ⟨more - 1, by omega⟩
      cases text with
      | nil => rw [extract_nil, extract_nil, List.take_nil]
      | cons c tail =>
          rw [extract, extract]
          cases step : valueRound json endWithQuote place c with
          | store next =>
              exact congrArg (List.cons c) (ih (Nat.le_of_succ_le_succ le) next tail)
          | stop => rfl
          | close => cases json <;> simp
          | malformed => rfl

/-! ## The text of a value -/

/-- What a lookup stores of the value, with room for all of it. -/
def storedAt (value : List Byte) : List Byte := (extractAt value.length value).written

/-- What a lookup of a key stores, with room for all of it. -/
def storedText (key text : List Byte) : Option (List Byte) :=
  match scan key ⟨text, false, 0⟩ with
  | .stopped value => if value = [] then none else some (storedAt value)
  | _ => none

theorem storedText_some {key text stored : List Byte} (stores : storedText key text = some stored) :
    ∃ value, scan key ⟨text, false, 0⟩ = .stopped value ∧ value ≠ [] ∧ stored = storedAt value := by
  rw [storedText] at stores
  cases scanned : scan key ⟨text, false, 0⟩ with
  | stopped value =>
      rw [scanned] at stores
      dsimp only at stores
      split at stores
      · cases stores
      · rename_i some
        exact ⟨value, rfl, some, (Option.some.inj stores).symm⟩
  | _ =>
      rw [scanned] at stores
      cases stores

theorem storedText_of_stopped {key text value : List Byte}
    (stopped : scan key ⟨text, false, 0⟩ = .stopped value) (nonempty : value ≠ []) :
    storedText key text = some (storedAt value) := by
  rw [storedText, stopped]
  exact if_neg nonempty

theorem valueBody_length (text : List Byte) : (valueBody text).length ≤ text.length := by
  rw [valueBody]
  split
  · rw [List.length_tail]
    omega
  · exact Nat.le_refl _

theorem storedAt_noNul {value : List Byte} (noNul : Byte.nul ∉ value) :
    Byte.nul ∉ storedAt value := (extractAt_written _ noNul).1

/-- More room than bytes makes no difference. -/
theorem extractAt_take (room : Nat) (value : List Byte) :
    (extractAt room value).written = (storedAt value).take room := by
  change (extract _ _ room _ (valueBody value)).written =
    (extract _ _ value.length _ (valueBody value)).written.take room
  rcases Nat.le_total room value.length with le | le
  · exact extract_written_take _ _ le _ _
  · have fewer := extract_written_take (isJson value) (endsWithQuote value) le
      ⟨false, !isJson value, 0⟩ (valueBody value)
    -- the loop stores no more than there are bytes
    have short : (extract (isJson value) (endsWithQuote value) room ⟨false, !isJson value, 0⟩
        (valueBody value)).written.length ≤ value.length :=
      Nat.le_trans (extract_written _ _ room _ (valueBody value)).1.length_le
        (valueBody_length value)
    rw [List.take_of_length_le short] at fewer
    rw [fewer, List.take_of_length_le (Nat.le_trans short le)]

/-- A buffer behind a lookup that has this text to store. -/
def storeInto (buffer : List Byte) (size : Int) : Option (List Byte) → List Byte
  | none => buffer
  | some stored => overwrite buffer (stored.take (size - 1).toNat ++ [Byte.nul])

/-- **What a lookup leaves in its buffer**, in terms of what there is to store. -/
theorem lookup_stored {data key : CString} (nonempty : key.bytes ≠ []) (buffer : List Byte)
    (size : Int) {lookup : Lookup}
    (done : simpleJsonProcessor data key (some buffer) size = .ok lookup) :
    lookup.value = some (storeInto buffer size (storedText key.bytes data.bytes)) := by
  rw [simpleJsonProcessor_eq data nonempty] at done
  rw [storedText]
  cases scanned : scan key.bytes ⟨data.bytes, false, 0⟩ with
  | absent =>
      rw [scanned] at done
      rw [← Except.ok.inj done]
      rfl
  | malformed =>
      rw [scanned] at done
      rw [← Except.ok.inj done]
      rfl
  | overread =>
      rw [scanned] at done
      cases done
  | stopped value =>
      rw [scanned] at done
      rw [← Except.ok.inj done]
      dsimp only
      by_cases some : value = []
      · rw [if_pos some, lookUpAt, if_pos some]
        rfl
      · rw [if_neg some, lookUpAt_some buffer size some, extractAt_take]
        rfl

/-- A lookup of a text that has something to store stays in it. -/
theorem lookup_of_storedText {data key : CString} (nonempty : key.bytes ≠ []) {stored : List Byte}
    (stores : storedText key.bytes data.bytes = some stored) (value : Option (List Byte))
    (size : Int) : ∃ lookup, simpleJsonProcessor data key value size = .ok lookup := by
  obtain ⟨text, stopped, -, -⟩ := storedText_some stores
  rw [simpleJsonProcessor_eq data nonempty, stopped]
  exact ⟨_, rfl⟩

/-- There is something to store: the lookup stores it, as much of it as there is room for. -/
theorem lookup_stores {data key : CString} (nonempty : key.bytes ≠ []) {stored : List Byte}
    (stores : storedText key.bytes data.bytes = some stored) (buffer : List Byte) (size : Int) :
    ∃ result, simpleJsonProcessor data key (some buffer) size =
      .ok ⟨result, some (storeInto buffer size (some stored))⟩ := by
  obtain ⟨⟨result, value⟩, done⟩ := lookup_of_storedText nonempty stores (some buffer) size
  have isValue : value = some (storeInto buffer size (storedText key.bytes data.bytes)) :=
    lookup_stored nonempty buffer size done
  rw [stores] at isValue
  exact ⟨result, isValue ▸ done⟩

theorem storedText_noNul {key text stored : List Byte} (noNul : Byte.nul ∉ text)
    (stores : storedText key text = some stored) : Byte.nul ∉ stored := by
  obtain ⟨value, stopped, -, rfl⟩ := storedText_some stores
  exact storedAt_noNul fun member => noNul ((scan_suffix stopped).subset member)

/-- The string that a buffer holds behind a lookup that has stored something. -/
theorem ofMemory_storeInto (buffer : List Byte) (size : Int) {stored : List Byte}
    (noNul : Byte.nul ∉ stored) :
    (CString.ofMemory (storeInto buffer size (some stored))).bytes =
      stored.take (size - 1).toNat := by
  rw [storeInto, overwrite, List.append_assoc]
  exact CString.ofMemory_append_nul (fun member => noNul (List.mem_of_mem_take member)) _

/-! ## Other bytes behind the beginning of a value -/

theorem dropBlanks_separates {c : Byte} (notBlank : ¬ IsBlank c) (front tail : List Byte) :
    dropBlanks (front ++ c :: tail) = dropBlanks front ++ c :: tail := by
  rw [dropBlanks, List.dropWhile_append, List.dropWhile_cons_of_neg (by simpa using notBlank)]
  split
  · rename_i empty
    rw [dropBlanks, List.isEmpty_iff.mp empty, List.nil_append]
  · rfl

theorem append_ne_of_length_lt {front text short : List Byte} (lt : short.length < text.length) :
    short ≠ front ++ text := by
  rintro rfl
  rw [List.length_append] at lt
  omega

section Swap

variable (k : PlainKey) {c : Byte} (notInert : ¬ IsInert c) (tail tail' : List Byte)

/-- How a round goes with other bytes behind the beginning of the value. -/
structure Swaps (c : Byte) (tail tail' : List Byte) (round round' : Round) : Prop where
  next : ∀ {front inString level}, round = .next ⟨front ++ c :: tail, inString, level⟩ →
    round' = .next ⟨front ++ c :: tail', inString, level⟩
  stop : round = .stop (c :: tail) → round' = .stop (c :: tail')

theorem Swaps.of_next {rest : List Byte} {inString : Bool} {level : Int} :
    Swaps c tail tail' (.next ⟨rest ++ c :: tail, inString, level⟩)
      (.next ⟨rest ++ c :: tail', inString, level⟩) where
  next same := by
    obtain ⟨rest, rfl, rfl⟩ := Place.mk.inj (Round.next.inj same)
    rw [List.append_cancel_right rest]
  stop same := Round.noConfusion same

/-- A round that has come into the value is not the one looked for. -/
theorem Swaps.of_short {short : List Byte} {inString : Bool} {level : Int} (round' : Round)
    (lt : short.length < (c :: tail).length) :
    Swaps c tail tail' (.next ⟨short, inString, level⟩) round' where
  next same := absurd (Place.mk.inj (Round.next.inj same)).1 (append_ne_of_length_lt lt)
  stop same := Round.noConfusion same

theorem Swaps.of_other {round round' : Round} (notNext : ∀ place, round ≠ .next place)
    (notStop : ∀ value, round ≠ .stop value) : Swaps c tail tail' round round' where
  next same := absurd same (notNext _)
  stop same := absurd same (notStop _)

include notInert

theorem not_isBlank : ¬ IsBlank c := fun blank => notInert (isInert_of_isBlank blank)

theorem passKey_swaps (inString : Bool) (level : Int) (behind : List Byte) :
    Swaps c tail tail' (passKey inString level (behind ++ c :: tail))
      (passKey inString level (behind ++ c :: tail')) := by
  have blanks := dropBlanks_separates (not_isBlank notInert)
  have dropped : ∀ text : List Byte, (dropBlanks text).length ≤ text.length :=
    fun text => (List.dropWhile_sublist _).length_le
  cases behind with
  | nil =>
      -- whatever comes behind the first byte of the value is shorter than the value
      rw [List.nil_append, passKey]
      split
      · exact .of_short tail tail' _ (Nat.lt_succ_self _)
      · have le := dropped tail
        cases colon : dropBlanks tail with
        | nil => exact .of_other tail tail' (fun _ => Round.noConfusion) fun _ => Round.noConfusion
        | cons d after =>
            rw [colon, List.length_cons] at le
            dsimp only
            split
            · exact .of_short tail tail' _ (Nat.lt_succ_of_lt le)
            · refine ⟨fun same => Round.noConfusion same, fun same => ?_⟩
              have shorter := congrArg List.length (Round.stop.inj same)
              have := dropped after
              rw [List.length_cons] at shorter
              omega
  | cons q behind =>
      rw [List.cons_append, List.cons_append, passKey, passKey]
      split
      · exact .of_next tail tail'
      · rw [blanks behind tail, blanks behind tail']
        cases dropBlanks behind with
        | nil =>
            have notColon : c ≠ Byte.colon := by
              rintro rfl
              exact notInert (by decide)
            dsimp only [List.nil_append]
            rw [if_pos notColon, if_pos notColon]
            exact .of_short tail tail' _ (Nat.lt_succ_self _)
        | cons d after =>
            dsimp only [List.cons_append]
            split
            · exact .of_next tail tail'
            · rw [blanks after tail, blanks after tail']
              refine ⟨fun same => Round.noConfusion same, fun same => ?_⟩
              have empty : dropBlanks after = [] :=
                List.append_cancel_right ((Round.stop.inj same).trans (List.nil_append _).symm)
              rw [empty, List.nil_append]

omit notInert in
theorem passByte_swaps (d : Byte) (front : List Byte) (inString : Bool) (level : Int) :
    Swaps c tail tail' (passByte d (front ++ c :: tail) inString level)
      (passByte d (front ++ c :: tail') inString level) := by
  rw [passByte, passByte]
  split
  · exact .of_next tail tail'
  split
  · cases inString with
    | false => exact .of_next tail tail'
    | true =>
        cases front with
        | nil => exact .of_short tail tail' _ (Nat.lt_succ_self _)
        | cons e front => exact .of_next tail tail'
  split
  · exact .of_next tail tail'
  split
  · split
    · exact .of_next tail tail'
    split
    · exact .of_other tail tail' (fun _ => Round.noConfusion) fun _ => Round.noConfusion
    · exact .of_next tail tail'
  · exact .of_next tail tail'

omit notInert in
theorem passByte_ne_stop (d : Byte) (tail value : List Byte) (inString : Bool) (level : Int) :
    passByte d tail inString level ≠ .stop value := by
  rw [passByte]
  split
  · exact Round.noConfusion
  split
  · exact Round.noConfusion
  split
  · exact Round.noConfusion
  split
  · split
    · exact Round.noConfusion
    split
    · exact Round.noConfusion
    · exact Round.noConfusion
  · exact Round.noConfusion

theorem round_swaps (front : List Byte) (inString : Bool) (level : Int) :
    Swaps c tail tail' (round k.bytes ⟨front ++ c :: tail, inString, level⟩)
      (round k.bytes ⟨front ++ c :: tail', inString, level⟩) := by
  have reach : ∀ tail, k.bytes <+: front ++ c :: tail ↔ k.bytes <+: front :=
    fun tail => k.prefix_append_iff (.cons notInert tail) front
  cases front with
  | nil =>
      refine ⟨@fun front inString' level' same => ?_, fun same => ?_⟩
      · have shorter : (front ++ c :: tail).length < (c :: tail).length := round_shortens same
        rw [List.length_append] at shorter
        omega
      · have none : ¬ k.bytes <+: c :: tail := k.not_prefix_cons notInert tail
        rw [List.nil_append, round] at same
        dsimp only at same
        rw [if_neg none] at same
        exact absurd same (passByte_ne_stop _ _ _ _ _)
  | cons d front =>
      rw [round, round]
      dsimp only [List.cons_append] at reach ⊢
      by_cases starts : k.bytes <+: d :: front
      · rw [if_pos ((reach tail).mpr starts), if_pos ((reach tail').mpr starts)]
        split
        · exact .of_next tail tail'
        · have behind : ∀ tail, (d :: (front ++ c :: tail)).drop k.bytes.length =
              (d :: front).drop k.bytes.length ++ c :: tail :=
            fun tail => List.drop_append_of_le_length starts.length_le
          rw [behind, behind]
          exact passKey_swaps notInert tail tail' inString level _
      · rw [if_neg fun h => starts ((reach tail).mp h), if_neg fun h => starts ((reach tail').mp h)]
        exact passByte_swaps tail tail' d front inString level

/-- **A key scan that stops at a value stops there whatever comes behind the first byte of the
value.** -/
theorem scan_swap {place : Place} (stopped : scan k.bytes place = .stopped (c :: tail))
    {front : List Byte} (split : place.rest = front ++ c :: tail) :
    scan k.bytes { place with rest := front ++ c :: tail' } = .stopped (c :: tail') := by
  induction place, stopped using scan_stopped_induct generalizing front with
  | next place next step stopped ih =>
      obtain ⟨rest, inString, level⟩ := place
      obtain ⟨front', split'⟩ := scan_suffix stopped
      obtain ⟨rest', inString', level'⟩ := next
      change front' ++ c :: tail = rest' at split'
      change rest = front ++ c :: tail at split
      subst split split'
      have step' := (round_swaps k notInert tail tail' front inString level).next step
      rw [scan_eq_of_next step']
      exact ih rfl
  | stop place step =>
      obtain ⟨rest, inString, level⟩ := place
      change rest = front ++ c :: tail at split
      subst split
      exact scan_eq_stopped ((round_swaps k notInert tail tail' front inString level).stop step)

end Swap

/-! ## Strings in a text that is cut off -/

/-- What is stored of a string without escapes: its characters, as far as the text has them. -/
theorem storedAt_string {chars : List Byte} (plain : ∀ b ∈ chars, IsPlain b) (more : List Byte)
    (n : Nat) :
    storedAt (Byte.quote :: (chars ++ Byte.quote :: more).take n) = chars.take n := by
  have stores : ∀ bytes : List Byte, (∀ b ∈ bytes, IsPlain b) →
      Stores false true ⟨false, true, 0⟩ bytes ⟨false, true, 0⟩ :=
    fun bytes plain => .of_forall fun b member => valueRound_plain (.inr rfl) 0 (plain b member)
  rw [storedAt, extractAt_quote]
  rcases Nat.le_total n chars.length with le | le
  · -- the text is cut off in the string
    have front : ∀ b ∈ chars.take n, IsPlain b :=
      fun b member => plain b (List.mem_of_mem_take member)
    rw [List.take_append_of_le_length le, List.length_cons]
    have written := stores _ front 1 []
    rw [List.append_nil, extract_nil] at written
    rw [written]
    exact List.append_nil _
  · obtain ⟨left, rfl⟩ := Nat.exists_eq_add_of_le le
    rw [List.take_length_add_append, List.take_of_length_le le]
    have room : (Byte.quote :: (chars ++ (Byte.quote :: more).take left)).length =
        chars.length + (((Byte.quote :: more).take left).length + 1) := by
      simp only [List.length_cons, List.length_append]
      omega
    rw [room, stores chars plain]
    cases left with
    | zero => exact List.append_nil _
    | succ left =>
        rw [List.take_succ_cons, extract]
        exact List.append_nil _

/-- **A string is found in a text that is cut off if its characters are there.** The whole text has
a string without escapes behind the key; the lookup in its first `n` bytes stores all of the string
if and only if the string's last character is one of them. -/
theorem storedText_take_iff (k : PlainKey) {text front chars more : List Byte}
    (split : text = front ++ Byte.quote :: (chars ++ Byte.quote :: more))
    (stopped : scan k.bytes ⟨text, false, 0⟩ =
      .stopped (Byte.quote :: (chars ++ Byte.quote :: more)))
    (plain : ∀ b ∈ chars, IsPlain b) {room : Nat} (fits : chars.length ≤ room) (n : Nat) :
    (∃ stored, storedText k.bytes (text.take n) = some stored ∧ stored.take room = chars) ↔
      front.length + 1 + chars.length ≤ n := by
  have notInert : ¬ IsInert Byte.quote := by decide
  have whole : (text.take n) ++ text.drop n = text := List.take_append_drop n text
  constructor
  · rintro ⟨stored, stores, same⟩
    obtain ⟨value, stops, some, rfl⟩ := storedText_some stores
    -- the scan of the whole text stops at the same place
    have goesOn : scan k.bytes ⟨text.take n ++ text.drop n, false, 0⟩ = _ :=
      scan_append stops some (text.drop n)
    rw [whole, stopped] at goesOn
    have rest : Byte.quote :: (chars ++ Byte.quote :: more) = value ++ text.drop n :=
      ScanEnd.stopped.inj goesOn
    obtain ⟨before, cutOff⟩ := scan_suffix stops
    change before ++ value = text.take n at cutOff
    have place : before = front := by
      rw [← cutOff, List.append_assoc, ← rest] at whole
      exact List.append_cancel_right (whole.trans split)
    obtain ⟨q, behind, rfl⟩ := List.exists_cons_of_ne_nil some
    obtain ⟨rfl, tails⟩ := List.cons.inj rest
    have inside : chars ++ Byte.quote :: more = behind ++ text.drop n := tails
    have isPrefix : behind = (chars ++ Byte.quote :: more).take behind.length := by
      rw [inside, List.take_left]
    rw [isPrefix, storedAt_string plain] at same
    have long := congrArg List.length same
    have cut := congrArg List.length cutOff
    simp only [List.length_take, List.length_append, List.length_cons, place] at long cut
    omega
  · intro inside
    obtain ⟨left, rfl⟩ := Nat.exists_eq_add_of_le inside
    have cut : text.take (front.length + 1 + chars.length + left) =
        front ++ Byte.quote :: (chars ++ Byte.quote :: more).take (chars.length + left) := by
      rw [split, Nat.add_assoc, Nat.add_assoc, List.take_length_add_append, Nat.add_comm 1,
        List.take_succ_cons]
    have stops := scan_swap k notInert _ ((chars ++ Byte.quote :: more).take (chars.length + left))
      stopped split
    have all : chars.take (chars.length + left) = chars :=
      List.take_of_length_le (Nat.le_add_right _ _)
    rw [cut]
    refine ⟨_, storedText_of_stopped stops (List.cons_ne_nil _ _), ?_⟩
    rw [storedAt_string plain, all, List.take_of_length_le fits]

/-! ## Documents -/

/-- **A lookup in a document** stores what there is to store, and returns whether there is
anything. -/
theorem lookup_document_stored (k : WordKey) (d : Document) (buffer : List Byte) (size : Int) :
    simpleJsonProcessor d.string k.key (some buffer) size =
      .ok ⟨(storedText k.bytes d.text).isSome.toNat,
        some (storeInto buffer size (storedText k.bytes d.text))⟩ := by
  obtain ⟨scanned, notOverread⟩ := scan_document_append k d
  have scanned' : scan k.key.bytes ⟨d.string.bytes, false, 0⟩ = _ := scanned
  rw [simpleJsonProcessor_eq _ k.nonempty, storedText, scanned', scanned]
  cases ended : scan k.bytes ⟨d.object.text, false, 0⟩ with
  | absent => rfl
  | malformed => rfl
  | overread => exact absurd ended notOverread
  | stopped text =>
      have inside := inside_of_stopped k ended
      have stops := extractAt_stops inside (size - 1).toNat
      have some : text ++ d.after.text ≠ [] :=
        List.append_ne_nil_of_left_ne_nil inside.closed.ne_nil _
      have goesOn : (extractAt (size - 1).toNat (text ++ d.after.text)).rest ≠ [] := by
        rw [extractAt_append inside.closed.ne_nil stops]
        exact List.append_ne_nil_of_left_ne_nil stops _
      dsimp only [ScanEnd.append]
      rw [if_neg some, lookUpAt_some buffer size some, if_neg goesOn, extractAt_take]
      rfl

end ParseEmbedded.SimpleJson
