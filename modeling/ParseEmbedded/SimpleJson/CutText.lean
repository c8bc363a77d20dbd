import ParseEmbedded.SimpleJson.ValueScan

/-!
# Lookups in a text that is cut off

A lookup that returns 1 has not come to the end of its text, so it finds the same in every text
that goes on behind it (`lookup_of_cut`). The key scan compares and skips ahead of the place it
is at, but a place from which it still comes to a value has the whole key behind it.
-/

set_option autoImplicit false

namespace ParseEmbedded.SimpleJson

/-! ## The key scan -/

/-- In front of a value stands the key with a quote behind it. -/
theorem scan_stopped_long {key : List Byte} {place : Place} {value : List Byte}
    (stopped : scan key place = .stopped value) : key.length < place.rest.length := by
  induction place, stopped using scan_stopped_induct with
  | next place next step stopped ih => exact Nat.lt_trans ih (round_shortens step)
  | stop place step =>
      obtain ⟨rest, inString, level⟩ := place
      cases rest with
      | nil => cases step
      | cons c tail =>
          rw [round] at step
          dsimp only at step ⊢
          split at step
          · split at step
            · cases step
            · by_contra short
              rw [List.drop_eq_nil_of_le (Nat.le_of_not_lt short)] at step
              cases step
          · rw [passByte] at step
            repeat' split at step
            all_goals cases step

theorem dropBlanks_append {text : List Byte} (some : dropBlanks text ≠ []) (more : List Byte) :
    dropBlanks (text ++ more) = dropBlanks text ++ more := by
  rw [dropBlanks, dropBlanks, List.dropWhile_append, if_neg]
  simpa [dropBlanks] using some

/-- The round leads to a place or a value inside the text. -/
def Round.Inside : Round → Prop
  | .next place => place.rest ≠ []
  | .stop value => value ≠ []
  | .malformed => False
  | .overread => False

/-- The round in a text that goes on. -/
def Round.append (more : List Byte) : Round → Round
  | .next place => .next { place with rest := place.rest ++ more }
  | .stop value => .stop (value ++ more)
  | .malformed => .malformed
  | .overread => .overread

theorem passByte_append {c : Byte} {tail : List Byte} {inString : Bool} {level : Int}
    (inside : (passByte c tail inString level).Inside) (more : List Byte) :
    passByte c (tail ++ more) inString level = (passByte c tail inString level).append more := by
  rw [passByte] at inside ⊢
  rw [passByte]
  split
  · rfl
  split
  · rename_i notQuote backslash
    rw [if_neg notQuote, if_pos backslash] at inside
    cases inString with
    | false => rfl
    | true =>
        -- the escaped byte is there, since something is left behind it
        have some : tail ≠ [] := by
          rintro rfl
          exact inside rfl
        simp only [if_true, Round.append]
        rw [List.tail_append_of_ne_nil some]
  split
  · rfl
  split
  · split
    · rfl
    split
    · rfl
    · rfl
  · rfl

theorem passKey_append {behind : List Byte} {inString : Bool} {level : Int}
    (inside : (passKey inString level behind).Inside) (more : List Byte) :
    passKey inString level (behind ++ more) = (passKey inString level behind).append more := by
  cases behind with
  | nil => exact inside.elim
  | cons c tail =>
      rw [passKey] at inside
      rw [List.cons_append, passKey, passKey]
      split
      · rfl
      · rename_i quote
        rw [if_neg quote] at inside
        cases colon : dropBlanks tail with
        | nil =>
            rw [colon] at inside
            exact inside.elim
        | cons d after =>
            rw [colon] at inside
            rw [dropBlanks_append (colon ▸ List.cons_ne_nil d after), colon, List.cons_append]
            dsimp only at inside ⊢
            split
            · rfl
            · rename_i isColon
              rw [if_neg isColon] at inside
              rw [dropBlanks_append inside]
              rfl

theorem prefix_append_iff {key text : List Byte} (long : key.length ≤ text.length)
    (more : List Byte) : key <+: text ++ more ↔ key <+: text := by
  constructor
  · exact fun isPrefix => List.prefix_of_prefix_length_le isPrefix (List.prefix_append ..) long
  · exact fun isPrefix => isPrefix.trans (List.prefix_append ..)

/-- A round with the whole key in front of it does not look at what follows the text. -/
theorem round_append {key : List Byte} {place : Place} (long : key.length ≤ place.rest.length)
    (inside : (round key place).Inside) (more : List Byte) :
    round key { place with rest := place.rest ++ more } = (round key place).append more := by
  obtain ⟨rest, inString, level⟩ := place
  cases rest with
  | nil => exact inside.elim
  | cons c tail =>
      have same := prefix_append_iff long more
      have behind : (c :: tail ++ more).drop key.length = (c :: tail).drop key.length ++ more :=
        List.drop_append_of_le_length long
      rw [List.cons_append] at same behind
      rw [round] at inside ⊢
      rw [round]
      dsimp only [List.cons_append] at inside ⊢
      by_cases starts : key <+: c :: tail
      · rw [if_pos starts] at inside
        rw [if_pos starts, if_pos (same.mpr starts), behind]
        split
        · rfl
        · rename_i outer
          rw [if_neg outer] at inside
          exact passKey_append inside more
      · rw [if_neg starts] at inside
        rw [if_neg starts, if_neg (fun h => starts (same.mp h))]
        exact passByte_append inside more

/-- **A key scan that comes to a value does not look at what follows the text.** -/
theorem scan_append {key : List Byte} {place : Place} {value : List Byte}
    (stopped : scan key place = .stopped value) (some : value ≠ []) (more : List Byte) :
    scan key { place with rest := place.rest ++ more } = .stopped (value ++ more) := by
  have long := scan_stopped_long stopped
  induction place, stopped using scan_stopped_induct with
  | next place next step stopped ih =>
      have inside : (round key place).Inside := by
        rw [step]
        intro empty
        obtain ⟨rest, inString, level⟩ := next
        subst empty
        rw [scan_nil] at stopped
        cases stopped
      have step' := round_append (Nat.le_of_lt long) inside more
      rw [step] at step'
      rw [scan_eq_of_next step']
      exact ih (scan_stopped_long stopped)
  | stop place step =>
      have inside : (round key place).Inside := by
        rw [step]
        exact some
      have step' := round_append (Nat.le_of_lt long) inside more
      rw [step] at step'
      exact scan_eq_stopped step'

/-! ## Lookups -/

theorem isJson_append {text : List Byte} (some : text ≠ []) (more : List Byte) :
    isJson (text ++ more) = isJson text ∧ endsWithQuote (text ++ more) = endsWithQuote text := by
  cases text with
  | nil => exact absurd rfl some
  | cons c tail => exact ⟨rfl, rfl⟩

theorem extractAt_append {room : Nat} {text : List Byte} (some : text ≠ [])
    (stops : (extractAt room text).rest ≠ []) (more : List Byte) :
    extractAt room (text ++ more) =
      { extractAt room text with rest := (extractAt room text).rest ++ more } := by
  obtain ⟨json, quote⟩ := isJson_append some more
  have start : (if endsWithQuote text then (text ++ more).tail else text ++ more) =
      (if endsWithQuote text then text.tail else text) ++ more := by
    split
    · rw [List.tail_append_of_ne_nil some]
    · rfl
  rw [extractAt, json, quote, start]
  exact extract_append _ _ more room stops

/-- A lookup that returns 1 finds the same in every text that goes on. -/
theorem lookup_append {d key : CString} {value : Option (List Byte)} {size : Int}
    {lookup : Lookup} (done : simpleJsonProcessor d key value size = .ok lookup)
    (found : lookup.result = 1) (x : CString) :
    simpleJsonProcessor (d.append x) key value size = .ok lookup := by
  rcases lookup_cases done with ⟨-, rfl⟩ | ⟨text, some, -, ⟨extracts, scanned⟩, rfl⟩
  · cases found
  · have scanned' : scan key.bytes ⟨(d.append x).bytes, false, 0⟩ = .stopped (text ++ x.bytes) :=
      scan_append scanned some x.bytes
    have some' : text ++ x.bytes ≠ [] := List.append_ne_nil_of_left_ne_nil some _
    rw [simpleJsonProcessor_eq _ extracts.1, scanned']
    dsimp only
    cases value with
    | none => rw [lookUpAt, lookUpAt, if_neg some, if_neg some']
    | some buffer =>
        rw [lookUpAt_some buffer size some] at found ⊢
        have stops : (extractAt (size - 1).toNat text).rest ≠ [] := by
          intro empty
          rw [if_pos empty] at found
          cases found
        have stops' : (extractAt (size - 1).toNat text).rest ++ x.bytes ≠ [] :=
          List.append_ne_nil_of_left_ne_nil stops _
        rw [lookUpAt_some buffer size some', extractAt_append some stops, if_neg stops,
          if_neg stops']

/-- What a lookup that returns 1 leaves in its buffer. -/
theorem written_of_found {data key : CString} {buffer after : List Byte} {size : Int}
    (found : simpleJsonProcessor data key (some buffer) size = .ok ⟨1, some after⟩) :
    ∃ text, Byte.nul ∉ text ∧ after = overwrite buffer (text ++ [Byte.nul]) := by
  rcases lookup_cases found with ⟨-, same⟩ | ⟨text, some, noNul, -, same⟩
  · cases same
  · rw [lookUpAt_some buffer size some] at same
    exact ⟨_, (extractAt_written _ noNul).1, Option.some.inj (Lookup.mk.inj same).2⟩

/-- The string behind the first byte of one that is not empty. -/
theorem ofMemory_drop_one {text : List Byte} (noNul : Byte.nul ∉ text) (some : text ≠ [])
    (buffer : List Byte) :
    CString.ofMemory ((overwrite buffer (text ++ [Byte.nul])).drop 1) =
      ⟨text.tail, fun member => noNul (List.mem_of_mem_tail member)⟩ := by
  obtain ⟨c, tail, rfl⟩ := List.exists_cons_of_ne_nil some
  refine CString.ext_bytes ?_
  rw [overwrite, List.append_assoc]
  exact CString.ofMemory_append_nul (fun member => noNul (List.mem_cons_of_mem c member)) _

/-- **What is found in a text that is cut off is what is found in the whole text.** This holds of a
response, and of the array of results that is taken out of it, where the lookup goes on in an
array that the size of the buffer has cut off. -/
theorem lookup_of_cut :
    (∀ (d x key : CString) (value : Option (List Byte)) (size : Int) (lookup : Lookup),
      simpleJsonProcessor d key value size = .ok lookup → lookup.result = 1 →
        simpleJsonProcessor (d.append x) key value size = .ok lookup) ∧
    ∀ (response more results key : CString) (n m : Int) (buffer buffer' cut whole : List Byte)
      (value : Option (List Byte)) (size : Int) (lookup : Lookup), n ≤ m →
      simpleJsonProcessor response results (some buffer) n = .ok ⟨1, some cut⟩ →
      simpleJsonProcessor (response.append more) results (some buffer') m =
        .ok ⟨1, some whole⟩ →
      (CString.ofMemory cut).bytes ≠ [] →
      simpleJsonProcessor (CString.ofMemory (cut.drop 1)) key value size = .ok lookup →
      lookup.result = 1 →
        simpleJsonProcessor (CString.ofMemory (whole.drop 1)) key value size = .ok lookup := by
  refine ⟨fun d x key value size lookup done found => lookup_append done found x, ?_⟩
  intro response more results key n m buffer buffer' cut whole value size lookup le cutIs wholeIs
    nonempty done found
  obtain ⟨w, noNul, rfl⟩ := written_of_found wholeIs
  have wIs : CString.ofMemory (overwrite buffer' (w ++ [Byte.nul])) = ⟨w, noNul⟩ := by
    refine CString.ext_bytes ?_
    rw [overwrite, List.append_assoc]
    exact CString.ofMemory_append_nul noNul _
  -- the array that is cut off is the beginning of the array
  have cutOff : simpleJsonProcessor (response.append more) results (some buffer) n = _ :=
    (lookup_truncates le wholeIs).1
  rw [lookup_append cutIs rfl more, wIs] at cutOff
  have noNulCut : Byte.nul ∉ w.take (n - 1).toNat :=
    fun member => noNul (List.mem_of_mem_take member)
  obtain rfl : cut = overwrite buffer (w.take (n - 1).toNat ++ [Byte.nul]) :=
    Option.some.inj (Lookup.mk.inj (Except.ok.inj cutOff)).2
  have someCut : w.take (n - 1).toNat ≠ [] := by
    rw [overwrite, List.append_assoc] at nonempty
    exact CString.ofMemory_append_nul noNulCut _ ▸ nonempty
  have some : w ≠ [] := by
    rintro rfl
    exact someCut List.take_nil
  rw [ofMemory_drop_one noNulCut someCut] at done
  rw [ofMemory_drop_one noNul some]
  have whole := lookup_append done found
    ⟨w.drop (n - 1).toNat, fun member => noNul (List.mem_of_mem_drop member)⟩
  have joined : (w.take (n - 1).toNat).tail ++ w.drop (n - 1).toNat = w.tail := by
    rw [← List.tail_append_of_ne_nil someCut, List.take_append_drop]
  convert whole using 2
  exact CString.ext_bytes joined.symm

section Example

/-- A response that is cut off in its array of results, and the rest of it. -/
def exampleResponse : CString :=
  CString.literal "\x7b\"results\":[\x7b\"objectId\":\"abc\",\"x\":1\x7d,"

def exampleMore : CString := CString.literal "2]\x7d"

def exampleArray : List Byte := ascii "[\x7b\"objectId\":\"abc\",\"x\":1\x7d,2]"

theorem lookup_of_cut_example :
    simpleJsonProcessor (CString.ofMemory ((exampleArray ++ [Byte.nul]).drop 1))
        (CString.literal "objectId") (some (List.replicate 8 7)) 8 =
      .ok ⟨1, some (ascii "abc" ++ [Byte.nul, 7, 7, 7, 7])⟩ := by
  have cutIs : simpleJsonProcessor exampleResponse (CString.literal "results")
      (some (List.replicate 20 7)) 20 =
        .ok ⟨1, some (ascii "[\x7b\"objectId\":\"abc\"," ++ [Byte.nul])⟩ := by
    decide +kernel
  have wholeIs : simpleJsonProcessor (exampleResponse.append exampleMore)
      (CString.literal "results") (some (List.replicate 29 7)) 29 =
        .ok ⟨1, some (exampleArray ++ [Byte.nul])⟩ := by
    decide +kernel
  exact lookup_of_cut.2 exampleResponse exampleMore _ _ 20 29 _ _ _ _ _ _ _ (by decide) cutIs
    wholeIs (by decide +kernel) (by decide +kernel) rfl

end Example

end ParseEmbedded.SimpleJson
