import ParseEmbedded.SimpleJson.ValueScan

/-!
# What a failed lookup leaves behind

Whether a value is complete is known at its last byte, and by then the value loop has stored all
the bytes in front of it. So a lookup can fail after it has written: where the text ends before
the value does, and the buffer has room for what there is of it, the buffer holds these bytes and
a zero when `simpleJsonProcessor` returns 0. Everywhere else a failed lookup has written nothing
(`failed_lookup_keeps_iff`).
-/

set_option autoImplicit false

namespace ParseEmbedded.SimpleJson

/-! ## Values that do not end -/

/-- The value loop goes on behind every byte of the text. -/
def GoesOn (json endWithQuote : Bool) : ValuePlace → List Byte → Prop
  | _, [] => True
  | place, c :: tail =>
      ∃ next, valueRound json endWithQuote place c = .store next ∧
        GoesOn json endWithQuote next tail

/-- The text of a value without the quote it starts with. -/
def valueBody (text : List Byte) : List Byte := if endsWithQuote text then text.tail else text

/-- None of the bytes ends the value that starts here. -/
def Unended (text : List Byte) : Prop :=
  GoesOn (isJson text) (endsWithQuote text) ⟨false, !isJson text, 0⟩ (valueBody text)

/-- The bytes that no backslash escapes. -/
def unescaped : Bool → List Byte → List Byte
  | _, [] => []
  | true, _ :: tail => unescaped false tail
  | false, c :: tail => c :: unescaped (c = Byte.backslash) tail

/-- The bytes that end a value which starts with neither a quote nor a bracket. -/
def EndsWord (c : Byte) : Prop :=
  c = Byte.closeBrace ∨ c = Byte.closeBracket ∨ c = Byte.quote ∨ c = Byte.comma

instance (c : Byte) : Decidable (EndsWord c) := inferInstanceAs (Decidable (_ ∨ _))

/-- A byte of a string or of a word: it ends the value, or the place is as before but for the
backslash. -/
theorem valueRound_flat (endWithQuote : Bool) (c : Byte) :
    valueRound false endWithQuote ⟨false, true, 0⟩ c =
      if (if endWithQuote then c = Byte.quote else EndsWord c) then .stop
      else .store ⟨c = Byte.backslash, true, 0⟩ := by
  rw [valueRound]
  cases endWithQuote with
  | true =>
      by_cases quote : c = Byte.quote
      · subst quote
        decide
      · by_cases opens : c = Byte.openBrace ∨ c = Byte.openBracket
        · rcases opens with rfl | rfl <;> decide
        · by_cases others : c = Byte.closeBrace ∨ c = Byte.closeBracket ∨ c = Byte.comma
          · rcases others with rfl | rfl | rfl <;> decide
          · simp_all
  | false =>
      by_cases ends : EndsWord c
      · rcases ends with rfl | rfl | rfl | rfl <;> decide
      · by_cases opens : c = Byte.openBrace ∨ c = Byte.openBracket
        · rcases opens with rfl | rfl <;> decide
        · simp_all [EndsWord]

/-- **A string or a word does not end** if none of its bytes that are not escaped ends it. -/
theorem goesOn_flat_iff (endWithQuote : Bool) (text : List Byte) :
    ∀ backslash : Bool, GoesOn false endWithQuote ⟨backslash, true, 0⟩ text ↔
      ∀ c ∈ unescaped backslash text, ¬ if endWithQuote then c = Byte.quote else EndsWord c := by
  induction text with
  | nil =>
      intro backslash
      cases backslash <;> simp [GoesOn, unescaped]
  | cons c tail ih =>
      intro backslash
      cases backslash with
      | true =>
          rw [GoesOn, unescaped, ← ih false]
          simp [valueRound]
      | false =>
          rw [GoesOn, unescaped, valueRound_flat, List.forall_mem_cons, ← ih]
          by_cases ends : if endWithQuote then c = Byte.quote else EndsWord c
          · simp [ends]
          · simp [ends]

/-- A string does not end if it has no quote that is not escaped. -/
theorem unended_string_iff (body : List Byte) :
    Unended (Byte.quote :: body) ↔ Byte.quote ∉ unescaped false body := by
  have flat := goesOn_flat_iff true body false
  simp only [if_true] at flat
  exact flat.trans ⟨fun none member => none _ member rfl,
    fun notMem c member same => notMem (same ▸ member)⟩

/-- A word does not end without a comma, a quote or a closing bracket. -/
theorem unended_word_iff {c : Byte} (notQuote : c ≠ Byte.quote) (notBrace : c ≠ Byte.openBrace)
    (notBracket : c ≠ Byte.openBracket) (tail : List Byte) :
    Unended (c :: tail) ↔ ∀ b ∈ unescaped false (c :: tail), ¬ EndsWord b := by
  have json : isJson (c :: tail) = false := by simp [isJson, notBrace, notBracket]
  have quote : endsWithQuote (c :: tail) = false := by simp [endsWithQuote, notQuote]
  rw [Unended, valueBody, json, quote]
  exact goesOn_flat_iff false (c :: tail) false

/-! ## The value loop at the end of the text -/

/-- **The loop comes to the end of the text** if the value does not end and there is room for all
of it. -/
theorem extract_rest_nil_iff (json endWithQuote : Bool) (room : Nat) :
    ∀ (place : ValuePlace) (text : List Byte),
      (extract json endWithQuote room place text).rest = [] ↔
        GoesOn json endWithQuote place text ∧ text.length ≤ room := by
  induction room with
  | zero =>
      intro place text
      cases text with
      | nil => simp [GoesOn]
      | cons c tail => simp
  | succ room ih =>
      intro place text
      cases text with
      | nil => simp [GoesOn]
      | cons c tail =>
          rw [extract, GoesOn, List.length_cons, Nat.add_le_add_iff_right]
          cases step : valueRound json endWithQuote place c with
          | store next => simpa [Extracted.put] using ih next tail
          | stop => simp
          | close => simp
          | malformed => simp

/-- Then it has stored all of it. -/
theorem extract_written_all (json endWithQuote : Bool) {room : Nat} : ∀ {place : ValuePlace}
    {text : List Byte}, (extract json endWithQuote room place text).rest = [] →
      (extract json endWithQuote room place text).written = text := by
  induction room with
  | zero =>
      intro place text ended
      rw [extract_zero] at ended ⊢
      exact ended.symm
  | succ room ih =>
      intro place text ended
      cases text with
      | nil => rw [extract_nil]
      | cons c tail =>
          rw [extract] at ended ⊢
          cases step : valueRound json endWithQuote place c with
          | store next =>
              rw [step] at ended
              exact congrArg (List.cons c) (ih ended)
          | stop =>
              rw [step] at ended
              cases ended
          | close =>
              rw [step] at ended
              cases ended
          | malformed =>
              rw [step] at ended
              cases ended

theorem overwrite_eq_self_iff (buffer bytes : List Byte) :
    overwrite buffer bytes = buffer ↔ bytes <+: buffer := by
  constructor
  · exact fun same => ⟨buffer.drop bytes.length, same⟩
  · rintro ⟨rest, rfl⟩
    rw [overwrite, List.drop_left]

/-! ## Failed lookups -/

/-- The key scan comes to a value, and this is the text from its first byte on. -/
def ValueStarts (data key : CString) (text : List Byte) : Prop :=
  key.bytes ≠ [] ∧ text ≠ [] ∧ scan key.bytes ⟨data.bytes, false, 0⟩ = .stopped text

/-- **When a failed lookup leaves the buffer alone.** The key has no value, or its value ends, or
there is no room for all that the text has of it, or the buffer holds just these bytes and a zero
already. -/
theorem failed_lookup_keeps_iff (data key : CString) (buffer : List Byte) (size : Int) :
    (∀ lookup, simpleJsonProcessor data key (some buffer) size = .ok lookup →
      lookup.result = 0 → lookup.value = some buffer) ↔
    ∀ text, ValueStarts data key text → Unended text →
      (valueBody text).length ≤ (size - 1).toNat → valueBody text ++ [Byte.nul] <+: buffer := by
  have atEnd : ∀ text, (extractAt (size - 1).toNat text).rest = [] ↔
      Unended text ∧ (valueBody text).length ≤ (size - 1).toNat :=
    fun text => extract_rest_nil_iff _ _ _ _ _
  have stored : ∀ text, (extractAt (size - 1).toNat text).rest = [] →
      (extractAt (size - 1).toNat text).written = valueBody text :=
    fun text => extract_written_all _ _
  constructor
  · rintro keeps text ⟨nonempty, some, scanned⟩ unended short
    have rest := (atEnd text).mpr ⟨unended, short⟩
    have done : simpleJsonProcessor data key (.some buffer) size =
        .ok (lookUpAt (.some buffer) size text) := by
      rw [simpleJsonProcessor_eq data nonempty, scanned]
    rw [lookUpAt_some buffer size some, if_pos rest, stored text rest] at done
    exact (overwrite_eq_self_iff ..).mp (Option.some.inj (keeps _ done rfl))
  · intro fits lookup done failed
    rcases lookup_cases done with ⟨-, rfl⟩ | ⟨text, some, -, ⟨extracts, scanned⟩, rfl⟩
    · rfl
    · rw [lookUpAt_some buffer size some] at failed ⊢
      have rest : (extractAt (size - 1).toNat text).rest = [] := by
        by_contra goesOn
        rw [if_neg goesOn] at failed
        cases failed
      obtain ⟨unended, short⟩ := (atEnd text).mp rest
      rw [stored text rest]
      exact congrArg Option.some ((overwrite_eq_self_iff ..).mpr
        (fits text ⟨extracts.1, some, scanned⟩ unended short))

/-- `{"objectId":"ab`: the lookup fails, and the buffer holds `ab`. -/
theorem failed_lookup_counterexample :
    ¬ ∀ (data key : CString) (buffer : List Byte) (size : Int) (lookup : Lookup),
      simpleJsonProcessor data key (some buffer) size = .ok lookup → lookup.result = 0 →
        lookup.value = some buffer := by
  intro keeps
  have fails : simpleJsonProcessor (CString.literal "\x7b\"objectId\":\"ab")
      (CString.literal "objectId") (some [120, 121, 122, 0]) 4 =
        .ok ⟨0, some (ascii "ab" ++ [Byte.nul, 0])⟩ := by
    decide +kernel
  have same := keeps _ _ _ _ _ fails rfl
  revert same
  decide +kernel

end ParseEmbedded.SimpleJson
