import ParseEmbedded.Json.Spots
import ParseEmbedded.SimpleJson.CutText
import ParseEmbedded.SimpleJson.PassingKeys
import ParseEmbedded.SimpleJson.Values

/-!
# Lookups in an object with blanks around it

The blanks around an object make no difference to a lookup (`lookup_document`). The key scan runs
through those in front. Those behind it reaches only when it has failed, since a key that ends in a
word has a quote and a colon behind it where the scan stops, and the object goes on from there; and
the value loop stops in front of the object's last byte, since it starts between words.
-/

set_option autoImplicit false

namespace ParseEmbedded.SimpleJson

open Json

/-- A key of a word at least: its last byte does not stand between words. -/
structure WordKey extends PlainKey where
  front : List Byte
  last : Byte
  ends : key.bytes = front ++ [last]
  isWord : ¬ IsGap last

/-! ## Texts that end in a brace -/

/-- The text ends in a closing brace. -/
def Closed (text : List Byte) : Prop := ∃ front, text = front ++ [Byte.closeBrace]

theorem Closed.ne_nil {text : List Byte} (closed : Closed text) : text ≠ [] := by
  obtain ⟨front, rfl⟩ := closed
  exact List.append_ne_nil_of_right_ne_nil front (List.cons_ne_nil _ _)

theorem Closed.tail {c : Byte} {tail : List Byte} (closed : Closed (c :: tail)) :
    tail = [] ∧ c = Byte.closeBrace ∨ Closed tail := by
  obtain ⟨front, same⟩ := closed
  cases front with
  | nil =>
      cases same
      exact Or.inl ⟨rfl, rfl⟩
  | cons d front =>
      cases same
      exact Or.inr ⟨front, rfl⟩

/-- What is left behind another byte than a brace ends in the brace. -/
theorem Closed.behind {c : Byte} {tail : List Byte} (closed : Closed (c :: tail))
    (differs : c ≠ Byte.closeBrace) : Closed tail :=
  closed.tail.resolve_left fun ends => differs ends.2

theorem Closed.suffix {text rest : List Byte} (closed : Closed text) (suffix : rest <:+ text)
    (some : rest ≠ []) : Closed rest := by
  obtain ⟨front, rfl⟩ := closed
  rcases List.suffix_concat_iff.mp suffix with rfl | ⟨front, rfl, -⟩
  · exact absurd rfl some
  · exact ⟨front, rfl⟩

theorem Closed.dropBlanks {text : List Byte} (closed : Closed text) :
    Closed (dropBlanks text) := by
  refine closed.suffix (List.dropWhile_suffix _) fun none => ?_
  obtain ⟨front, rfl⟩ := closed
  have blank := List.dropWhile_eq_nil_iff.mp none Byte.closeBrace
    (List.mem_append_right front (List.mem_singleton_self _))
  revert blank
  decide

/-! ## The key scan in front of blanks -/

/-- The round leads to a place or a value that ends in the brace, or gives up. -/
def Round.Closes : Round → Prop
  | .next place => place.rest = [] ∨ Closed place.rest
  | .stop value => Closed value
  | .malformed => True
  | .overread => False

/-- The round of a text that ends in a brace is that of the text with more behind it. -/
def Goes (more : List Byte) (here there : Round) : Prop :=
  there = here.append more ∧ here.Closes

theorem passByte_goes {c : Byte} {tail : List Byte} (closed : Closed (c :: tail))
    (inString : Bool) (level : Int) (more : List Byte) :
    Goes more (passByte c tail inString level) (passByte c (tail ++ more) inString level) := by
  have ends : tail = [] ∨ Closed tail := closed.tail.imp_left And.left
  rw [passByte, passByte]
  split
  · exact ⟨rfl, ends⟩
  split
  · rename_i backslash
    obtain ⟨d, tail, rfl⟩ := List.exists_cons_of_ne_nil
      (closed.behind (backslash ▸ by decide)).ne_nil
    cases inString with
    | false => exact ⟨rfl, ends⟩
    | true =>
        refine ⟨rfl, ?_⟩
        exact (closed.behind (backslash ▸ by decide)).tail.imp_left And.left
  split
  · exact ⟨rfl, ends⟩
  split
  · split
    · exact ⟨rfl, ends⟩
    split
    · exact ⟨rfl, trivial⟩
    · exact ⟨rfl, ends⟩
  · exact ⟨rfl, ends⟩

theorem passKey_goes {behind : List Byte} (closed : Closed behind) (inString : Bool) (level : Int)
    (more : List Byte) :
    Goes more (passKey inString level behind) (passKey inString level (behind ++ more)) := by
  cases behind with
  | nil => exact absurd rfl closed.ne_nil
  | cons c tail =>
      have ends : tail = [] ∨ Closed tail := closed.tail.imp_left And.left
      rw [List.cons_append, passKey, passKey]
      split
      · exact ⟨rfl, ends⟩
      · rename_i quote
        have closed' := (closed.behind (not_not.mp quote ▸ by decide)).dropBlanks
        rw [dropBlanks_append closed'.ne_nil]
        cases colon : dropBlanks tail with
        | nil => exact absurd colon closed'.ne_nil
        | cons d after =>
            rw [colon] at closed'
            rw [List.cons_append]
            dsimp only
            split
            · exact ⟨rfl, closed'.tail.imp_left And.left⟩
            · rename_i isColon
              have value := (closed'.behind (not_not.mp isColon ▸ by decide)).dropBlanks
              rw [dropBlanks_append value.ne_nil]
              exact ⟨rfl, value⟩

/-- The end of the scan in a text that goes on. -/
def ScanEnd.append (more : List Byte) : ScanEnd → ScanEnd
  | .stopped value => .stopped (value ++ more)
  | ended => ended

section Scan

variable (k : WordKey)

/-- A key has no brace in it. -/
theorem WordKey.noBrace : Byte.closeBrace ∉ k.bytes := fun member =>
  absurd (k.inert _ member) (by decide)

theorem WordKey.prefix_append_iff {text : List Byte} (closed : Closed text) (more : List Byte) :
    k.bytes <+: text ++ more ↔ k.bytes <+: text := by
  refine ⟨fun starts => ?_, fun starts => starts.trans (List.prefix_append _ _)⟩
  rcases prefix_append_split starts with short | ⟨reach, same, -⟩
  · exact short
  · obtain ⟨front, rfl⟩ := closed
    refine absurd ?_ k.noBrace
    rw [same]
    exact List.mem_append_left _ (List.mem_append_right _ (List.mem_singleton_self _))

theorem round_goes {rest : List Byte} (closed : Closed rest) (inString : Bool) (level : Int)
    (more : List Byte) :
    Goes more (round k.bytes ⟨rest, inString, level⟩)
      (round k.bytes ⟨rest ++ more, inString, level⟩) := by
  cases rest with
  | nil => exact absurd rfl closed.ne_nil
  | cons c tail =>
      have same := k.prefix_append_iff closed more
      rw [List.cons_append] at same ⊢
      rw [round, round]
      dsimp only
      by_cases starts : k.bytes <+: c :: tail
      · rw [if_pos starts, if_pos (same.mpr starts)]
        split
        · exact ⟨rfl, closed.tail.imp_left And.left⟩
        · have long := starts.length_le
          have behind : Closed ((c :: tail).drop k.bytes.length) := by
            obtain ⟨left, isText⟩ := starts
            rw [← isText, List.drop_left]
            refine closed.suffix ⟨k.bytes, isText⟩ fun none => ?_
            rw [none, List.append_nil] at isText
            obtain ⟨front, isClosed⟩ := closed
            refine k.noBrace ?_
            rw [isText, isClosed]
            exact List.mem_append_right _ (List.mem_singleton_self _)
          rw [← List.cons_append, List.drop_append_of_le_length long]
          exact passKey_goes behind inString level more
      · rw [if_neg starts, if_neg (fun h => starts (same.mp h))]
        exact passByte_goes closed inString level more

/-- The key scan passes blanks. -/
theorem scan_blanks (blanks : Blanks) {rest : List Byte} (separates : Separates rest)
    (inString : Bool) (level : Int) :
    scan k.bytes ⟨blanks.text ++ rest, inString, level⟩ =
      scan k.bytes ⟨rest, inString, level⟩ := by
  induction blanks with
  | nil => rfl
  | cons blank blanks ih =>
      have differs : ¬ k.bytes <+: Blanks.text (blank :: blanks) ++ rest := by
        intro starts
        have inside := (k.toPlainKey.prefix_append_iff separates _).mp starts
        have member : k.last ∈ Blanks.text (blank :: blanks) := inside.subset (by
          rw [PlainKey.bytes, k.ends]
          exact List.mem_append_right _ (List.mem_singleton_self _))
        obtain ⟨blank', -, same⟩ := List.mem_map.mp member
        exact k.isWord (same ▸ Spot.isGap_blank blank')
      have inert : IsInert blank.byte := blank.word.1
      refine (scan_eq_of_next ?_).trans ih
      exact (round_pass k.toPlainKey differs).trans (passByte_inert _ inString level inert)

/-- **Blanks behind a text that ends in a brace change nothing for the key scan**, and a scan that
stops there stops in front of the brace. -/
theorem scan_append_blanks (blanks : Blanks) (place : Place)
    (ends : place.rest = [] ∨ Closed place.rest) :
    scan k.bytes { place with rest := place.rest ++ blanks.text } =
        (scan k.bytes place).append blanks.text ∧
      scan k.bytes place ≠ .overread ∧
      ∀ value, scan k.bytes place = .stopped value → Closed value := by
  induction place using scan.induct k.bytes with
  | case1 place empty =>
      obtain ⟨rest, inString, level⟩ := place
      cases empty
      have passed := scan_blanks k blanks Separates.nil inString level
      rw [List.append_nil] at passed
      rw [scan_nil] at passed ⊢
      exact ⟨passed, fun same => ScanEnd.noConfusion same, fun _ same => ScanEnd.noConfusion same⟩
  | case2 place nonempty next step ih =>
      have closed := ends.resolve_left nonempty
      obtain ⟨goes, closes⟩ := round_goes k closed place.inString place.jsonLevel blanks.text
      rw [step] at goes closes
      rw [scan_eq_of_next step, scan_eq_of_next goes]
      exact ih closes
  | case3 place nonempty step =>
      have closed := ends.resolve_left nonempty
      obtain ⟨goes, closes⟩ := round_goes k closed place.inString place.jsonLevel blanks.text
      rw [step] at goes
      rw [scan_eq_malformed nonempty step,
        scan_eq_malformed (List.append_ne_nil_of_left_ne_nil nonempty _) goes]
      exact ⟨rfl, fun same => ScanEnd.noConfusion same, fun _ same => ScanEnd.noConfusion same⟩
  | case4 place nonempty value step =>
      have closed := ends.resolve_left nonempty
      obtain ⟨goes, closes⟩ := round_goes k closed place.inString place.jsonLevel blanks.text
      rw [step] at goes closes
      rw [scan_eq_stopped step, scan_eq_stopped goes]
      refine ⟨rfl, fun same => ScanEnd.noConfusion same, fun value' same => ?_⟩
      cases same
      exact closes
  | case5 place nonempty step =>
      have closed := ends.resolve_left nonempty
      obtain ⟨-, closes⟩ := round_goes k closed place.inString place.jsonLevel blanks.text
      rw [step] at closes
      exact closes.elim

/-- A round that stops has the key, a quote and a colon in front of the value. -/
theorem round_stop {place : Place} {value : List Byte}
    (step : round k.bytes place = .stop value) :
    ∃ tail after, place.rest = k.bytes ++ Byte.quote :: tail ∧
      dropBlanks tail = Byte.colon :: after ∧ value = dropBlanks after := by
  obtain ⟨rest, inString, level⟩ := place
  cases rest with
  | nil => cases step
  | cons c tail =>
      rw [round] at step
      dsimp only at step ⊢
      by_cases starts : k.bytes <+: c :: tail
      swap
      · rw [if_neg starts, passByte] at step
        repeat' split at step
        all_goals cases step
      rw [if_pos starts] at step
      obtain ⟨behind, isText⟩ := starts
      rw [← isText, List.drop_left] at step
      split at step
      · cases step
      rw [← isText]
      cases behind with
      | nil => cases step
      | cons q tail =>
          rw [passKey] at step
          split at step
          · cases step
          rename_i quote
          cases colon : dropBlanks tail with
          | nil =>
              rw [colon] at step
              cases step
          | cons d after =>
              rw [colon] at step
              dsimp only at step
              split at step
              · cases step
              rename_i isColon
              refine ⟨tail, after, ?_, ?_, (Round.stop.inj step).symm⟩
              · rw [not_not.mp quote]
              · rw [colon, not_not.mp isColon]

/-- Where the scan stops it has come behind the key, a quote and a colon. -/
theorem scan_stopped_behind {place : Place} {value : List Byte}
    (stopped : scan k.bytes place = .stopped value) :
    ∃ front tail after, place.rest = front ++ (k.bytes ++ Byte.quote :: tail) ∧
      dropBlanks tail = Byte.colon :: after ∧ value = dropBlanks after := by
  induction place, stopped using scan_stopped_induct with
  | next place next step stopped ih =>
      obtain ⟨front, tail, after, isRest, rest⟩ := ih
      obtain ⟨passed, isText⟩ := round_suffix.1 next step
      refine ⟨passed ++ front, tail, after, ?_, rest⟩
      rw [← isText, isRest, List.append_assoc]
  | stop place step =>
      obtain ⟨tail, after, isRest, rest⟩ := round_stop k step
      exact ⟨[], tail, after, isRest, rest⟩

/-! ## The value -/

/-- A rest of an object that ends with it and starts between words, inside a bracket. -/
structure Inside (text : List Byte) : Prop where
  closed : Closed text
  reads : Spot.gap.reads text = some .gap
  depth : ∃ d, 0 < d ∧ brackets.after ⟨.text, d⟩ text = ⟨.text, 0⟩

theorem isGap_of_isBlank {c : Byte} (blank : IsBlank c) : IsGap c := by
  rcases blank with rfl | rfl
  · decide
  · decide

theorem isInert_of_isBlank {c : Byte} (blank : IsBlank c) : IsInert c := by
  rcases blank with rfl | rfl
  · decide
  · decide

theorem dropBlanks_split (text : List Byte) :
    ∃ blanks, text = blanks ++ dropBlanks text ∧ ∀ b ∈ blanks, IsBlank b := by
  refine ⟨text.takeWhile fun c => decide (IsBlank c), ?_, fun b member => ?_⟩
  · exact (List.takeWhile_append_dropWhile).symm
  · simpa using List.mem_takeWhile_imp member

/-- The text in front of the value ends between words. -/
theorem split_of_stopped {o : Object} {value : List Byte}
    (stopped : scan k.bytes ⟨o.text, false, 0⟩ = .stopped value) :
    ∃ front, o.text = front ++ value ∧ front ≠ [] ∧ Spot.gap.reads front = some .gap := by
  obtain ⟨front, tail, after, isText, colon, rfl⟩ := scan_stopped_behind k stopped
  obtain ⟨blanks, isTail, gaps⟩ := dropBlanks_split tail
  obtain ⟨blanks', isAfter, gaps'⟩ := dropBlanks_split after
  rw [colon] at isTail
  have ends : k.bytes = k.front ++ [k.last] := k.ends
  have parts : o.text = (front ++ (k.front ++ [k.last] ++ [Byte.quote])) ++
      (blanks ++ ([Byte.colon] ++ (blanks' ++ dropBlanks after))) := by
    change o.text = _ at isText
    rw [isText, ends, isTail, ← isAfter]
    simp only [List.append_assoc, List.cons_append, List.nil_append]
  refine ⟨(front ++ (k.front ++ [k.last] ++ [Byte.quote])) ++ (blanks ++ ([Byte.colon] ++ blanks')),
    ?_, ?_, ?_⟩
  · rw [parts]
    simp only [List.append_assoc]
  · simp
  · have through := Spot.reads_object o
    rw [parts] at through
    obtain ⟨middle, toWord, -⟩ := Spot.reads_append_some through
    have behind := Spot.reads_behind_word (ends ▸ k.inert) k.isWord toWord
    subst behind
    have inert : ∀ b ∈ blanks, IsInert b := fun b member => isInert_of_isBlank (gaps b member)
    obtain ⟨spot, toColon, outer⟩ := Spot.reads_inert inert (Or.inr rfl)
    rw [Spot.reads_append, toWord, Option.bind_some, Spot.reads_append, toColon,
      Option.bind_some, List.singleton_append, Spot.reads_cons,
      Spot.next_gap outer (by decide), Option.bind_some]
    exact Spot.reads_gaps fun b member => isGap_of_isBlank (gaps' b member)

/-- **A key scan that stops in an object stops between words.** -/
theorem inside_of_stopped {o : Object} {value : List Byte}
    (stopped : scan k.bytes ⟨o.text, false, 0⟩ = .stopped value) : Inside value := by
  obtain ⟨front, isText, some, between⟩ := split_of_stopped k stopped
  have closed : Closed o.text := ⟨Byte.openBrace :: o.inner, by rw [Object.text_eq]; rfl⟩
  have isClosed := (scan_append_blanks k [] ⟨o.text, false, 0⟩ (Or.inr closed)).2.2
    value stopped
  refine ⟨isClosed, ?_, ?_⟩
  · have through := Spot.reads_object o
    rw [isText, Spot.reads_append, between] at through
    exact through
  · have mode := Spot.after_mode between brackets 0
    have deep := Weight.object_prefix (w := brackets) 0 o (isText ▸ List.prefix_append front value)
      some (fun whole => isClosed.ne_nil (by
        rw [isText] at whole
        exact List.append_right_eq_self.mp whole.symm))
    have back := (Weight.Returns.composes (w := brackets)).object o 0 |>.back
    rw [isText, Weight.after_append] at back
    change (brackets.after ⟨.text, 0⟩ front).mode = .text at mode
    generalize brackets.after ⟨.text, 0⟩ front = p at mode deep back
    obtain ⟨_, d⟩ := p
    cases mode
    change 0 + 1 ≤ d at deep
    exact ⟨d, by omega, back⟩

end Scan

/-! ## The value loop -/

/-- The variables of the value loop where the reader is at this spot. -/
def valuePlace (spot : Spot) (level : Int) : ValuePlace :=
  ⟨spot = .escape, spot.mode ≠ .text, level⟩

theorem valuePlace_outer {spot : Spot} (outer : spot.Outer) : valuePlace spot = nested := by
  rcases outer with rfl | rfl
  · rfl
  · rfl

/-- A byte between words that the loop stores in a value without quotes and brackets. -/
theorem valueRound_outer {spot next : Spot} {c : Byte} {place : ValuePlace} (outer : spot.Outer)
    (step : spot.next c = some next)
    (stores : valueRound false false ⟨false, true, 0⟩ c = .store place) :
    place = ⟨false, true, 0⟩ ∧ next.Outer ∧ c ≠ Byte.closeBrace := by
  have notBackslash : c ≠ Byte.backslash := by
    rintro rfl
    rcases outer with rfl | rfl
    · cases step
    · cases step
  rw [valueRound] at stores
  dsimp only at stores
  rw [if_neg Bool.false_ne_true] at stores
  have behind : c ≠ Byte.quote → next.Outer := by
    intro notQuote
    rcases outer with rfl | rfl
    · rw [Spot.next, if_neg notQuote, if_neg notBackslash] at step
      exact Option.some.inj step ▸ Spot.outer_ite _
    · rw [Spot.next, if_neg (not_or.mpr ⟨notQuote, notBackslash⟩)] at step
      exact Option.some.inj step ▸ Spot.outer_ite _
  split at stores
  · rename_i opens
    refine ⟨(ValueRound.store.inj stores).symm, behind ?_, ?_⟩
    · rintro rfl
      revert opens
      decide
    · rintro rfl
      revert opens
      decide
  split at stores
  · rename_i never
    exact absurd never.2.2 Bool.false_ne_true
  split at stores
  · rw [if_neg (fun h => Bool.false_ne_true h.1)] at stores
    cases stores
  · rename_i others
    refine ⟨?_, behind fun quote => others (Or.inr (Or.inr (Or.inl quote))),
      fun brace => others (Or.inl brace)⟩
    rw [← ValueRound.store.inj stores, decide_eq_false notBackslash]

/-- A value that is no string and no bracket: the loop stops at the next mark between words. -/
theorem extract_word_stops (room : Nat) : ∀ {spot : Spot} {text : List Byte}, spot.Outer →
    Closed text → (∃ last, spot.reads text = some last) →
    (extract false false room ⟨false, true, 0⟩ text).rest ≠ [] := by
  induction room with
  | zero =>
      intro spot text _ closed _
      rw [extract_zero]
      exact closed.ne_nil
  | succ room ih =>
      rintro spot text outer closed ⟨last, through⟩
      cases text with
      | nil => exact absurd rfl closed.ne_nil
      | cons c tail =>
          rw [Spot.reads_cons] at through
          obtain ⟨next, step, through⟩ := Option.bind_eq_some_iff.mp through
          rw [extract]
          cases stores : valueRound false false ⟨false, true, 0⟩ c with
          | store place =>
              obtain ⟨rfl, outer', differs⟩ := valueRound_outer outer step stores
              exact ih outer' (closed.behind differs) ⟨last, through⟩
          | stop => exact List.cons_ne_nil c tail
          | close => exact List.cons_ne_nil c tail
          | malformed => exact List.cons_ne_nil c tail

/-- A byte in a string that the loop stores in a value that ends with a quote. -/
theorem valueRound_inside {spot next : Spot} {c : Byte} {place : ValuePlace}
    (inside : ¬ spot.Outer) (step : spot.next c = some next)
    (stores : valueRound false true (valuePlace spot 0) c = .store place) :
    place = valuePlace next 0 ∧ ¬ next.Outer := by
  cases spot with
  | gap => exact absurd (Or.inl rfl) inside
  | word => exact absurd (Or.inr rfl) inside
  | escape =>
      cases step
      exact ⟨(ValueRound.store.inj stores).symm, Spot.string_inside⟩
  | string =>
      by_cases quote : c = Byte.quote
      · subst quote
        cases stores
      by_cases backslash : c = Byte.backslash
      · subst backslash
        cases step
        cases stores
        exact ⟨rfl, Spot.escape_inside⟩
      rw [Spot.next, if_neg quote, if_neg backslash] at step
      cases step
      have goesOn : valueRound false true (valuePlace .string 0) c =
          .store (valuePlace .string 0) := by
        simp [valueRound, valuePlace, Spot.mode, quote, backslash]
      rw [goesOn] at stores
      exact ⟨(ValueRound.store.inj stores).symm, Spot.string_inside⟩

/-- A string: the loop stops at the quote that ends it. -/
theorem extract_string_stops (room : Nat) : ∀ {spot last : Spot} {text : List Byte},
    ¬ spot.Outer → last.Outer → spot.reads text = some last →
    (extract false true room (valuePlace spot 0) text).rest ≠ [] := by
  induction room with
  | zero =>
      intro spot last text inside outer through
      rw [extract_zero]
      rintro (rfl : text = [])
      cases through
      exact inside outer
  | succ room ih =>
      intro spot last text inside outer through
      cases text with
      | nil =>
          cases through
          exact absurd outer inside
      | cons c tail =>
          rw [Spot.reads_cons] at through
          obtain ⟨next, step, through⟩ := Option.bind_eq_some_iff.mp through
          rw [extract]
          cases stores : valueRound false true (valuePlace spot 0) c with
          | store place =>
              obtain ⟨rfl, inside'⟩ := valueRound_inside inside step stores
              exact ih inside' outer through
          | stop => exact List.cons_ne_nil c tail
          | close => exact List.cons_ne_nil c tail
          | malformed => exact List.cons_ne_nil c tail

/-- A byte between words in an object or an array. -/
theorem valueRound_between {c : Byte} {place : ValuePlace} {level : Int} (isOpen : 0 < level)
    (notQuote : c ≠ Byte.quote) (notBackslash : c ≠ Byte.backslash)
    (stores : valueRound true false (nested level) c = .store place) (d : Int) :
    ∃ level', 0 < level' ∧ place = nested level' ∧
      brackets.advance ⟨.text, d⟩ c = ⟨.text, d + (level' - level)⟩ := by
  rw [brackets.advance_text d notQuote]
  by_cases opens : c = Byte.openBrace ∨ c = Byte.openBracket
  · have weight : brackets.of c = 1 := if_pos opens
    rw [valueRound_open level opens] at stores
    refine ⟨level + 1, by omega, (ValueRound.store.inj stores).symm, ?_⟩
    rw [weight]
    congr 1
    omega
  by_cases closes : c = Byte.closeBrace ∨ c = Byte.closeBracket
  · have weight : brackets.of c = -1 := (if_neg opens).trans (if_pos closes)
    rw [valueRound_close (by omega) closes] at stores
    split at stores
    · cases stores
    split at stores
    · cases stores
    refine ⟨level - 1, by omega, (ValueRound.store.inj stores).symm, ?_⟩
    rw [weight]
    congr 1
    omega
  · have weight : brackets.of c = 0 := (if_neg opens).trans (if_neg closes)
    have goesOn : valueRound true false (nested level) c = .store (nested level) := by
      simp [valueRound, *]
    rw [goesOn] at stores
    refine ⟨level, isOpen, (ValueRound.store.inj stores).symm, ?_⟩
    rw [weight, Int.sub_self]

/-- A byte that the loop stores in an object or an array counts as it does for a reader of
brackets. -/
theorem valueRound_nested {spot next : Spot} {c : Byte} {place : ValuePlace} {level : Int}
    (isOpen : 0 < level) (step : spot.next c = some next)
    (stores : valueRound true false (valuePlace spot level) c = .store place) (d : Int) :
    ∃ level', 0 < level' ∧ place = valuePlace next level' ∧
      brackets.advance ⟨spot.mode, d⟩ c = ⟨next.mode, d + (level' - level)⟩ := by
  have same : d + (level - level) = d := by omega
  cases spot with
  | escape =>
      cases step
      refine ⟨level, isOpen, (ValueRound.store.inj stores).symm, ?_⟩
      rw [same]
      rfl
  | string =>
      refine ⟨level, isOpen, ?_⟩
      rw [same]
      by_cases quote : c = Byte.quote
      · subst quote
        cases step
        cases stores
        exact ⟨rfl, rfl⟩
      by_cases backslash : c = Byte.backslash
      · subst backslash
        cases step
        cases stores
        exact ⟨rfl, rfl⟩
      rw [Spot.next, if_neg quote, if_neg backslash] at step
      cases step
      have goesOn : valueRound true false (valuePlace .string level) c =
          .store (valuePlace .string level) := by
        simp [valueRound, valuePlace, Spot.mode, quote, backslash]
      rw [goesOn] at stores
      refine ⟨(ValueRound.store.inj stores).symm, ?_⟩
      simp [Weight.advance, Spot.mode, quote, backslash]
  | gap =>
      rw [Spot.next] at step
      split at step
      · rename_i quote
        subst quote
        cases step
        cases stores
        exact ⟨level, isOpen, rfl, by rw [same]; rfl⟩
      rename_i notQuote
      split at step
      · cases step
      · rename_i notBackslash
        cases step
        rw [(Spot.outer_ite _).mode, valuePlace_outer (Spot.outer_ite _)]
        exact valueRound_between isOpen notQuote notBackslash stores d
  | word =>
      rw [Spot.next] at step
      split at step
      · cases step
      · rename_i neither
        cases step
        rw [(Spot.outer_ite _).mode, valuePlace_outer (Spot.outer_ite _)]
        exact valueRound_between isOpen (neither ∘ Or.inl) (neither ∘ Or.inr) stores d

/-- An object or array: the loop stops at the bracket that ends it. -/
theorem extract_json_stops (room : Nat) : ∀ {spot last : Spot} {text : List Byte} {level d : Int},
    0 < level → spot.reads text = some last →
    (brackets.after ⟨spot.mode, d⟩ text).depth ≤ d - level →
    (extract true false room (valuePlace spot level) text).rest ≠ [] := by
  induction room with
  | zero =>
      intro spot last text level d isOpen _ closes
      rw [extract_zero]
      rintro (rfl : text = [])
      change d ≤ d - level at closes
      omega
  | succ room ih =>
      intro spot last text level d isOpen through closes
      cases text with
      | nil =>
          change d ≤ d - level at closes
          omega
      | cons c tail =>
          rw [Spot.reads_cons] at through
          obtain ⟨next, step, through⟩ := Option.bind_eq_some_iff.mp through
          rw [extract]
          cases stores : valueRound true false (valuePlace spot level) c with
          | store place =>
              obtain ⟨level', isOpen', rfl, moved⟩ := valueRound_nested isOpen step stores d
              rw [Weight.after_cons, moved] at closes
              refine ih isOpen' through (d := d + (level' - level)) ?_
              omega
          | stop => exact List.cons_ne_nil c tail
          | close => exact List.cons_ne_nil c tail
          | malformed => exact List.cons_ne_nil c tail

/-- **The value loop stops inside the object.** -/
theorem extractAt_stops {value : List Byte} (inside : Inside value) (room : Nat) :
    (extractAt room value).rest ≠ [] := by
  obtain ⟨closed, through, d, isOpen, back⟩ := inside
  cases value with
  | nil => exact absurd rfl closed.ne_nil
  | cons c tail =>
      rw [extractAt]
      by_cases opens : c = Byte.openBrace ∨ c = Byte.openBracket
      · have json : isJson (c :: tail) = true := decide_eq_true opens
        have isGap : IsGap c := by
          rcases opens with rfl | rfl
          · decide
          · decide
        have notQuote : c ≠ Byte.quote := by
          rintro rfl
          revert opens
          decide
        have quote : endsWithQuote (c :: tail) = false := decide_eq_false notQuote
        rw [json, quote]
        change (extract true false room (nested 0) (c :: tail)).rest ≠ []
        cases room with
        | zero =>
            rw [extract_zero]
            exact List.cons_ne_nil c tail
        | succ room =>
            rw [Spot.reads_cons, Spot.next_gap (Or.inl rfl) isGap, Option.bind_some] at through
            have weight : brackets.of c = 1 := if_pos opens
            rw [Weight.after_cons, brackets.advance_text d notQuote, weight] at back
            rw [extract, valueRound_open 0 opens]
            change (extract true false room (valuePlace .gap 1) tail).rest ≠ []
            refine extract_json_stops room (d := d + 1) (by decide) through ?_
            change (brackets.after ⟨.text, d + 1⟩ tail).depth ≤ d + 1 - 1
            rw [back]
            change 0 ≤ d + 1 - 1
            omega
      have json : isJson (c :: tail) = false := decide_eq_false opens
      rw [json]
      by_cases isQuote : c = Byte.quote
      · subst isQuote
        change (extract false true room (valuePlace .string 0) tail).rest ≠ []
        exact extract_string_stops room Spot.string_inside (Or.inl rfl) through
      · have quote : endsWithQuote (c :: tail) = false := decide_eq_false isQuote
        rw [quote]
        exact extract_word_stops room (Or.inl rfl) closed ⟨.gap, through⟩

/-! ## Lookups -/

/-- The key scan goes through a document as through its object, with the blanks behind it left
over, and never reads past the end. -/
theorem scan_document_append (k : WordKey) (d : Document) :
    scan k.bytes ⟨d.text, false, 0⟩ =
        (scan k.bytes ⟨d.object.text, false, 0⟩).append d.after.text ∧
      scan k.bytes ⟨d.object.text, false, 0⟩ ≠ .overread := by
  have closed : Closed d.object.text := ⟨Byte.openBrace :: d.object.inner, by
    rw [Object.text_eq]
    rfl⟩
  have separates : Separates (d.object.text ++ d.after.text) := by
    rw [Object.text_eq]
    exact Separates.cons (by decide) _
  obtain ⟨goesOn, notOverread, -⟩ :=
    scan_append_blanks k d.after ⟨d.object.text, false, 0⟩ (Or.inr closed)
  exact ⟨(scan_blanks k d.before separates false 0).trans goesOn, notOverread⟩

/-- **The blanks around an object make no difference to a lookup.** -/
theorem lookup_document (k : WordKey) (d : Document) (value : Option (List Byte)) (size : Int) :
    simpleJsonProcessor d.string k.key value size =
      simpleJsonProcessor d.object.string k.key value size := by
  obtain ⟨scanned, notOverread⟩ := scan_document_append k d
  have scanned : scan k.key.bytes ⟨d.string.bytes, false, 0⟩ =
      (scan k.key.bytes ⟨d.object.string.bytes, false, 0⟩).append d.after.text := scanned
  rw [simpleJsonProcessor_eq _ k.nonempty, simpleJsonProcessor_eq _ k.nonempty, scanned]
  cases ended : scan k.key.bytes ⟨d.object.string.bytes, false, 0⟩ with
  | absent => rfl
  | malformed => rfl
  | overread => exact absurd ended notOverread
  | stopped text =>
      have inside := inside_of_stopped k ended
      have some := inside.closed.ne_nil
      change Except.ok (lookUpAt value size (text ++ d.after.text)) = .ok (lookUpAt value size text)
      cases value with
      | none =>
          rw [lookUpAt, lookUpAt, if_neg some,
            if_neg (List.append_ne_nil_of_left_ne_nil some _)]
      | some buffer =>
          have stops := extractAt_stops inside (size - 1).toNat
          rw [lookUpAt_some buffer size some,
            lookUpAt_some buffer size (List.append_ne_nil_of_left_ne_nil some _),
            extractAt_append some stops, if_neg stops,
            if_neg (List.append_ne_nil_of_left_ne_nil stops _)]

end ParseEmbedded.SimpleJson
