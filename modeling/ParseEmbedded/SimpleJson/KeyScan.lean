import ParseEmbedded.SimpleJson.Processor
import Mathlib.Logic.Relation

/-!
# The key scan as a scan of the remaining text

One round of the key scan depends on the bytes still to be read, the string flag and the bracket
level. `round` states it in these terms, `keyStep_agrees` shows that the source computes it, and
`keyScan_eq` carries this over to the whole loop.

With it the reads of a lookup are settled (`lookup_reads_inside_iff`). Two branches of the
source continue the loop from a byte they have not compared with zero: behind a key that no
quote follows, and behind the blanks after a quote where no colon follows. The `++found` of the
loop then steps over the terminator if the text ends there, and this is the only way out of the
string.
-/

set_option autoImplicit false

namespace ParseEmbedded.SimpleJson

theorem ok_bind {ε α β : Type} (a : α) (f : α → Except ε β) : (.ok a >>= f) = f a := rfl

/-! ## One round -/

def IsBlank (c : Byte) : Prop := c = Byte.space ∨ c = Byte.tab

instance (c : Byte) : Decidable (IsBlank c) := inferInstanceAs (Decidable (_ ∨ _))

/-- What is left behind the blanks. -/
def dropBlanks (text : List Byte) : List Byte := text.dropWhile (fun c => decide (IsBlank c))

/-- A place of the key scan: what is left of the text, and the two variables. -/
structure Place where
  rest : List Byte
  inString : Bool
  jsonLevel : Int
  deriving DecidableEq, Repr

/-- A round leads to another place, ends the scan, or runs off the end of the text. -/
inductive Round where
  | next (place : Place)
  | malformed
  | stop (value : List Byte)
  | overread
  deriving DecidableEq, Repr

/-- The round at a byte where the key does not start. -/
def passByte (c : Byte) (tail : List Byte) (inString : Bool) (level : Int) : Round :=
  if c = Byte.quote then .next ⟨tail, !inString, level⟩
  else if c = Byte.backslash then .next ⟨if inString then tail.tail else tail, inString, level⟩
  else if c = Byte.openBrace ∨ c = Byte.openBracket then
    .next ⟨tail, inString, if inString then level else level + 1⟩
  else if c = Byte.closeBrace ∨ c = Byte.closeBracket then
    if inString then .next ⟨tail, inString, level⟩
    else if level - 1 < 0 then .malformed
    else .next ⟨tail, inString, level - 1⟩
  else .next ⟨tail, inString, level⟩

/-- The round behind a key that starts at bracket level zero or one. -/
def passKey (inString : Bool) (level : Int) : List Byte → Round
  | [] => .overread
  | c :: tail =>
      if c ≠ Byte.quote then .next ⟨tail, inString, level⟩
      else
        match dropBlanks tail with
        | [] => .overread
        | c :: tail =>
            if c ≠ Byte.colon then .next ⟨tail, inString, level⟩
            else .stop (dropBlanks tail)

/-- One round of the key scan. -/
def round (key : List Byte) (place : Place) : Round :=
  match place.rest with
  | [] => .malformed
  | c :: tail =>
      if key <+: c :: tail then
        if place.jsonLevel > 1 then .next ⟨tail, place.inString, place.jsonLevel⟩
        else passKey place.inString place.jsonLevel ((c :: tail).drop key.length)
      else passByte c tail place.inString place.jsonLevel

/-! ## The source computes the round -/

theorem sameKey_eq (data : CString) (key : List Byte) (noNul : Byte.nul ∉ key) :
    ∀ {i : Nat}, i ≤ data.length → sameKey data i key = .ok (decide (key <+: data.rest i)) := by
  induction key with
  | nil =>
      intro i _
      simp [sameKey]
  | cons k key ih =>
      intro i inside
      simp only [List.mem_cons, not_or] at noNul
      rw [sameKey, CString.read_eq inside]
      cases h : data.rest i with
      | nil =>
          have differs : Byte.nul ≠ k := noNul.1
          simp [differs, bind, Except.bind]
      | cons c tail =>
          have next := ih noNul.2 (CString.lt_of_rest_cons h)
          rw [CString.rest_succ h] at next
          by_cases same : c = k
          · simp [same, next, bind, Except.bind, List.cons_prefix_cons]
          · have differs : ¬ k = c := fun h => same h.symm
            simp [same, differs, bind, Except.bind, List.cons_prefix_cons]

theorem skipBlanks_eq (data : CString) :
    ∀ (fuel : Nat) {i : Nat}, i ≤ data.length → data.length < fuel + i →
      ∃ j, skipBlanks data fuel i = .ok j ∧ j ≤ data.length ∧
        data.rest j = dropBlanks (data.rest i) := by
  intro fuel
  induction fuel with
  | zero =>
      intro i inside enough
      omega
  | succ fuel ih =>
      intro i inside enough
      rw [skipBlanks, CString.read_eq inside]
      cases h : data.rest i with
      | nil =>
          refine ⟨i, ?_, inside, h⟩
          simp +decide [bind, Except.bind]
      | cons c tail =>
          have lt := CString.lt_of_rest_cons h
          by_cases blank : IsBlank c
          · obtain ⟨j, skipped, inside', rest⟩ := ih (i := i + 1) lt (by omega)
            refine ⟨j, ?_, inside', ?_⟩
            · rw [← skipped]
              exact if_pos blank
            · rw [rest, CString.rest_succ h]
              simp [dropBlanks, blank]
          · refine ⟨i, if_neg blank, inside, ?_⟩
            rw [h]
            simp [dropBlanks, blank]

/-- A step of the source does what the round says. The source has not yet moved over the last
byte of the round, so at the end of the text it stands on the terminator. -/
def Round.Agrees (data : CString) (i : Nat) (step : Except Overread KeyStep) : Round → Prop
  | .next place =>
      ∃ j, step = .ok (.next ⟨j, place.inString, place.jsonLevel⟩) ∧ i ≤ j ∧ j < data.length ∧
        data.rest (j + 1) = place.rest
  | .malformed => step = .ok .malformed
  | .stop value =>
      ∃ j, j ≤ data.length ∧ data.rest j = value ∧
        step = .ok (.stop j
          (value.headD Byte.nul = Byte.openBrace ∨ value.headD Byte.nul = Byte.openBracket)
          (value.headD Byte.nul = Byte.quote))
  | .overread => ∃ inString level, step = .ok (.next ⟨data.length, inString, level⟩)

theorem Round.Agrees.here {data : CString} {i : Nat} {c : Byte} {tail : List Byte}
    (h : data.rest i = c :: tail) (inString : Bool) (level : Int) :
    Round.Agrees data i (.ok (.next ⟨i, inString, level⟩)) (.next ⟨tail, inString, level⟩) :=
  ⟨i, rfl, Nat.le_refl i, CString.lt_of_rest_cons h, CString.rest_succ h⟩

theorem skipByte_agrees {data : CString} {i : Nat} {c : Byte} {tail : List Byte}
    (h : data.rest i = c :: tail) (inString : Bool) (level : Int) :
    Round.Agrees data i (skipByte data ⟨i, inString, level⟩ c)
      (passByte c tail inString level) := by
  have here := Round.Agrees.here h
  unfold skipByte passByte
  split
  · exact here _ _
  split
  · -- an escape inside a string is two bytes, unless the text ends behind the backslash
    cases inString with
    | false => exact here _ _
    | true =>
        have lt := CString.lt_of_rest_cons h
        have rest := CString.rest_succ h
        simp only [if_true, CString.read_eq lt, rest]
        cases tail with
        | nil => exact here _ _
        | cons e tail =>
            have notNul : e ≠ Byte.nul :=
              CString.ne_nul_of_mem_rest (rest ▸ List.mem_cons_self ..)
            refine ⟨i + 1, ?_, Nat.le_succ i, CString.lt_of_rest_cons rest,
              CString.rest_succ rest⟩
            simp [bind, Except.bind, notNul]
  split
  · cases inString <;> exact here _ _
  split
  · cases inString with
    | true => exact here _ _
    | false =>
        simp only [Bool.false_eq_true, if_false]
        split
        · rfl
        · exact here _ _
  · exact here _ _

theorem afterKey_agrees (data key : CString) {i : Nat} (inside : i + key.length ≤ data.length)
    (inString : Bool) (level : Int) :
    Round.Agrees data i (afterKey data key ⟨i, inString, level⟩)
      (passKey inString level (data.rest (i + key.length))) := by
  have before : i ≤ i + key.length := Nat.le_add_right i key.length
  rw [afterKey]
  simp only [CString.read_eq inside]
  cases h : data.rest (i + key.length) with
  | nil =>
      have ended : i + key.length = data.length := by
        have := data.length_rest (i + key.length)
        simp only [h, List.length_nil] at this
        omega
      exact ⟨inString, level, by rw [← ended]; rfl⟩
  | cons c tail =>
      have lt := CString.lt_of_rest_cons h
      by_cases quote : c = Byte.quote
      swap
      · have step : passKey inString level (c :: tail) = .next ⟨tail, inString, level⟩ :=
          if_pos quote
        rw [step]
        exact ⟨i + key.length, if_pos quote, before, lt, CString.rest_succ h⟩
      obtain ⟨j, skipped, insideJ, restJ⟩ :=
        skipBlanks_eq data (data.length + 1) lt (by omega)
      rw [CString.rest_succ h] at restJ
      have beforeJ : i ≤ j := by
        have shorter : (dropBlanks tail).length ≤ tail.length := List.length_dropWhile_le _ _
        have lengthJ := data.length_rest j
        have length := data.length_rest (i + key.length + 1)
        rw [restJ] at lengthJ
        rw [CString.rest_succ h] at length
        omega
      simp only [bind, Except.bind, List.headD_cons, quote, ne_eq, not_true_eq_false, if_false,
        skipped, CString.read_eq insideJ, restJ, passKey]
      cases hJ : dropBlanks tail with
      | nil =>
          have ended : j = data.length := by
            have := data.length_rest j
            rw [restJ, hJ, List.length_nil] at this
            omega
          refine ⟨inString, level, ?_⟩
          simp +decide [ended]
      | cons d tail' =>
          rw [hJ] at restJ
          have ltJ := CString.lt_of_rest_cons restJ
          by_cases colon : d = Byte.colon
          swap
          · simp only [List.headD_cons, colon, not_false_eq_true, if_true]
            exact ⟨j, rfl, beforeJ, ltJ, CString.rest_succ restJ⟩
          obtain ⟨m, skipped', insideM, restM⟩ :=
            skipBlanks_eq data (data.length + 1) ltJ (by omega)
          rw [CString.rest_succ restJ] at restM
          simp only [List.headD_cons, colon, not_true_eq_false, if_false, skipped',
            CString.read_eq insideM, restM]
          exact ⟨m, insideM, restM, rfl⟩

theorem keyStep_agrees {data : CString} (key : CString) {i : Nat} {c : Byte} {tail : List Byte}
    (h : data.rest i = c :: tail) (inString : Bool) (level : Int) :
    Round.Agrees data i (keyStep data key ⟨i, inString, level⟩ c)
      (round key.bytes ⟨data.rest i, inString, level⟩) := by
  have inside : i ≤ data.length := Nat.le_of_lt (CString.lt_of_rest_cons h)
  simp only [keyStep, sameKey_eq data key.bytes key.noNul inside, bind, Except.bind,
    decide_eq_true_eq]
  rw [round]
  simp only [h]
  by_cases starts : key.bytes <+: c :: tail
  swap
  · simp only [starts, if_false]
    exact skipByte_agrees h inString level
  simp only [starts, if_true]
  by_cases nested : level > 1
  · simp only [nested, if_true]
    exact Round.Agrees.here h inString level
  simp only [nested, if_false]
  have keyFits : key.length ≤ (c :: tail).length := starts.length_le
  rw [← h, CString.length_rest] at keyFits
  have agrees := afterKey_agrees data key (i := i) (by omega) inString level
  rwa [CString.rest, ← List.drop_drop, ← CString.rest, h] at agrees

/-! ## The whole scan -/

/-- How the key scan ends, with the text from the value on. -/
inductive ScanEnd where
  | absent
  | malformed
  | stopped (value : List Byte)
  | overread
  deriving DecidableEq, Repr

/-- **Every round that goes on shortens the text.** -/
theorem round_shortens {key : List Byte} {place next : Place}
    (h : round key place = .next next) : next.rest.length < place.rest.length := by
  obtain ⟨rest, inString, level⟩ := place
  cases rest with
  | nil => cases h
  | cons c tail =>
      simp only [round] at h
      split at h
      · split at h
        · cases h
          exact Nat.lt_succ_self _
        · have shorter : ((c :: tail).drop key.length).length ≤ (c :: tail).length := by simp
          revert h shorter
          generalize (c :: tail).drop key.length = behind
          intro h shorter
          cases behind with
          | nil => cases h
          | cons q after =>
              simp only [passKey] at h
              have blanks := List.length_dropWhile_le (fun c => decide (IsBlank c)) after
              change (dropBlanks after).length ≤ after.length at blanks
              simp only [List.length_cons] at shorter ⊢
              split at h
              · cases h
                simp only
                omega
              · split at h
                · cases h
                · rename_i d after' same
                  rw [same, List.length_cons] at blanks
                  split at h
                  · cases h
                    simp only
                    omega
                  · cases h
      · simp only [passByte] at h
        have tailShorter : tail.tail.length ≤ tail.length := by
          rw [List.length_tail]
          omega
        split at h
        · cases h
          exact Nat.lt_succ_self _
        split at h
        · cases h
          simp only [List.length_cons]
          split <;> omega
        split at h
        · cases h
          exact Nat.lt_succ_self _
        split at h
        · split at h
          · cases h
            exact Nat.lt_succ_self _
          split at h
          · cases h
          · cases h
            exact Nat.lt_succ_self _
        · cases h
          exact Nat.lt_succ_self _

/-- The key scan from a place. -/
def scan (key : List Byte) (place : Place) : ScanEnd :=
  if place.rest = [] then .absent
  else
    match _h : round key place with
    | .next next => scan key next
    | .malformed => .malformed
    | .stop value => .stopped value
    | .overread => .overread
termination_by place.rest.length
decreasing_by exact round_shortens _h

/-- The end of the scan in terms of indices. -/
def ScanEnd.toKeyEnd (data : CString) : ScanEnd → Except Overread KeyEnd
  | .absent => .ok .absent
  | .malformed => .ok .malformed
  | .stopped value =>
      .ok (.stopped (data.length - value.length)
        (value.headD Byte.nul = Byte.openBrace ∨ value.headD Byte.nul = Byte.openBracket)
        (value.headD Byte.nul = Byte.quote))
  | .overread => .error ⟨data.length + 1⟩

theorem keyScan_eq (data key : CString) (fuel : Nat) :
    ∀ {i : Nat} (inString : Bool) (level : Int), i ≤ data.length →
      data.length + 2 ≤ fuel + i →
      keyScan data key fuel ⟨i, inString, level⟩ =
        (scan key.bytes ⟨data.rest i, inString, level⟩).toKeyEnd data := by
  induction fuel with
  | zero =>
      intro i _ _ inside enough
      omega
  | succ fuel ih =>
      intro i inString level inside enough
      rw [keyScan, CString.read_eq inside, scan]
      cases h : data.rest i with
      | nil => rfl
      | cons c tail =>
          have notNul : c ≠ Byte.nul := CString.ne_nul_of_mem_rest (h ▸ List.mem_cons_self ..)
          have lt := CString.lt_of_rest_cons h
          have agrees := keyStep_agrees key h inString level
          rw [h] at agrees
          simp only [List.headD_cons, bind, Except.bind, notNul, if_false, reduceCtorEq]
          cases step : round key.bytes ⟨c :: tail, inString, level⟩ with
          | next next =>
              rw [step] at agrees
              obtain ⟨j, same, before, ltJ, rest⟩ := agrees
              simp only [same]
              rw [ih _ _ (by omega) (by omega), rest]
          | malformed =>
              rw [step] at agrees
              change keyStep _ _ _ _ = _ at agrees
              simp only [agrees]
              rfl
          | stop value =>
              rw [step] at agrees
              obtain ⟨j, insideJ, rest, same⟩ := agrees
              have index : data.length - value.length = j := by
                have := data.length_rest j
                rw [rest] at this
                omega
              simp only [same, ScanEnd.toKeyEnd, index]
          | overread =>
              -- the next round reads behind the terminator
              rw [step] at agrees
              obtain ⟨inString', level', same⟩ := agrees
              simp only [same]
              obtain ⟨fuel, rfl⟩ : ∃ n, fuel = n + 1 := ⟨fuel - 1, by omega⟩
              have behind : ¬ data.length + 1 ≤ data.length := by omega
              simp only [keyScan, CString.read, behind, if_false, bind, Except.bind]
              rfl

/-- **The loop of the source is the scan of the text.** -/
theorem findKey_eq (data key : CString) :
    findKey data key = (scan key.bytes ⟨data.bytes, false, 0⟩).toKeyEnd data :=
  keyScan_eq data key _ false 0 (Nat.zero_le _) (Nat.le_refl _)

/-- The places the scan comes to. -/
abbrev Visits (key : List Byte) : Place → Place → Prop :=
  Relation.ReflTransGen fun place next => round key place = .next next

theorem scan_nil (key : List Byte) (inString : Bool) (level : Int) :
    scan key ⟨[], inString, level⟩ = .absent := by
  rw [scan, if_pos rfl]

theorem scan_eq_of_next {key : List Byte} {place next : Place}
    (h : round key place = .next next) : scan key place = scan key next := by
  rw [scan]
  split
  · rename_i empty
    simp [round, empty] at h
  · split <;> simp_all

theorem scan_eq_of_visits {key : List Byte} {place next : Place}
    (visits : Visits key place next) : scan key place = scan key next := by
  induction visits with
  | refl => rfl
  | tail _ step ih => rw [ih, scan_eq_of_next step]

theorem scan_eq_stopped {key : List Byte} {place : Place} {value : List Byte}
    (h : round key place = .stop value) : scan key place = .stopped value := by
  rw [scan]
  split
  · rename_i empty
    simp [round, empty] at h
  · split <;> simp_all

theorem scan_eq_malformed {key : List Byte} {place : Place} (nonempty : place.rest ≠ [])
    (h : round key place = .malformed) : scan key place = .malformed := by
  rw [scan, if_neg nonempty]
  split <;> simp_all

theorem scan_eq_overread {key : List Byte} {place : Place} (nonempty : place.rest ≠ [])
    (h : round key place = .overread) : scan key place = .overread := by
  rw [scan, if_neg nonempty]
  split <;> simp_all

/-- **Induction over a scan that stops**, from the round that stops back to the first one. -/
theorem scan_stopped_induct {key value : List Byte}
    {motive : (place : Place) → scan key place = .stopped value → Prop}
    (stop : ∀ place (step : round key place = .stop value), motive place (scan_eq_stopped step))
    (next : ∀ place next (step : round key place = .next next)
      (stopped : scan key next = .stopped value), motive next stopped →
        motive place ((scan_eq_of_next step).trans stopped))
    (place : Place) (stopped : scan key place = .stopped value) : motive place stopped := by
  induction place using scan.induct key with
  | case1 place empty =>
      have absent : scan key place = .absent := by rw [scan, if_pos empty]
      cases absent.symm.trans stopped
  | case2 place nonempty behind step ih =>
      exact next place behind step ((scan_eq_of_next step).symm.trans stopped) (ih _)
  | case3 place nonempty step => cases (scan_eq_malformed nonempty step).symm.trans stopped
  | case4 place nonempty text step =>
      cases (scan_eq_stopped step).symm.trans stopped
      exact stop place step
  | case5 place nonempty step => cases (scan_eq_overread nonempty step).symm.trans stopped

/-! ## Reads -/

/-- The value loop has returned, on a byte of the string or on its terminator. -/
def EndsInside (data : CString) (result : Except Overread Extraction) : Prop :=
  ∃ extraction, result = .ok extraction ∧ extraction.found ≤ data.length

theorem EndsInside.ite {data : CString} {p : Prop} [Decidable p]
    {first second : Except Overread Extraction} (yes : EndsInside data first)
    (no : EndsInside data second) : EndsInside data (if p then first else second) := by
  by_cases h : p
  · rwa [if_pos h]
  · rwa [if_neg h]

/-- The value loop reads no byte behind the terminator. -/
theorem extractValue_inside (data : CString) (json endWithQuote : Bool) (room : Nat) :
    ∀ {found : Nat} (backslash inString : Bool) (level : Int), found ≤ data.length →
      EndsInside data (extractValue data json endWithQuote room found backslash inString level)
    := by
  induction room with
  | zero =>
      intro found _ _ _ inside
      exact ⟨_, rfl, inside⟩
  | succ room ih =>
      intro found backslash inString level inside
      simp only [extractValue, CString.read_eq inside, ok_bind]
      cases h : data.rest found with
      | nil => exact ⟨_, rfl, inside⟩
      | cons c tail =>
          have store : ∀ (backslash inString : Bool) (level : Int),
              EndsInside data (extractValue data json endWithQuote room (found + 1)
                backslash inString level >>= fun rest => .ok (rest.put c)) := by
            intro backslash inString level
            obtain ⟨rest, same, insideRest⟩ :=
              ih backslash inString level (CString.lt_of_rest_cons h)
            exact ⟨rest.put c, by rw [same, ok_bind], insideRest⟩
          have stop : ∀ written malformed,
              EndsInside data (.ok ⟨written, found, malformed⟩) :=
            fun written malformed => ⟨_, rfl, inside⟩
          simp only [List.headD_cons]
          refine .ite (stop _ _) (.ite (store _ _ _) (.ite (store _ _ _) (.ite ?_ (.ite ?_ ?_))))
          · exact .ite (stop _ _) (.ite (stop _ _) (store _ _ _))
          · exact .ite (store _ _ _) (.ite (stop _ _) (store _ _ _))
          · exact store _ _ _

/-- A lookup that leaves the string does so in the key scan. -/
theorem simpleJsonProcessor_ok_iff (data key : CString) (nonempty : key.bytes ≠ [])
    (value : Option (List Byte)) (size : Int) :
    (∃ lookup, simpleJsonProcessor data key value size = .ok lookup) ↔
      scan key.bytes ⟨data.bytes, false, 0⟩ ≠ .overread := by
  rw [simpleJsonProcessor, if_neg nonempty, findKey_eq]
  cases ended : scan key.bytes ⟨data.bytes, false, 0⟩ with
  | absent => exact ⟨fun _ => ScanEnd.noConfusion, fun _ => ⟨_, rfl⟩⟩
  | malformed => exact ⟨fun _ => ScanEnd.noConfusion, fun _ => ⟨_, rfl⟩⟩
  | overread =>
      refine ⟨?_, fun h => absurd rfl h⟩
      rintro ⟨_, h⟩
      cases h
  | stopped text =>
      refine ⟨fun _ => ScanEnd.noConfusion, fun _ => ?_⟩
      have inside : data.length - text.length ≤ data.length := Nat.sub_le _ _
      simp only [ScanEnd.toKeyEnd, bind, Except.bind, CString.read_eq inside]
      split
      · exact ⟨_, rfl⟩
      cases value with
      | none => exact ⟨_, rfl⟩
      | some buffer =>
          rename_i notNul
          have start : (if decide (text.headD Byte.nul = Byte.quote) = true
              then data.length - text.length + 1 else data.length - text.length) ≤
                data.length := by
            have rest := data.length_rest (data.length - text.length)
            cases h : data.rest (data.length - text.length) with
            | nil => simp [h] at notNul
            | cons c tail =>
                have := CString.lt_of_rest_cons h
                split <;> omega
          obtain ⟨extraction, same, insideEnd⟩ := extractValue_inside data
            (decide (text.headD Byte.nul = Byte.openBrace ∨
              text.headD Byte.nul = Byte.openBracket))
            (decide (text.headD Byte.nul = Byte.quote)) (size - 1).toNat false
            (!decide (text.headD Byte.nul = Byte.openBrace ∨
              text.headD Byte.nul = Byte.openBracket)) 0 start
          simp only [same, CString.read_eq insideEnd]
          split <;> exact ⟨_, rfl⟩

/-- The text ends right behind the key, or behind the key, a quote and blanks. -/
def EndsBehindKey (behind : List Byte) : Prop :=
  behind = [] ∨ ∃ blanks, behind = Byte.quote :: blanks ∧ ∀ c ∈ blanks, IsBlank c

/-- The scan comes, at bracket level zero or one, to an occurrence of the key that ends the
text, or that only a quote and blanks follow. -/
def RunsOff (key text : List Byte) : Prop :=
  ∃ place, Visits key ⟨text, false, 0⟩ place ∧ place.jsonLevel ≤ 1 ∧ place.rest ≠ [] ∧
    key <+: place.rest ∧ EndsBehindKey (place.rest.drop key.length)

theorem passKey_eq_overread_iff (inString : Bool) (level : Int) (behind : List Byte) :
    passKey inString level behind = .overread ↔ EndsBehindKey behind := by
  cases behind with
  | nil => simp [passKey, EndsBehindKey]
  | cons c tail =>
      by_cases quote : c = Byte.quote
      swap
      · simp [passKey, EndsBehindKey, quote]
      subst quote
      have allBlank : dropBlanks tail = [] ↔ ∀ c ∈ tail, IsBlank c := by
        simp [dropBlanks, List.dropWhile_eq_nil_iff]
      simp only [passKey, EndsBehindKey, ne_eq, not_true_eq_false, if_false, List.cons.injEq,
        true_and, reduceCtorEq, false_or, exists_eq_left', ← allBlank]
      cases h : dropBlanks tail with
      | nil => simp
      | cons d after =>
          simp only [reduceCtorEq, iff_false]
          split <;> simp

theorem passByte_ne_overread (c : Byte) (tail : List Byte) (inString : Bool) (level : Int) :
    passByte c tail inString level ≠ .overread := by
  unfold passByte
  repeat' split
  all_goals exact Round.noConfusion

theorem round_eq_overread_iff (key : List Byte) (place : Place) :
    round key place = .overread ↔ place.jsonLevel ≤ 1 ∧ place.rest ≠ [] ∧ key <+: place.rest ∧
      EndsBehindKey (place.rest.drop key.length) := by
  obtain ⟨rest, inString, level⟩ := place
  cases rest with
  | nil => simp [round]
  | cons c tail =>
      simp only [round, ← passKey_eq_overread_iff inString level]
      by_cases starts : key <+: c :: tail
      swap
      · simp [starts, passByte_ne_overread]
      by_cases nested : level > 1
      · simp [starts, nested, Int.not_le.mpr nested]
      · simp [starts, nested, Int.not_lt.mp nested]

theorem scan_eq_overread_iff (key : List Byte) (place : Place) :
    scan key place = .overread ↔
      ∃ last, Visits key place last ∧ round key last = .overread := by
  constructor
  · intro h
    induction place using scan.induct key with
    | case1 place empty =>
        rw [scan, if_pos empty] at h
        cases h
    | case2 place nonempty next step ih =>
        rw [scan_eq_of_next step] at h
        obtain ⟨last, visits, runsOff⟩ := ih h
        exact ⟨last, .head step visits, runsOff⟩
    | case3 place nonempty step =>
        rw [scan, if_neg nonempty] at h
        split at h <;> simp_all
    | case4 place nonempty value step =>
        rw [scan_eq_stopped step] at h
        cases h
    | case5 place nonempty step => exact ⟨place, .refl, step⟩
  · rintro ⟨last, visits, runsOff⟩
    rw [scan_eq_of_visits visits, scan]
    have nonempty := ((round_eq_overread_iff key last).mp runsOff).2.1
    rw [if_neg nonempty]
    split <;> simp_all

/-- **Which lookups stay inside their text.** Every byte that `simpleJsonProcessor` reads lies
in the string or is its terminator, unless the key scan runs off the end. -/
theorem lookup_reads_inside_iff (data key : CString) (nonempty : key.bytes ≠ [])
    (value : Option (List Byte)) (size : Int) :
    (∃ lookup, simpleJsonProcessor data key value size = .ok lookup) ↔
      ¬ RunsOff key.bytes data.bytes := by
  rw [simpleJsonProcessor_ok_iff data key nonempty value size, ne_eq, scan_eq_overread_iff]
  simp only [RunsOff, round_eq_overread_iff]

/-- The text ends behind a key in quotes: the scan has moved over the terminator. -/
theorem lookup_reads_inside_counterexample :
    ¬ ∀ (data key : CString) (value : Option (List Byte)) (size : Int), key.bytes ≠ [] →
      ∃ lookup, simpleJsonProcessor data key value size = .ok lookup := by
  intro inside
  obtain ⟨lookup, ok⟩ := inside (CString.literal "\x7b\"objectId\"") (CString.literal "objectId")
    none 0 (by decide)
  have runsOff : simpleJsonProcessor (CString.literal "\x7b\"objectId\"")
      (CString.literal "objectId") none 0 = .error ⟨12⟩ := by decide
  rw [runsOff] at ok
  cases ok

theorem lookup_reads_inside_witness :
    CString.bytes (CString.literal "id") ≠ [] ∧
      ¬ RunsOff (ascii "id") (ascii "\x7b\"id\":7\x7d") :=
  ⟨by decide, (lookup_reads_inside_iff (CString.literal "\x7b\"id\":7\x7d") (CString.literal "id")
    (by decide) none 0).mp ⟨⟨1, none⟩, by decide⟩⟩

end ParseEmbedded.SimpleJson
