import ParseEmbedded.SimpleJson.PassingKeys

/-!
# Finding a member by its name

The key scan compares the key at every byte of the outermost object, and where it finds the key
it skips the byte behind it without looking whether that byte opens or closes something. A member
is found exactly by its name when no such byte matters: `Unmistaken` says so along the members of
the object, and `scan_members` is the induction over them. A name that only ends in the key is
taken for the key (`Misled`, `scan_misled`).
-/

set_option autoImplicit false

namespace ParseEmbedded.SimpleJson

open Json

/-! ## The members of the outermost object -/

/-- Whitespace of spaces and tabs only. -/
def IsSpacing (blanks : Blanks) : Prop := ∀ blank ∈ blanks, blank = .space ∨ blank = .tab

/-- Only spaces and tabs stand around the names and the values of the members. -/
def Spaced : Members → Prop
  | .last before _ afterName beforeValue _ after =>
      IsSpacing before ∧ IsSpacing afterName ∧ IsSpacing beforeValue ∧ IsSpacing after
  | .more before _ afterName beforeValue _ after rest =>
      IsSpacing before ∧ IsSpacing afterName ∧ IsSpacing beforeValue ∧ IsSpacing after ∧
        Spaced rest

/-- The names of the members, as written. -/
def names : Members → List (List Byte)
  | .last _ name _ _ _ _ => [name.text]
  | .more _ name _ _ _ _ rest => name.text :: names rest

/-- The value of the first member with this name. -/
def memberValue (name : List Byte) : Members → Option Value
  | .last _ name' _ _ v _ => if name'.text = name then some v else none
  | .more _ name' _ _ v _ rest => if name'.text = name then some v else memberValue name rest

def objectValue (name : List Byte) : Object → Option Value
  | .empty _ => none
  | .of members => memberValue name members

/-- The text from the value of the first member with this name, where `behind` follows the
members. -/
def valueFrom (name behind : List Byte) : Members → Option (List Byte)
  | .last _ name' _ _ v after =>
      if name'.text = name then some (v.text ++ (after.text ++ behind)) else none
  | .more _ name' _ _ v after rest =>
      if name'.text = name then
        some (v.text ++ (after.text ++ Byte.comma :: (rest.text ++ behind)))
      else valueFrom name behind rest

theorem valueFrom_isSome (name behind : List Byte) (members : Members) :
    (valueFrom name behind members).isSome ↔ name ∈ names members := by
  fun_induction valueFrom name behind members with
  | case1 before afterName beforeValue v after name' same =>
      exact ⟨fun _ => List.mem_singleton.mpr same.symm, fun _ => rfl⟩
  | case2 before afterName beforeValue v after name' differs =>
      refine ⟨fun none => Bool.noConfusion none, fun member => ?_⟩
      exact absurd (List.mem_singleton.mp member).symm differs
  | case3 before afterName beforeValue v after rest name' same =>
      exact ⟨fun _ => List.mem_cons.mpr (.inl same.symm), fun _ => rfl⟩
  | case4 before afterName beforeValue v after rest name' differs ih =>
      rw [ih, names, List.mem_cons]
      exact ⟨.inr, fun member => member.resolve_left fun same => differs same.symm⟩

/-- The value found is what is left of the text there. -/
theorem valueFrom_suffix (name behind : List Byte) :
    ∀ {members : Members} {value : List Byte}, valueFrom name behind members = some value →
      value <:+ members.text ++ behind
  | .last before name' afterName beforeValue v after, value, h => by
      rw [valueFrom] at h
      split at h
      · cases h
        refine ⟨label before name' afterName beforeValue, ?_⟩
        simp [Members.text]
      · cases h
  | .more before name' afterName beforeValue v after rest, value, h => by
      rw [valueFrom] at h
      split at h
      · cases h
        refine ⟨label before name' afterName beforeValue, ?_⟩
        simp [Members.text]
      · obtain ⟨front, same⟩ := valueFrom_suffix name behind h
        refine ⟨label before name' afterName beforeValue ++ v.text ++ after.text ++
          Byte.comma :: front, ?_⟩
        simp [Members.text, same]

/-- The text of the last member, and what is behind the members. -/
theorem last_text (before : Blanks) (name : StringBody) (afterName beforeValue : Blanks) (v : Value)
    (after : Blanks) (behind : List Byte) :
    (Members.last before name afterName beforeValue v after).text ++ behind =
      before.text ++ Byte.quote :: (name.text ++ Byte.quote :: (afterName.text ++
        Byte.colon :: (beforeValue.text ++ (v.text ++ (after.text ++ behind))))) := by
  simp [Members.text, label, quoted]

/-- The text of a member, and of the members behind it. -/
theorem more_text (before : Blanks) (name : StringBody) (afterName beforeValue : Blanks) (v : Value)
    (after : Blanks) (rest : Members) (behind : List Byte) :
    (Members.more before name afterName beforeValue v after rest).text ++ behind =
      before.text ++ Byte.quote :: (name.text ++ Byte.quote :: (afterName.text ++
        Byte.colon :: (beforeValue.text ++ (v.text ++ (after.text ++
          Byte.comma :: (rest.text ++ behind)))))) := by
  simp [Members.text, label, quoted]

/-- The search passes the last value. It may be a string that ends in the key, since only the
closing brace comes behind it. -/
def PassesLast (key gap : List Byte) : Value → Prop
  | .literal _ => True
  | .string body => Passes key false gap ∧ ∃ ended, Passes key ended body.text
  | .array _ => Passes key false gap
  | .object _ => Passes key false gap

/-- The search passes from behind the name of a member to the next member, and `next` holds of
the text since the last quote or bracket. -/
def PassesOn (key : List Byte) (afterName beforeValue : Blanks) (v : Value) (after : Blanks)
    (next : List Byte → Prop) : Prop :=
  match v with
  | .literal l =>
      next (afterName.text ++
        Byte.colon :: (beforeValue.text ++ (l.text ++ (after.text ++ [Byte.comma]))))
  | .string body =>
      Passes key false (afterName.text ++ Byte.colon :: beforeValue.text) ∧
        Passes key false body.text ∧ next (after.text ++ [Byte.comma])
  | .array _ =>
      Passes key false (afterName.text ++ Byte.colon :: beforeValue.text) ∧
        next (after.text ++ [Byte.comma])
  | .object _ =>
      Passes key false (afterName.text ++ Byte.colon :: beforeValue.text) ∧
        next (after.text ++ [Byte.comma])

/-- The search passes from behind the name of a member to the end of a text behind its value, and
`next` holds of the text since the last quote or bracket. -/
def PassesTo (key : List Byte) (afterName beforeValue : Blanks) (v : Value) (behind : List Byte)
    (next : List Byte → Prop) : Prop :=
  match v with
  | .literal l =>
      next (afterName.text ++ Byte.colon :: (beforeValue.text ++ (l.text ++ behind)))
  | .string body =>
      Passes key false (afterName.text ++ Byte.colon :: beforeValue.text) ∧
        Passes key false body.text ∧ next behind
  | .array _ =>
      Passes key false (afterName.text ++ Byte.colon :: beforeValue.text) ∧ next behind
  | .object _ =>
      Passes key false (afterName.text ++ Byte.colon :: beforeValue.text) ∧ next behind

theorem PassesOn.passesTo {key : List Byte} {afterName beforeValue : Blanks} {v : Value}
    {after : Blanks} {next : List Byte → Prop}
    (passes : PassesOn key afterName beforeValue v after next) :
    PassesTo key afterName beforeValue v (after.text ++ [Byte.comma]) next := by
  cases v <;> exact passes

/-- **When the key scan is not misled.** `stretch` is the text in front of the members since the
last quote or bracket. The search for the key loses nothing on the way to the first member with
that name: not between the tokens, not in the names and not in the values. -/
def Unmistaken (key : List Byte) : (stretch : List Byte) → Members → Prop
  | stretch, .last before name afterName beforeValue v _ =>
      Passes key false (stretch ++ before.text) ∧
        (name.text = key ∨
          Passes key false name.text ∧
            PassesLast key (afterName.text ++ Byte.colon :: beforeValue.text) v)
  | stretch, .more before name afterName beforeValue v after rest =>
      Passes key false (stretch ++ before.text) ∧
        (name.text = key ∨
          Passes key false name.text ∧ PassesOn key afterName beforeValue v after fun stretch =>
            Unmistaken key stretch rest)

/-- The search loses nothing either, but on the way it comes to a name that ends in the key and
is another one. -/
def Misled (key : List Byte) : (stretch : List Byte) → Members → Prop
  | stretch, .last before name _ _ _ _ =>
      Passes key false (stretch ++ before.text) ∧ name.text ≠ key ∧ Passes key true name.text
  | stretch, .more before name afterName beforeValue v after rest =>
      Passes key false (stretch ++ before.text) ∧ name.text ≠ key ∧
        (Passes key true name.text ∨
          Passes key false name.text ∧ PassesOn key afterName beforeValue v after fun stretch =>
            Misled key stretch rest)

/-! ## The scan of the members -/

/-- Every stretch without quotes and brackets is passed over, up to a key that may end it. -/
theorem passes_inert (k : PlainKey) :
    ∀ (n : Nat) (text : List Byte), text.length ≤ n → (∀ c ∈ text, IsInert c) →
      ∃ ended, Passes k.bytes ended text := by
  intro n
  induction n with
  | zero =>
      intro text short _
      rw [List.length_eq_zero_iff.mp (Nat.le_zero.mp short)]
      exact ⟨false, .done⟩
  | succ n ih =>
      intro text short inert
      cases text with
      | nil => exact ⟨false, .done⟩
      | cons c tail =>
          by_cases starts : k.bytes <+: c :: tail
          · obtain ⟨behind, same⟩ := starts
            cases behind with
            | nil =>
                rw [← same, List.append_nil]
                exact ⟨true, .ends⟩
            | cons d rest =>
                have inertBehind : ∀ b ∈ d :: rest, IsInert b := fun b member =>
                  inert b (same ▸ List.mem_append_right _ member)
                have shorter : rest.length ≤ n := by
                  have := congrArg List.length same
                  simp only [List.length_append, List.length_cons] at this short
                  omega
                obtain ⟨ended, passes⟩ := ih rest shorter fun b member =>
                  inertBehind b (List.mem_cons_of_mem d member)
                have inertD := inertBehind d (List.mem_cons_self ..)
                rw [← same]
                exact ⟨ended, .key inertD.1 inertD.2.1 passes⟩
          · have inertC := inert c (List.mem_cons_self ..)
            obtain ⟨ended, passes⟩ := ih tail (Nat.le_of_succ_le_succ short) fun b member =>
              inert b (List.mem_cons_of_mem c member)
            exact ⟨ended, .byte starts inertC.1 inertC.2.1 passes⟩

theorem dropBlanks_spacing {blanks : Blanks} (spacing : IsSpacing blanks) {c : Byte}
    (solid : ¬ IsBlank c) (tail : List Byte) :
    dropBlanks (Blanks.text blanks ++ c :: tail) = c :: tail := by
  induction blanks with
  | nil => exact List.dropWhile_cons_of_neg (by simpa using solid)
  | cons blank blanks ih =>
      have isBlank : IsBlank blank.byte := by
        rcases spacing blank (List.mem_cons_self ..) with rfl | rfl
        · exact .inl rfl
        · exact .inr rfl
      have dropped : dropBlanks (blank.byte :: (Blanks.text blanks ++ c :: tail)) =
          dropBlanks (Blanks.text blanks ++ c :: tail) :=
        List.dropWhile_cons_of_pos (by simpa using isBlank)
      rw [Blanks.text, List.map_cons, List.cons_append]
      exact dropped.trans (ih fun b member => spacing b (List.mem_cons_of_mem blank member))

theorem dropBlanks_value {blanks : Blanks} (spacing : IsSpacing blanks) (v : Value)
    (tail : List Byte) : dropBlanks (blanks.text ++ (v.text ++ tail)) = v.text ++ tail := by
  obtain ⟨c, rest, same, differs⟩ := v.text_starts
  have solid : ¬ IsBlank c := by
    rintro (blank | blank)
    · exact differs .space blank
    · exact differs .tab blank
  rw [same, List.cons_append]
  exact dropBlanks_spacing spacing solid _

section Members

variable (k : PlainKey)

/-- A quote opens or closes a string. -/
theorem visits_quote (tail : List Byte) (inString : Bool) (level : Int) :
    Visits k.bytes ⟨Byte.quote :: tail, inString, level⟩ ⟨tail, !inString, level⟩ :=
  .single (round_pass k (k.not_prefix_cons (by decide) _))

/-- Behind the object nothing is found, unless the text ends in the key. -/
theorem scan_behind {text : List Byte} (passes : Passes k.bytes false text)
    (inert : ∀ c ∈ text, IsInert c) {level : Int} (outer : level ≤ 1) (inString : Bool) :
    scan k.bytes ⟨text, inString, level⟩ = .absent := by
  have visits : Visits k.bytes ⟨text ++ [], inString, level⟩ _ :=
    visits_passes k passes .nil outer (.inr inert)
  rw [List.append_nil] at visits
  exact (scan_eq_of_visits visits).trans (scan_nil ..)

/-- Behind the last member nothing is found any more. -/
theorem scan_closing {text : List Byte} (inert : ∀ c ∈ text, IsInert c) {after : Blanks}
    (passesAfter : Passes k.bytes false after.text) :
    scan k.bytes ⟨text ++ Byte.closeBrace :: after.text, false, 1⟩ = .absent := by
  obtain ⟨ended, passes⟩ := passes_inert k text.length text (Nat.le_refl _) inert
  have visits : Visits k.bytes ⟨text ++ Byte.closeBrace :: after.text, false, 1⟩ _ :=
    visits_passes k passes (.cons (by decide) _) (Int.le_refl 1) (.inr inert)
  rw [scan_eq_of_visits visits]
  cases ended with
  | false =>
      have last : round k.bytes ⟨Byte.closeBrace :: after.text, false, 1⟩ =
          .next ⟨after.text, false, 0⟩ := round_pass k (k.not_prefix_cons (by decide) _)
      exact (scan_eq_of_next last).trans
        (scan_behind k passesAfter Blanks.inert Int.one_nonneg false)
  | true =>
      have last : round k.bytes ⟨k.bytes ++ Byte.closeBrace :: after.text, false, 1⟩ =
          .next ⟨after.text, false, 1⟩ := round_key k (Int.le_refl 1) false _
      exact (scan_eq_of_next last).trans
        (scan_behind k passesAfter Blanks.inert (Int.le_refl 1) false)

/-- The last value is a string: it may end in the key. -/
theorem scan_closing_string {ended : Bool} {body : StringBody}
    (passes : Passes k.bytes ended body.text) {afterValue : Blanks} (spacing : IsSpacing afterValue)
    {after : Blanks} (passesAfter : Passes k.bytes false after.text) :
    scan k.bytes ⟨quoted body ++ (afterValue.text ++ Byte.closeBrace :: after.text), false, 1⟩ =
      .absent := by
  have text : quoted body ++ (afterValue.text ++ Byte.closeBrace :: after.text) =
      Byte.quote :: (body.text ++
        Byte.quote :: (afterValue.text ++ Byte.closeBrace :: after.text)) := by
    simp [quoted]
  rw [text, scan_eq_of_visits (visits_quote k _ false 1)]
  have visits : Visits k.bytes ⟨body.text ++
      Byte.quote :: (afterValue.text ++ Byte.closeBrace :: after.text), true, 1⟩ _ :=
    visits_passes k passes (.cons (by decide) _) (Int.le_refl 1) (.inl rfl)
  rw [Bool.not_false, scan_eq_of_visits visits]
  cases ended with
  | false =>
      refine (scan_eq_of_visits (visits_quote k _ true 1)).trans ?_
      exact scan_closing k Blanks.inert passesAfter
  | true =>
      -- the closing brace is taken for the byte behind a name
      have last : round k.bytes ⟨k.bytes ++
          Byte.quote :: (afterValue.text ++ Byte.closeBrace :: after.text), true, 1⟩ =
            .next ⟨after.text, true, 1⟩ := by
        rw [round_key k (Int.le_refl 1)]
        simp only [passKey, dropBlanks_spacing spacing (c := Byte.closeBrace) (by decide)]
        rfl
      exact (scan_eq_of_next last).trans
        (scan_behind k passesAfter Blanks.inert (Int.le_refl 1) true)

/-- A name equal to the key, with its colon, ends the scan at its value. -/
theorem round_name {afterName beforeValue : Blanks} (spacing : IsSpacing afterName)
    (spacing' : IsSpacing beforeValue) (v : Value) (tail : List Byte) :
    round k.bytes ⟨k.bytes ++ Byte.quote :: (afterName.text ++
      Byte.colon :: (beforeValue.text ++ (v.text ++ tail))), true, 1⟩ =
        .stop (v.text ++ tail) := by
  rw [round_key k (Int.le_refl 1)]
  simp only [passKey, dropBlanks_spacing spacing (c := Byte.colon) (by decide),
    dropBlanks_value spacing' v]
  rfl

/-- The scan comes to the name of a member. -/
theorem visits_name {stretch : List Byte} (inert : ∀ c ∈ stretch, IsInert c) {before : Blanks}
    (passes : Passes k.bytes false (stretch ++ before.text)) (tail : List Byte) :
    Visits k.bytes ⟨stretch ++ (before.text ++ Byte.quote :: tail), false, 1⟩
      ⟨tail, true, 1⟩ := by
  have inert' : ∀ c ∈ stretch ++ before.text, IsInert c := by
    intro c member
    rcases List.mem_append.mp member with inStretch | inBlanks
    · exact inert c inStretch
    · exact Blanks.inert c inBlanks
  have visits : Visits k.bytes ⟨stretch ++ before.text ++ Byte.quote :: tail, false, 1⟩ _ :=
    visits_passes k passes (.cons (by decide) _) (Int.le_refl 1) (.inr inert')
  rw [List.append_assoc] at visits
  exact visits.trans (visits_quote k tail false 1)

/-- The scan passes the name of a member, which does not end in the key. -/
theorem visits_behind_name {name : StringBody} (passes : Passes k.bytes false name.text)
    (tail : List Byte) :
    Visits k.bytes ⟨name.text ++ Byte.quote :: tail, true, 1⟩ ⟨tail, false, 1⟩ :=
  (visits_passes k passes (.cons (by decide) _) (Int.le_refl 1) (.inl rfl)).trans
    (visits_quote k tail true 1)

/-- The scan comes to a value that is no literal. -/
theorem visits_value {afterName beforeValue : Blanks}
    (passes : Passes k.bytes false (afterName.text ++ Byte.colon :: beforeValue.text))
    {c : Byte} (notInert : ¬ IsInert c) (tail : List Byte) :
    Visits k.bytes ⟨afterName.text ++ Byte.colon :: (beforeValue.text ++ c :: tail), false, 1⟩
      ⟨c :: tail, false, 1⟩ := by
  have inert : ∀ c ∈ afterName.text ++ Byte.colon :: beforeValue.text, IsInert c := by
    intro c member
    rcases List.mem_append.mp member with inBlanks | member
    · exact Blanks.inert c inBlanks
    rcases List.mem_cons.mp member with rfl | inBlanks
    · decide
    · exact Blanks.inert c inBlanks
  have visits : Visits k.bytes
      ⟨afterName.text ++ Byte.colon :: beforeValue.text ++ c :: tail, false, 1⟩ _ :=
    visits_passes k passes (.cons notInert _) (Int.le_refl 1) (.inr inert)
  rwa [List.append_assoc, List.cons_append] at visits

/-- The scan passes a value in brackets, from the name before it on. -/
theorem visits_behind_array {afterName beforeValue : Blanks}
    (passes : Passes k.bytes false (afterName.text ++ Byte.colon :: beforeValue.text))
    (a : Json.Array) (tail : List Byte) :
    Visits k.bytes ⟨afterName.text ++ Byte.colon :: (beforeValue.text ++ (a.text ++ tail)),
      false, 1⟩ ⟨tail, false, 1⟩ := by
  refine .trans ?_ (visits_array k a tail)
  cases a with
  | empty blanks => exact visits_value k passes (by decide) _
  | of elements => exact visits_value k passes (by decide) _

theorem visits_behind_object {afterName beforeValue : Blanks}
    (passes : Passes k.bytes false (afterName.text ++ Byte.colon :: beforeValue.text))
    (o : Object) (tail : List Byte) :
    Visits k.bytes ⟨afterName.text ++ Byte.colon :: (beforeValue.text ++ (o.text ++ tail)),
      false, 1⟩ ⟨tail, false, 1⟩ := by
  refine .trans ?_ (visits_object k o tail)
  rw [Object.text_eq]
  exact visits_value k passes (by decide) _

/-- The scan passes a string that does not end in the key. -/
theorem visits_behind_string {afterName beforeValue : Blanks}
    (passes : Passes k.bytes false (afterName.text ++ Byte.colon :: beforeValue.text))
    {body : StringBody} (passesBody : Passes k.bytes false body.text) (tail : List Byte) :
    Visits k.bytes ⟨afterName.text ++ Byte.colon :: (beforeValue.text ++ (quoted body ++ tail)),
      false, 1⟩ ⟨tail, false, 1⟩ := by
  have text : quoted body ++ tail = Byte.quote :: (body.text ++ Byte.quote :: tail) := by
    simp [quoted]
  rw [text]
  exact (visits_value k passes (by decide) _).trans
    ((visits_quote k _ false 1).trans (visits_behind_name k passesBody tail))

/-- The scan passes from behind the name of a member to the end of a text behind its value. -/
theorem visits_to {afterName beforeValue : Blanks} {v : Value} {behind : List Byte}
    {next : List Byte → Prop} (passes : PassesTo k.bytes afterName beforeValue v behind next)
    (inertBehind : ∀ c ∈ behind, IsInert c) (tail : List Byte) :
    ∃ stretch, (∀ c ∈ stretch, IsInert c) ∧ next stretch ∧
      Visits k.bytes ⟨afterName.text ++ Byte.colon :: (beforeValue.text ++
        (v.text ++ (behind ++ tail))), false, 1⟩ ⟨stretch ++ tail, false, 1⟩ := by
  cases v with
  | literal l =>
      refine ⟨_, fun c member => ?_, passes, ?_⟩
      · rcases List.mem_append.mp member with inBlanks | member
        · exact Blanks.inert c inBlanks
        rcases List.mem_cons.mp member with rfl | member
        · decide
        rcases List.mem_append.mp member with inBlanks | member
        · exact Blanks.inert c inBlanks
        rcases List.mem_append.mp member with inLiteral | member
        · exact l.inert c inLiteral
        · exact inertBehind c member
      · have text : afterName.text ++ Byte.colon :: (beforeValue.text ++
            (l.text ++ (behind ++ tail))) =
              afterName.text ++ Byte.colon :: (beforeValue.text ++ (l.text ++ behind)) ++ tail := by
          simp
        rw [Value.text, text]
  | string body =>
      obtain ⟨passesGap, passesBody, holds⟩ := passes
      refine ⟨_, inertBehind, holds, ?_⟩
      rw [Value.text]
      exact visits_behind_string k passesGap passesBody _
  | array a =>
      obtain ⟨passesGap, holds⟩ := passes
      refine ⟨_, inertBehind, holds, ?_⟩
      rw [Value.text]
      exact visits_behind_array k passesGap a _
  | object o =>
      obtain ⟨passesGap, holds⟩ := passes
      refine ⟨_, inertBehind, holds, ?_⟩
      rw [Value.text]
      exact visits_behind_object k passesGap o _

/-- The scan passes from behind the name of a member to the next member. -/
theorem visits_next {afterName beforeValue : Blanks} {v : Value} {after : Blanks}
    {next : List Byte → Prop}
    (passes : PassesTo k.bytes afterName beforeValue v (after.text ++ [Byte.comma]) next)
    (tail : List Byte) :
    ∃ stretch, (∀ c ∈ stretch, IsInert c) ∧ next stretch ∧
      Visits k.bytes ⟨afterName.text ++ Byte.colon :: (beforeValue.text ++
        (v.text ++ (after.text ++ Byte.comma :: tail))), false, 1⟩ ⟨stretch ++ tail, false, 1⟩ := by
  have inertAfter : ∀ c ∈ after.text ++ [Byte.comma], IsInert c := by
    intro c member
    rcases List.mem_append.mp member with inBlanks | isComma
    · exact Blanks.inert c inBlanks
    · cases List.mem_singleton.mp isComma
      decide
  obtain ⟨stretch, inert, holds, visits⟩ := visits_to k passes inertAfter tail
  rw [List.append_assoc, List.singleton_append] at visits
  exact ⟨stretch, inert, holds, visits⟩

/-- Nothing is found behind the name of the last member. -/
theorem scan_last {afterName beforeValue afterValue : Blanks} (spacing : IsSpacing afterValue)
    {after : Blanks} (passesAfter : Passes k.bytes false after.text) {v : Value}
    (passes : PassesLast k.bytes (afterName.text ++ Byte.colon :: beforeValue.text) v) :
    scan k.bytes ⟨afterName.text ++ Byte.colon :: (beforeValue.text ++
      (v.text ++ (afterValue.text ++ Byte.closeBrace :: after.text))), false, 1⟩ = .absent := by
  cases v with
  | literal l =>
      have text : afterName.text ++ Byte.colon :: (beforeValue.text ++
          (l.text ++ (afterValue.text ++ Byte.closeBrace :: after.text))) =
            afterName.text ++ Byte.colon :: (beforeValue.text ++ (l.text ++ afterValue.text)) ++
              Byte.closeBrace :: after.text := by
        simp
      rw [Value.text, text]
      refine scan_closing k (fun c member => ?_) passesAfter
      simp only [List.mem_append, List.mem_cons] at member
      rcases member with member | rfl | member | member | member
      · exact Blanks.inert c member
      · decide
      · exact Blanks.inert c member
      · exact l.inert c member
      · exact Blanks.inert c member
  | string body =>
      obtain ⟨passesGap, ended, passesBody⟩ := passes
      rw [Value.text]
      refine (scan_eq_of_visits (visits_value k passesGap (by decide) _)).trans ?_
      exact scan_closing_string k passesBody spacing passesAfter
  | array a =>
      rw [Value.text, scan_eq_of_visits (visits_behind_array k passes a _)]
      exact scan_closing k Blanks.inert passesAfter
  | object o =>
      rw [Value.text, scan_eq_of_visits (visits_behind_object k passes o _)]
      exact scan_closing k Blanks.inert passesAfter

/-- How a search for a member ends. -/
def memberEnd : Option (List Byte) → ScanEnd
  | none => .absent
  | some value => .stopped value

/-- **The scan finds the first member with the name, if it is not misled on the way.** -/
theorem scan_members {after : Blanks} : ∀ (members : Members) {stretch : List Byte},
    (∀ c ∈ stretch, IsInert c) → Spaced members → Unmistaken k.bytes stretch members →
      (k.bytes ∈ names members ∨ Passes k.bytes false after.text) →
      scan k.bytes ⟨stretch ++ (members.text ++ Byte.closeBrace :: after.text), false, 1⟩ =
        memberEnd (valueFrom k.bytes (Byte.closeBrace :: after.text) members)
  | .last before name afterName beforeValue v afterValue, stretch, inert, spaced, unmistaken,
      behind => by
      obtain ⟨-, spacedName, spacedValue, spacedAfter⟩ := spaced
      obtain ⟨passesBefore, passesMember⟩ := unmistaken
      rw [last_text, scan_eq_of_visits (visits_name k inert passesBefore _), valueFrom]
      by_cases found : name.text = k.bytes
      · rw [found, if_pos rfl]
        exact scan_eq_stopped (round_name k spacedName spacedValue v _)
      obtain ⟨passesName, passesValue⟩ := passesMember.resolve_left found
      have absent : k.bytes ∉ names (.last before name afterName beforeValue v afterValue) :=
        fun member => found (List.mem_singleton.mp member).symm
      rw [if_neg found, scan_eq_of_visits (visits_behind_name k passesName _)]
      exact scan_last k spacedAfter (behind.resolve_left absent) passesValue
  | .more before name afterName beforeValue v afterValue rest, stretch, inert, spaced, unmistaken,
      behind => by
      obtain ⟨-, spacedName, spacedValue, -, spacedRest⟩ := spaced
      obtain ⟨passesBefore, passesMember⟩ := unmistaken
      rw [more_text, scan_eq_of_visits (visits_name k inert passesBefore _), valueFrom]
      by_cases found : name.text = k.bytes
      · rw [found, if_pos rfl]
        exact scan_eq_stopped (round_name k spacedName spacedValue v _)
      obtain ⟨passesName, passesValue⟩ := passesMember.resolve_left found
      have behindRest : k.bytes ∈ names rest ∨ Passes k.bytes false after.text :=
        behind.imp_left fun member =>
          (List.mem_cons.mp member).resolve_left fun same => found same.symm
      obtain ⟨stretch', inert', unmistakenRest, visits⟩ := visits_next k passesValue.passesTo
        (rest.text ++ Byte.closeBrace :: after.text)
      rw [if_neg found, scan_eq_of_visits (visits_behind_name k passesName _),
        scan_eq_of_visits visits]
      exact scan_members rest inert' spacedRest unmistakenRest behindRest

/-- **The scan stops at a name that ends in the key, whatever the name is.** -/
theorem scan_misled (behind : List Byte) : ∀ (members : Members) {stretch : List Byte},
    (∀ c ∈ stretch, IsInert c) → Spaced members → Misled k.bytes stretch members →
      ∃ (v : Value) (tail : List Byte),
        scan k.bytes ⟨stretch ++ (members.text ++ behind), false, 1⟩ = .stopped (v.text ++ tail) ∧
          v.text ++ tail <:+ members.text ++ behind ∧
            valueFrom k.bytes behind members ≠ some (v.text ++ tail)
  | .last before name afterName beforeValue v afterValue, stretch, inert, spaced, misled => by
      obtain ⟨-, spacedName, spacedValue, -⟩ := spaced
      obtain ⟨passesBefore, differs, atEnd⟩ := misled
      refine ⟨v, afterValue.text ++ behind, ?_, ?_, ?_⟩
      · rw [last_text, scan_eq_of_visits (visits_name k inert passesBefore _),
          scan_eq_of_visits
            (visits_passes k atEnd (.cons (by decide) _) (Int.le_refl 1) (.inl rfl))]
        exact scan_eq_stopped (round_name k spacedName spacedValue v _)
      · refine ⟨label before name afterName beforeValue, ?_⟩
        simp [Members.text]
      · rw [valueFrom, if_neg differs]
        exact fun none => by cases none
  | .more before name afterName beforeValue v afterValue rest, stretch, inert, spaced, misled => by
      obtain ⟨-, spacedName, spacedValue, -, spacedRest⟩ := spaced
      obtain ⟨passesBefore, differs, misledOn⟩ := misled
      rw [more_text, scan_eq_of_visits (visits_name k inert passesBefore _), valueFrom,
        if_neg differs]
      have front : before.text ++ Byte.quote :: (name.text ++ Byte.quote :: (afterName.text ++
          Byte.colon :: (beforeValue.text ++ (v.text ++ (afterValue.text ++
            Byte.comma :: (rest.text ++ behind)))))) =
              label before name afterName beforeValue ++ (v.text ++ (afterValue.text ++
                Byte.comma :: (rest.text ++ behind))) := by
        simp [label, quoted]
      rw [front]
      rcases misledOn with atEnd | ⟨passesName, passesValue⟩
      · refine ⟨v, afterValue.text ++ Byte.comma :: (rest.text ++ behind), ?_,
          List.suffix_append .., fun found => ?_⟩
        · rw [scan_eq_of_visits
            (visits_passes k atEnd (.cons (by decide) _) (Int.le_refl 1) (.inl rfl))]
          exact scan_eq_stopped (round_name k spacedName spacedValue v _)
        · -- the value of a later member is shorter
          have short := (valueFrom_suffix k.bytes behind found).length_le
          simp only [List.length_append, List.length_cons] at short
          omega
      · obtain ⟨stretch', inert', misledRest, visits⟩ := visits_next k passesValue.passesTo
          (rest.text ++ behind)
        obtain ⟨v', tail, stops, suffix, wrong⟩ :=
          scan_misled behind rest inert' spacedRest misledRest
        refine ⟨v', tail, ?_, suffix.trans ?_, wrong⟩
        · rw [scan_eq_of_visits (visits_behind_name k passesName _), scan_eq_of_visits visits]
          exact stops
        · refine ⟨label before name afterName beforeValue ++ (v.text ++ (afterValue.text ++
            [Byte.comma])), ?_⟩
          simp

end Members

/-! ## The lookup -/

/-- The names of the outermost object. -/
def objectNames : Object → List (List Byte)
  | .empty _ => []
  | .of members => names members

/-- The text from the value of the first member of the outermost object with this name. -/
def documentValue (name : List Byte) (d : Document) : Option (List Byte) :=
  match d.object with
  | .empty _ => none
  | .of members => valueFrom name (Byte.closeBrace :: d.after.text) members

def SpacedObject : Object → Prop
  | .empty _ => True
  | .of members => Spaced members

/-- The key scan is not misled in this document: neither in front of the object, nor up to the
member with the name, nor, where there is none, behind the object. -/
def UnmistakenDocument (key : List Byte) (d : Document) : Prop :=
  Passes key false d.before.text ∧
    (match d.object with
      | .empty _ => True
      | .of members => Unmistaken key [] members) ∧
    (key ∈ objectNames d.object ∨ Passes key false d.after.text)

/-- The key scan comes to a name that ends in the key. -/
def MisledDocument (key : List Byte) (d : Document) : Prop :=
  Passes key false d.before.text ∧
    match d.object with
    | .empty _ => False
    | .of members => Misled key [] members

/-- What a lookup by name has to do: say whether the outermost object has the member, and extract
from the value of the first such member. -/
structure LooksUpExactly (k : PlainKey) (d : Document) : Prop where
  result : simpleJsonProcessor d.string k.key none 0 = .ok ⟨1, none⟩ ↔
    k.bytes ∈ objectNames d.object
  value : ∀ buffer size lookup,
    simpleJsonProcessor d.string k.key (some buffer) size = .ok lookup → lookup.result = 1 →
      ∃ found json endWithQuote,
        findKey d.string k.key = .ok (.stopped found json endWithQuote) ∧
          documentValue k.bytes d = some (d.string.rest found)

theorem documentValue_isSome (name : List Byte) (d : Document) :
    (documentValue name d).isSome ↔ name ∈ objectNames d.object := by
  obtain ⟨before, o, after⟩ := d
  cases o with
  | empty blanks => simp [documentValue, objectNames]
  | of members => exact valueFrom_isSome name _ members

/-- The scan comes to what stands between the outermost braces. -/
theorem scan_opening (k : PlainKey) {d : Document} (passes : Passes k.bytes false d.before.text) :
    scan k.bytes ⟨d.text, false, 0⟩ =
      scan k.bytes ⟨d.object.inner ++ Byte.closeBrace :: d.after.text, false, 1⟩ := by
  have text : d.text = d.before.text ++
      Byte.openBrace :: (d.object.inner ++ Byte.closeBrace :: d.after.text) := by
    simp [Document.text, Object.text_eq]
  have visits : Visits k.bytes ⟨d.before.text ++
      Byte.openBrace :: (d.object.inner ++ Byte.closeBrace :: d.after.text), false, 0⟩ _ :=
    visits_passes k passes (.cons (by decide) _) Int.one_nonneg (.inr Blanks.inert)
  have opens : round k.bytes
      ⟨Byte.openBrace :: (d.object.inner ++ Byte.closeBrace :: d.after.text), false, 0⟩ =
        .next ⟨d.object.inner ++ Byte.closeBrace :: d.after.text, false, 1⟩ :=
    round_pass k (k.not_prefix_cons (by decide) _)
  rw [text, scan_eq_of_visits visits]
  exact scan_eq_of_next opens

theorem scan_document (k : PlainKey) {d : Document} (spaced : SpacedObject d.object)
    (unmistaken : UnmistakenDocument k.bytes d) :
    scan k.bytes ⟨d.text, false, 0⟩ = memberEnd (documentValue k.bytes d) := by
  obtain ⟨passesBefore, passesMembers, behind⟩ := unmistaken
  rw [scan_opening k passesBefore]
  obtain ⟨before, o, after⟩ := d
  cases o with
  | empty blanks =>
      have passesAfter := behind.resolve_left (List.not_mem_nil)
      exact scan_closing k Blanks.inert passesAfter
  | of members =>
      have noStretch : ∀ c ∈ ([] : List Byte), IsInert c := by simp
      exact scan_members k members noStretch spaced passesMembers behind

theorem scan_misledDocument (k : PlainKey) {d : Document} (spaced : SpacedObject d.object)
    (misled : MisledDocument k.bytes d) :
    ∃ (v : Value) (tail : List Byte),
      scan k.bytes ⟨d.text, false, 0⟩ = .stopped (v.text ++ tail) ∧
        v.text ++ tail <:+ d.text ∧ documentValue k.bytes d ≠ some (v.text ++ tail) := by
  obtain ⟨passesBefore, misledMembers⟩ := misled
  rw [scan_opening k passesBefore]
  obtain ⟨before, o, after⟩ := d
  cases o with
  | empty blanks => exact misledMembers.elim
  | of members =>
      have noStretch : ∀ c ∈ ([] : List Byte), IsInert c := by simp
      obtain ⟨v, tail, stops, suffix, wrong⟩ :=
        scan_misled k (Byte.closeBrace :: after.text) members noStretch spaced misledMembers
      refine ⟨v, tail, stops, suffix.trans ⟨before.text ++ [Byte.openBrace], ?_⟩, wrong⟩
      simp [Document.text, Object.text]

theorem valueFrom_starts (name behind : List Byte) :
    ∀ {members : Members} {value : List Byte}, valueFrom name behind members = some value →
      ∃ (v : Value) (tail : List Byte), value = v.text ++ tail
  | .last _ name' _ _ v _, value, h => by
      rw [valueFrom] at h
      split at h
      · cases h
        exact ⟨v, _, rfl⟩
      · cases h
  | .more _ name' _ _ v _ rest, value, h => by
      rw [valueFrom] at h
      split at h
      · cases h
        exact ⟨v, _, rfl⟩
      · exact valueFrom_starts name behind h

theorem documentValue_starts {name value : List Byte} {d : Document}
    (h : documentValue name d = some value) :
    ∃ (v : Value) (tail : List Byte), value = v.text ++ tail := by
  obtain ⟨before, o, after⟩ := d
  cases o with
  | empty blanks => cases h
  | of members => exact valueFrom_starts name _ h

theorem documentValue_suffix {name value : List Byte} {d : Document}
    (h : documentValue name d = some value) : value <:+ d.text := by
  obtain ⟨before, o, after⟩ := d
  cases o with
  | empty blanks => cases h
  | of members =>
      refine (valueFrom_suffix name _ h).trans ⟨before.text ++ [Byte.openBrace], ?_⟩
      simp [Document.text, Object.text]

theorem findKey_document (k : PlainKey) {d : Document} (spaced : SpacedObject d.object)
    (unmistaken : UnmistakenDocument k.bytes d) :
    findKey d.string k.key = (memberEnd (documentValue k.bytes d)).toKeyEnd d.string := by
  rw [findKey_eq]
  exact congrArg (ScanEnd.toKeyEnd d.string) (scan_document k spaced unmistaken)

/-- A value that starts with a quote goes on behind it. -/
theorem text_behind_quote {v : Value} {tail more : List Byte}
    (starts : v.text ++ tail = Byte.quote :: more) : ∃ c rest, more = c :: rest := by
  cases v with
  | literal l =>
      obtain ⟨c, rest, same, -⟩ := (Value.literal l).text_starts
      rw [same] at starts
      have isQuote : c = Byte.quote := (List.cons.inj starts).1
      have member : c ∈ l.text := by
        change c ∈ (Value.literal l).text
        rw [same]
        exact List.mem_cons_self ..
      exact absurd isQuote (l.inert c member).1
  | string body =>
      have behind : body.text ++ [Byte.quote] ++ tail = more := (List.cons.inj starts).2
      exact List.exists_cons_of_ne_nil (by simp [← behind])
  | array a =>
      cases a with
      | empty blanks => exact absurd (List.cons.inj starts).1 (by decide)
      | of elements => exact absurd (List.cons.inj starts).1 (by decide)
  | object o =>
      rw [Value.text, Object.text_eq] at starts
      exact absurd (List.cons.inj starts).1 (by decide)

/-- A scan that has stopped at a value is a lookup that returns one, with the smallest buffer
too. -/
theorem lookup_stopped (k : PlainKey) {data : CString} {v : Value} {tail : List Byte}
    (ended : findKey data k.key = (ScanEnd.stopped (v.text ++ tail)).toKeyEnd data)
    (suffix : v.text ++ tail <:+ data.bytes) :
    simpleJsonProcessor data k.key none 0 = .ok ⟨1, none⟩ ∧
      ∃ lookup, simpleJsonProcessor data k.key (some []) 1 = .ok lookup ∧ lookup.result = 1 := by
  have here : data.rest (data.length - (v.text ++ tail).length) = v.text ++ tail :=
    (List.suffix_iff_eq_drop.mp suffix).symm
  have startsWith := @text_behind_quote v tail
  obtain ⟨c, rest, same, -⟩ := v.text_starts
  rw [same, List.cons_append] at ended here startsWith
  rw [ScanEnd.toKeyEnd, List.headD_cons] at ended
  generalize data.length - (c :: (rest ++ tail)).length = found at ended here
  have inside := Nat.le_of_lt (CString.lt_of_rest_cons here)
  have notNul : c ≠ Byte.nul := CString.ne_nul_of_mem_rest (here ▸ List.mem_cons_self ..)
  constructor
  · rw [simpleJsonProcessor, if_neg k.nonempty, ended]
    simp only [ok_bind, CString.read_eq inside, here, List.headD_cons]
    exact if_neg notNul
  · -- the byte in front of which the value loop stops at once
    obtain ⟨c', read, notNul'⟩ : ∃ c', data.read (if c = Byte.quote then found + 1 else found) =
        .ok c' ∧ c' ≠ Byte.nul := by
      by_cases isQuote : c = Byte.quote
      · obtain ⟨c', rest', behind⟩ := @startsWith (rest ++ tail) (by rw [isQuote])
        have next := CString.rest_succ here
        rw [behind] at next
        refine ⟨c', ?_, CString.ne_nul_of_mem_rest (next ▸ List.mem_cons_self ..)⟩
        rw [if_pos isQuote, CString.read_eq (CString.lt_of_rest_cons here), next, List.headD_cons]
      · exact ⟨c, by rw [if_neg isQuote, CString.read_eq inside, here, List.headD_cons], notNul⟩
    refine ⟨⟨1, some [Byte.nul]⟩, ?_, rfl⟩
    rw [simpleJsonProcessor, if_neg k.nonempty, ended]
    simp only [ok_bind, CString.read_eq inside, here, List.headD_cons, notNul, if_false]
    have noRoom : ((1 : Int) - 1).toNat = 0 := rfl
    simp only [noRoom, extractValue, ok_bind, decide_eq_true_eq, read, notNul', if_false]
    rfl

theorem looks_up_exactly_of_unmistaken (k : PlainKey) {d : Document}
    (spaced : SpacedObject d.object) (unmistaken : UnmistakenDocument k.bytes d) :
    LooksUpExactly k d := by
  have ended := findKey_document k spaced unmistaken
  have isName := documentValue_isSome k.bytes d
  cases found : documentValue k.bytes d with
  | none =>
      rw [found] at ended isName
      have lookups : ∀ value size,
          simpleJsonProcessor d.string k.key value size = .ok ⟨0, value⟩ := by
        intro value size
        rw [simpleJsonProcessor, if_neg k.nonempty, ended]
        rfl
      refine ⟨?_, ?_⟩
      · rw [lookups, ← isName]
        simp
      · intro buffer size lookup same isOne
        rw [lookups] at same
        cases same
        cases isOne
  | some text =>
      rw [found] at ended isName
      have here : d.string.rest (d.string.length - text.length) = text :=
        (List.suffix_iff_eq_drop.mp (documentValue_suffix found)).symm
      refine ⟨?_, fun _ _ _ _ _ => ⟨_, _, _, ended, ?_⟩⟩
      · obtain ⟨v, tail, rfl⟩ := documentValue_starts found
        have returned := (lookup_stopped k ended (documentValue_suffix found)).1
        exact ⟨fun _ => isName.mp rfl, fun _ => returned⟩
      · rw [found, here]

theorem not_looks_up_exactly_of_misled (k : PlainKey) {d : Document}
    (spaced : SpacedObject d.object) (misled : MisledDocument k.bytes d) :
    ¬ LooksUpExactly k d := by
  intro exactly
  obtain ⟨v, tail, stops, suffix, wrong⟩ := scan_misledDocument k spaced misled
  have ended : findKey d.string k.key =
      (ScanEnd.stopped (v.text ++ tail)).toKeyEnd d.string := by
    rw [findKey_eq]
    exact congrArg (ScanEnd.toKeyEnd d.string) stops
  obtain ⟨-, lookup, returned, isOne⟩ := lookup_stopped k ended suffix
  obtain ⟨found, json, endWithQuote, same, value⟩ := exactly.value [] 1 lookup returned isOne
  rw [ended] at same
  cases same
  have here : d.string.rest (d.string.length - (v.text ++ tail).length) = v.text ++ tail :=
    (List.suffix_iff_eq_drop.mp suffix).symm
  rw [here] at value
  exact wrong value

/-- **When a lookup finds exactly the member with the name.** It does where the key scan is not
misled, and it does not where the scan comes to another name that ends in the key. -/
theorem looks_up_exactly (k : PlainKey) (d : Document) (spaced : SpacedObject d.object) :
    (UnmistakenDocument k.bytes d → LooksUpExactly k d) ∧
      (MisledDocument k.bytes d → ¬ LooksUpExactly k d) :=
  ⟨looks_up_exactly_of_unmistaken k spaced, not_looks_up_exactly_of_misled k spaced⟩

/-- The key `k`. -/
def keyK : PlainKey := ⟨CString.literal "k", by decide, forall_of_all (by decide)⟩

/-- `{"xk":null}`: a name that ends in the key is taken for the key. -/
def suffixDocument : Document :=
  ⟨[], .of (.last [] (.plain "xk") [] [] (.literal .null) []), []⟩

theorem looks_up_exactly_counterexample :
    ¬ ∀ (k : PlainKey) (d : Document), SpacedObject d.object → LooksUpExactly k d := by
  intro exactly
  have spaced : SpacedObject suffixDocument.object := by
    refine ⟨?_, ?_, ?_, ?_⟩ <;> exact fun _ member => absurd member (List.not_mem_nil)
  have returned : simpleJsonProcessor suffixDocument.string keyK.key none 0 = .ok ⟨1, none⟩ := by
    decide
  have member := (exactly keyK suffixDocument spaced).result.mp returned
  revert member
  decide

/-- `{"a":{"k":null},"k":null}` -/
def nestedDocument : Document :=
  ⟨[], .of (.more [] (.plain "a") [] []
      (.object (.of (.last [] (.plain "k") [] [] (.literal .null) []))) []
      (.last [] (.plain "k") [] [] (.literal .null) [])), []⟩

theorem looks_up_exactly_nestedDocument :
    SpacedObject nestedDocument.object ∧ UnmistakenDocument keyK.bytes nestedDocument ∧
      LooksUpExactly keyK nestedDocument := by
  have noBlanks : IsSpacing [] := fun _ member => absurd member (List.not_mem_nil)
  have spaced : SpacedObject nestedDocument.object :=
    ⟨noBlanks, noBlanks, noBlanks, noBlanks, noBlanks, noBlanks, noBlanks, noBlanks⟩
  have unmistaken : UnmistakenDocument keyK.bytes nestedDocument := by
    refine ⟨.done, ⟨.done, .inr ⟨?_, ?_, ?_, .inl rfl⟩⟩, .inr .done⟩ <;>
      exact .byte (by decide) (by decide) (by decide) .done
  exact ⟨spaced, unmistaken, (looks_up_exactly keyK nestedDocument spaced).1 unmistaken⟩

end ParseEmbedded.SimpleJson
