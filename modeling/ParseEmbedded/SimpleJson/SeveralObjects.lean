import ParseEmbedded.SimpleJson.ExactKey
import ParseEmbedded.SimpleJson.Surroundings

/-!
# A key in a text of several objects

A lookup goes through the text as a whole. Where the first object has no member with the name, the
key scan comes out of it at level zero, as it was in front of it, and goes on into the next object:
`scan_objects` says that it stops at the value of the first member with the name in any of the
objects. Which occurrences of the key in front of that do no harm is said along the members of each
object, for an object with such a member by `Reaches` and for one without it by `PassesAll`.
-/

set_option autoImplicit false

namespace ParseEmbedded.SimpleJson

open Json

/-! ## Members by their names -/

/-- The value of the first member with this name, and the blanks behind it. -/
def memberOf (name : List Byte) : Members → Option (Value × Blanks)
  | .last _ name' _ _ v after => if name'.text = name then some (v, after) else none
  | .more _ name' _ _ v after rest =>
      if name'.text = name then some (v, after) else memberOf name rest

/-- The value of the first member of the outermost object with this name. -/
def objectMember (name : List Byte) : Object → Option (Value × Blanks)
  | .empty _ => none
  | .of members => memberOf name members

theorem memberOf_isSome (name : List Byte) (members : Members) :
    (memberOf name members).isSome ↔ name ∈ names members := by
  fun_induction memberOf name members with
  | case1 before afterName beforeValue v after name' same =>
      exact ⟨fun _ => List.mem_singleton.mpr same.symm, fun _ => rfl⟩
  | case2 before afterName beforeValue v after name' differs =>
      refine ⟨fun none => Bool.noConfusion none, fun member => ?_⟩
      exact absurd (List.mem_singleton.mp member).symm differs
  | case3 before afterName beforeValue v after rest name' same =>
      exact ⟨fun _ => List.mem_cons.mpr (.inl same.symm), fun _ => rfl⟩
  | case4 before afterName beforeValue v after rest name' differs ih =>
      rw [ih, names, List.mem_cons]
      exact ⟨.inr, fun member => member.resolve_left fun same => differs same.symm⟩

theorem objectMember_isSome (name : List Byte) (o : Object) :
    (objectMember name o).isSome ↔ name ∈ objectNames o := by
  cases o with
  | empty blanks =>
      exact ⟨fun none => Bool.noConfusion none, fun none => absurd none List.not_mem_nil⟩
  | of members => exact memberOf_isSome name members

/-! ## Searches that lose nothing -/

/-- The search comes to a member with the name, and to its value: it loses nothing on the way, and
only spaces and tabs are around the colon. `stretch` is the text in front of the members since the
last quote or bracket. -/
def Reaches (key : List Byte) : (stretch : List Byte) → Members → Prop
  | stretch, .last before name afterName beforeValue _ _ =>
      Passes key false (stretch ++ before.text) ∧
        name.text = key ∧ IsSpacing afterName ∧ IsSpacing beforeValue
  | stretch, .more before name afterName beforeValue v after rest =>
      Passes key false (stretch ++ before.text) ∧
        (name.text = key ∧ IsSpacing afterName ∧ IsSpacing beforeValue ∨
          name.text ≠ key ∧ Passes key false name.text ∧
            PassesTo key afterName beforeValue v (after.text ++ [Byte.comma]) fun stretch =>
              Reaches key stretch rest)

/-- No member has the name, and the search loses nothing up to the brace behind the members. -/
def PassesAll (key : List Byte) : (stretch : List Byte) → Members → Prop
  | stretch, .last before name afterName beforeValue v after =>
      Passes key false (stretch ++ before.text) ∧ name.text ≠ key ∧ Passes key false name.text ∧
        PassesTo key afterName beforeValue v after.text (Passes key false)
  | stretch, .more before name afterName beforeValue v after rest =>
      Passes key false (stretch ++ before.text) ∧ name.text ≠ key ∧ Passes key false name.text ∧
        PassesTo key afterName beforeValue v (after.text ++ [Byte.comma]) fun stretch =>
          PassesAll key stretch rest

/-- The search loses nothing in the object, up to the member with the name or to its end. -/
def LosesNothing (key : List Byte) : Object → Prop
  | .empty _ => True
  | .of members => Reaches key [] members ∨ PassesAll key [] members

section Scan

variable (k : WordKey)

/-- **A search that comes to the member stops at its value.** -/
theorem scan_reaches (behind : List Byte) : ∀ (members : Members) {stretch : List Byte},
    (∀ c ∈ stretch, IsInert c) → Reaches k.bytes stretch members →
      ∃ v after d tail, memberOf k.bytes members = some (v, after) ∧ IsDelimiter d ∧
        scan k.bytes ⟨stretch ++ (members.text ++ Byte.closeBrace :: behind), false, 1⟩ =
          .stopped (v.text ++ Blanks.text after ++ d :: tail)
  | .last before name afterName beforeValue v after, stretch, inert, reaches => by
      obtain ⟨passesBefore, found, spacedName, spacedValue⟩ := reaches
      refine ⟨v, after, Byte.closeBrace, behind, if_pos found, .inr rfl, ?_⟩
      rw [last_text, scan_eq_of_visits (visits_name k.toPlainKey inert passesBefore _), found,
        List.append_assoc v.text]
      exact scan_eq_stopped (round_name k.toPlainKey spacedName spacedValue v _)
  | .more before name afterName beforeValue v after rest, stretch, inert, reaches => by
      obtain ⟨passesBefore, reaches⟩ := reaches
      rw [more_text, scan_eq_of_visits (visits_name k.toPlainKey inert passesBefore _), memberOf]
      rcases reaches with ⟨found, spacedName, spacedValue⟩ | ⟨differs, passesName, passesValue⟩
      · refine ⟨v, after, Byte.comma, rest.text ++ Byte.closeBrace :: behind, if_pos found,
          .inl rfl, ?_⟩
        rw [found, List.append_assoc v.text]
        exact scan_eq_stopped (round_name k.toPlainKey spacedName spacedValue v _)
      · obtain ⟨stretch', inert', reachesRest, visits⟩ := visits_next k.toPlainKey passesValue
          (rest.text ++ Byte.closeBrace :: behind)
        rw [if_neg differs, scan_eq_of_visits (visits_behind_name k.toPlainKey passesName _),
          scan_eq_of_visits visits]
        exact scan_reaches behind rest inert' reachesRest

/-- The brace behind a stretch that is passed closes the object. -/
theorem scan_close {stretch : List Byte} (inert : ∀ c ∈ stretch, IsInert c)
    (passes : Passes k.bytes false stretch) (behind : List Byte) :
    scan k.bytes ⟨stretch ++ Byte.closeBrace :: behind, false, 1⟩ =
      scan k.bytes ⟨behind, false, 0⟩ := by
  have visits : Visits k.bytes ⟨stretch ++ Byte.closeBrace :: behind, false, 1⟩ _ :=
    visits_passes k.toPlainKey passes (.cons (by decide) _) (Int.le_refl 1) (.inr inert)
  have closes : round k.bytes ⟨Byte.closeBrace :: behind, false, 1⟩ = .next ⟨behind, false, 0⟩ :=
    round_pass k.toPlainKey (k.not_prefix_cons (by decide) _)
  exact (scan_eq_of_visits visits).trans (scan_eq_of_next closes)

/-- **A search that passes all members** comes out of the object. -/
theorem scan_passesAll (behind : List Byte) : ∀ (members : Members) {stretch : List Byte},
    (∀ c ∈ stretch, IsInert c) → PassesAll k.bytes stretch members →
      memberOf k.bytes members = none ∧
        scan k.bytes ⟨stretch ++ (members.text ++ Byte.closeBrace :: behind), false, 1⟩ =
          scan k.bytes ⟨behind, false, 0⟩
  | .last before name afterName beforeValue v after, stretch, inert, passes => by
      obtain ⟨passesBefore, differs, passesName, passesValue⟩ := passes
      obtain ⟨stretch', inert', passesEnd, visits⟩ := visits_to k.toPlainKey passesValue
        Blanks.inert (Byte.closeBrace :: behind)
      refine ⟨if_neg differs, ?_⟩
      rw [last_text, scan_eq_of_visits (visits_name k.toPlainKey inert passesBefore _),
        scan_eq_of_visits (visits_behind_name k.toPlainKey passesName _),
        scan_eq_of_visits visits]
      exact scan_close k inert' passesEnd behind
  | .more before name afterName beforeValue v after rest, stretch, inert, passes => by
      obtain ⟨passesBefore, differs, passesName, passesValue⟩ := passes
      obtain ⟨stretch', inert', passesRest, visits⟩ := visits_next k.toPlainKey passesValue
        (rest.text ++ Byte.closeBrace :: behind)
      rw [memberOf, if_neg differs, more_text,
        scan_eq_of_visits (visits_name k.toPlainKey inert passesBefore _),
        scan_eq_of_visits (visits_behind_name k.toPlainKey passesName _),
        scan_eq_of_visits visits]
      exact scan_passesAll behind rest inert' passesRest

/-- The search goes into an object. -/
theorem scan_open (o : Object) (behind : List Byte) :
    scan k.bytes ⟨o.text ++ behind, false, 0⟩ =
      scan k.bytes ⟨o.inner ++ Byte.closeBrace :: behind, false, 1⟩ := by
  have text : o.text ++ behind = Byte.openBrace :: (o.inner ++ Byte.closeBrace :: behind) := by
    simp [Object.text_eq]
  have opens : round k.bytes ⟨Byte.openBrace :: (o.inner ++ Byte.closeBrace :: behind), false, 0⟩ =
      .next ⟨o.inner ++ Byte.closeBrace :: behind, false, 1⟩ :=
    round_pass k.toPlainKey (k.not_prefix_cons (by decide) _)
  rw [text]
  exact scan_eq_of_next opens

/-- **One object**: the search stops at the value of the member with the name, or it comes out of
the object. -/
theorem scan_object {o : Object} (losesNothing : LosesNothing k.bytes o) (behind : List Byte) :
    (∃ v after d tail, objectMember k.bytes o = some (v, after) ∧ IsDelimiter d ∧
      scan k.bytes ⟨o.text ++ behind, false, 0⟩ =
        .stopped (v.text ++ Blanks.text after ++ d :: tail)) ∨
      objectMember k.bytes o = none ∧
        scan k.bytes ⟨o.text ++ behind, false, 0⟩ = scan k.bytes ⟨behind, false, 0⟩ := by
  have noStretch : ∀ c ∈ ([] : List Byte), IsInert c := fun _ none => absurd none List.not_mem_nil
  rw [scan_open]
  cases o with
  | empty blanks =>
      refine Or.inr ⟨rfl, ?_⟩
      have passed := scan_blanks k blanks (.cons (by decide) behind : Separates
        (Byte.closeBrace :: behind)) false 1
      exact passed.trans (scan_close k noStretch .done behind)
  | of members =>
      rcases losesNothing with reaches | passes
      · exact Or.inl (scan_reaches k behind members noStretch reaches)
      · exact Or.inr (scan_passesAll k behind members noStretch passes)

end Scan

/-! ## Several objects -/

/-- Objects with blanks in front of each one, and others behind the last one. -/
def objectsText : List (Blanks × Object) → Blanks → List Byte
  | [], last => last.text
  | (blanks, o) :: parts, last => blanks.text ++ (o.text ++ objectsText parts last)

/-- The first member with the name in any of the objects. -/
def nextMember (name : List Byte) (objects : List Object) : Option (Value × Blanks) :=
  objects.findSome? (objectMember name)

/-- How a search in several objects ends. -/
def EndsAt (end_ : ScanEnd) : Option (Value × Blanks) → Prop
  | some (v, after) => ∃ d tail, IsDelimiter d ∧
      end_ = .stopped (v.text ++ Blanks.text after ++ d :: tail)
  | none => end_ = .absent

/-- **The search goes on from object to object**, up to the first one with the member. -/
theorem scan_objects (k : WordKey) (last : Blanks) (parts : List (Blanks × Object))
    (lossless : ∀ part ∈ parts, LosesNothing k.bytes part.2) :
    EndsAt (scan k.bytes ⟨objectsText parts last, false, 0⟩)
      (nextMember k.bytes (parts.map Prod.snd)) := by
  induction parts with
  | nil =>
      have passed := scan_blanks k last Separates.nil false 0
      rw [List.append_nil] at passed
      exact passed.trans (scan_nil ..)
  | cons part parts ih =>
      obtain ⟨blanks, o⟩ := part
      obtain ⟨here, later⟩ := List.forall_mem_cons.mp lossless
      have separates : Separates (o.text ++ objectsText parts last) := by
        rw [Object.text_eq]
        exact Separates.cons (by decide) _
      rw [objectsText, scan_blanks k blanks separates, List.map_cons, nextMember,
        List.findSome?_cons]
      rcases scan_object k here (objectsText parts last) with
        ⟨v, after, d, tail, found, delimiter, stops⟩ | ⟨absent, passes⟩
      · rw [found, stops]
        exact ⟨d, tail, delimiter, rfl⟩
      · rw [absent, passes]
        exact ih later

end ParseEmbedded.SimpleJson
