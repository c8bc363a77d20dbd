import ParseEmbedded.Rtos.Installation
import ParseEmbedded.SimpleJson.ExactKey
import ParseEmbedded.SimpleJson.StoredText

/-!
# The installation in a query result

`getInstallationByIdCallback` copies the array of results into a buffer of 400 bytes and looks for
the two ids in what fits, with the arrays of the client as destinations. So it depends on where the
members stand in the array (`taken_iff_inside`): an id whose characters reach beyond
the 399th byte is not taken, or what there is of it is.
-/

set_option autoImplicit false

namespace ParseEmbedded.SimpleJson

open Json

/-! ## The value of a member -/

/-- How many bytes stand in front of the value of a member. -/
def memberOffset (name : List Byte) : Members → Nat
  | .last before name' afterName beforeValue _ _ =>
      (label before name' afterName beforeValue).length
  | .more before name' afterName beforeValue v after rest =>
      if name'.text = name then (label before name' afterName beforeValue).length
      else (label before name' afterName beforeValue ++ v.text ++ after.text).length + 1 +
        memberOffset name rest

/-- How many bytes of the object stand in front of the value. -/
def objectOffset (name : List Byte) : Object → Nat
  | .empty _ => 0
  | .of members => memberOffset name members + 1

/-- **Where the value of a member stands.** -/
theorem memberValue_place {name : List Byte} {v : Value} (behind : List Byte) :
    ∀ {members : Members}, memberValue name members = some v →
      ∃ front after mark tail, IsDelimiter mark ∧
        members.text ++ Byte.closeBrace :: behind =
          front ++ (v.text ++ (after ++ mark :: tail)) ∧
        front.length = memberOffset name members ∧ (∃ blanks : Blanks, blanks.text = after) ∧
        valueFrom name (Byte.closeBrace :: behind) members =
          some (v.text ++ (after ++ mark :: tail))
  | .last before name' afterName beforeValue v' after, found => by
      rw [memberValue] at found
      split at found
      · rename_i same
        obtain rfl := Option.some.inj found
        refine ⟨label before name' afterName beforeValue, after.text, Byte.closeBrace, behind,
          .inr rfl, ?_, rfl, ⟨after, rfl⟩, ?_⟩
        · simp [Members.text]
        · rw [valueFrom, if_pos same]
      · cases found
  | .more before name' afterName beforeValue v' after rest, found => by
      rw [memberValue] at found
      split at found
      · rename_i same
        obtain rfl := Option.some.inj found
        refine ⟨label before name' afterName beforeValue, after.text, Byte.comma,
          rest.text ++ Byte.closeBrace :: behind, .inl rfl, ?_, ?_, ⟨after, rfl⟩, ?_⟩
        · simp [Members.text]
        · rw [memberOffset, if_pos same]
        · rw [valueFrom, if_pos same]
      · rename_i differs
        obtain ⟨front, blanks, mark, tail, delimiter, text, length, isBlanks, from'⟩ :=
          memberValue_place behind found
        refine ⟨label before name' afterName beforeValue ++ v'.text ++ after.text ++
          Byte.comma :: front, blanks, mark, tail, delimiter, ?_, ?_, isBlanks, ?_⟩
        · simp only [Members.text, List.append_assoc, List.cons_append, text]
        · rw [memberOffset, if_neg differs, List.length_append, List.length_cons, length]
          omega
        · rw [valueFrom, if_neg differs, from']

end ParseEmbedded.SimpleJson

namespace ParseEmbedded.Rtos

open SimpleJson Json

/-! ## Query results -/

theorem results_ends : (CString.literal "results").bytes = ascii "result" ++ [115] := by decide

theorem results_inert : ∀ c ∈ (CString.literal "results").bytes, IsInert c :=
  forall_of_all (by decide)

theorem results_nonempty : (CString.literal "results").bytes ≠ [] := by decide

theorem results_isWord : ¬ IsGap 115 := by decide

def resultsKey : WordKey :=
  ⟨⟨CString.literal "results", results_nonempty, results_inert⟩, ascii "result", 115, results_ends,
    results_isWord⟩

theorem objectId_inert : ∀ c ∈ (CString.literal "objectId").bytes, IsInert c :=
  forall_of_all (by decide)

theorem objectId_nonempty : (CString.literal "objectId").bytes ≠ [] := by decide

def objectIdKey : PlainKey := ⟨CString.literal "objectId", objectId_nonempty, objectId_inert⟩

theorem installationId_inert : ∀ c ∈ (CString.literal "installationId").bytes, IsInert c :=
  forall_of_all (by decide)

theorem installationId_nonempty : (CString.literal "installationId").bytes ≠ [] := by decide

def installationIdKey : PlainKey :=
  ⟨CString.literal "installationId", installationId_nonempty, installationId_inert⟩

/-- The first element of an array, with the blanks in front of it. -/
def firstElement : Elements → Blanks × Value
  | .last before v _ => (before, v)
  | .more before v _ _ => (before, v)

/-- The object has a string without escapes, of at most so many characters, under the name. -/
structure HasText (key : PlainKey) (object : Object) (limit : Nat) (chars : List Byte) : Prop where
  value : ∃ body : StringBody, objectValue key.bytes object = some (.string body) ∧
    body.text = chars
  plain : ∀ b ∈ chars, IsPlain b
  short : chars.length ≤ limit

/-- The result of a query whose first element has the two ids of an installation. -/
structure QueryResult where
  document : Document
  elements : Elements
  before : Blanks
  installation : Object
  objectId : List Byte
  installationId : List Byte
  results : objectValue resultsKey.bytes document.object = some (.array (.of elements))
  first : firstElement elements = (before, .object installation)
  hasObjectId : HasText objectIdKey installation OBJECT_ID_MAX_LEN objectId
  hasInstallationId :
    HasText installationIdKey installation INSTALLATION_ID_MAX_LEN installationId

/-- Behind a response with the result the client has the two ids of the installation, and in no
case a beginning of the installation id, whatever it had before. -/
def QueryResult.Taken (q : QueryResult) : Prop :=
  ∀ (client : Client) (answer : Answer) (reply : Reply), client.WellFormed → reply.Succeeds →
    reply.httpResponseBody = some q.document.string →
      let after := getInstallationByIdCallback client answer reply
      (stringOf after.installationObjectId = q.objectId ∧
        stringOf after.installationId = q.installationId) ∧
      ¬ (stringOf after.installationId <+: q.installationId ∧
        stringOf after.installationId ≠ q.installationId)

/-- What a lookup of the key stores of this text is the value. -/
def StoresExactly (key : PlainKey) (text : List Byte) (limit : Nat) (chars : List Byte) : Prop :=
  ∃ stored, storedText key.bytes text = some stored ∧ stored.take limit = chars

/-- The array that a lookup of `results` finds starts with an object, and in its first 399 bytes,
from the object on, the lookups of the two keys find the two ids. -/
def QueryResult.Found (q : QueryResult) : Prop :=
  ∃ array, storedText resultsKey.bytes q.document.text = some array ∧
    array.getD 1 Byte.nul = Byte.openBrace ∧
    StoresExactly objectIdKey ((array.take 399).drop 1) OBJECT_ID_MAX_LEN q.objectId ∧
    StoresExactly installationIdKey ((array.take 399).drop 1) INSTALLATION_ID_MAX_LEN
      q.installationId

/-! ## The lookups of the callback -/

/-- The text in which the callback looks for the two ids. -/
theorem firstResult_document (answer : Answer) (d : Document) :
    (∃ array, storedText resultsKey.bytes d.text = some array ∧
        array.getD 1 Byte.nul = Byte.openBrace ∧
        ∃ installation : CString, installation.bytes = (array.take 399).drop 1 ∧
          firstResult answer (some d.string) = some installation) ∨
      (∀ array, storedText resultsKey.bytes d.text = some array →
        array.getD 1 Byte.nul ≠ Byte.openBrace) ∧ firstResult answer (some d.string) = none := by
  have looked : lookUpBody answer.results (some d.string) "results" (zeros 399) 400 = _ :=
    lookUp_ok answer.results (lookup_document_stored resultsKey d (zeros 399) (400 : Nat))
  rw [firstResult, looked]
  cases stores : storedText resultsKey.bytes d.text with
  | none =>
      right
      exact ⟨fun array same => (Option.some_ne_none _ same.symm).elim, rfl⟩
  | some array =>
      obtain ⟨value, stopped, -, rfl⟩ := storedText_some stores
      have noNul : Byte.nul ∉ storedAt value := by
        refine storedAt_noNul fun member => d.string.noNul ?_
        exact (scan_suffix stopped).subset member
      generalize storedAt value = array at noNul ⊢
      have cutNoNul : Byte.nul ∉ array.take 399 := fun member => noNul (List.mem_of_mem_take member)
      have second : (storeInto (zeros 399) (400 : Nat) (some array)).getD 1 Byte.nul =
          array.getD 1 Byte.nul := by
        change (overwrite (zeros 399) (array.take 399 ++ [Byte.nul])).getD 1 Byte.nul = _
        rcases array with _ | ⟨a, _ | ⟨b, array⟩⟩
        · decide
        · rw [overwrite]
          rfl
        · rfl
      by_cases opens : array.getD 1 Byte.nul = Byte.openBrace
      · left
        have some : array.take 399 ≠ [] := by
          rintro empty
          rw [List.take_eq_nil_iff] at empty
          rw [empty.resolve_left (by decide)] at opens
          exact absurd opens (by decide)
        refine ⟨array, rfl, opens, _, ?_, if_pos ⟨Nat.one_ne_zero, second.trans opens⟩⟩
        have string := ofMemory_drop_one cutNoNul some (zeros 399)
        change (CString.ofMemory ((overwrite (zeros 399) (array.take 399 ++ [Byte.nul])).drop
          1)).bytes = _
        rw [string, List.drop_one]
      · right
        refine ⟨fun array' same => Option.some.inj same ▸ opens, if_neg fun found => ?_⟩
        exact opens (second.symm.trans found.2)

/-- A lookup in an array of the client, in terms of what there is to store. -/
theorem lookUp_stored {stray : Stray} {key : PlainKey} {text : CString} {n : Nat}
    {array stored : List Byte} (stores : storedText key.bytes text.bytes = some stored) :
    Byte.nul ∉ stored.take n ∧ (lookUp stray text key.key array (n + 1)).2 =
      overwrite array (stored.take n ++ [Byte.nul]) := by
  obtain ⟨lookup, done⟩ :=
    lookup_of_storedText key.nonempty stores (some array) ((n + 1 : Nat) : Int)
  have value := lookup_stored key.nonempty array _ done
  obtain ⟨v, stopped, -, rfl⟩ := storedText_some stores
  have noNul : Byte.nul ∉ storedAt v :=
    storedAt_noNul fun member => text.noNul ((scan_suffix stopped).subset member)
  obtain ⟨result, buffer⟩ := lookup
  dsimp only at value
  subst value
  rw [lookUp_ok stray done, stores]
  have room : (((n + 1 : Nat) : Int) - 1).toNat = n := by omega
  rw [storeInto, room]
  exact ⟨fun member => noNul (List.mem_of_mem_take member), rfl⟩

theorem lookUp_string {stray : Stray} {key : PlainKey} {text : CString} {n : Nat}
    {array stored : List Byte} (stores : storedText key.bytes text.bytes = some stored) :
    stringOf (lookUp stray text key.key array (n + 1)).2 = stored.take n := by
  obtain ⟨noNul, same⟩ : _ ∧ (lookUp stray text key.key array (n + 1)).2 = _ :=
    lookUp_stored stores
  rw [same]
  exact stringOf_overwrite array noNul

/-- An array that has another string, and bytes behind the text that are another string, leave the
lookup no way to the value but to find it. -/
theorem storesExactly_of_lookUp {stray : Stray} {key : PlainKey} {text : CString} {n : Nat}
    {array chars : List Byte} (old : stringOf array ≠ chars) (ended : stray.ended = true)
    (other : stray.text.bytes.take n ≠ chars)
    (found : stringOf (lookUp stray text key.key array (n + 1)).2 = chars) :
    StoresExactly key text.bytes n chars := by
  cases stores : storedText key.bytes text.bytes with
  | some stored =>
      rw [lookUp_string stores] at found
      exact ⟨stored, stores, found⟩
  | none =>
      cases looked : simpleJsonProcessor text key.key (some array) ((n + 1 : Nat) : Int) with
      | ok lookup =>
          have value := lookup_stored key.nonempty array _ looked
          obtain ⟨result, buffer⟩ := lookup
          dsimp only at value
          subst value
          rw [lookUp_ok stray looked, stores] at found
          exact absurd found old
      | error overread =>
          rw [lookUp, looked, ended] at found
          have noNul : Byte.nul ∉ stray.text.bytes.take (n + 1 - 1) :=
            fun member => stray.text.noNul (List.mem_of_mem_take member)
          exact absurd ((stringOf_overwrite array noNul).symm.trans found) other

/-! ## When the ids are taken -/

/-- A string that differs from the value. -/
def otherText (chars : List Byte) : CString :=
  if chars = [] then CString.literal "x" else CString.literal ""

theorem otherText_take (chars : List Byte) (n : Nat) :
    (otherText chars).bytes.take (n + 1) ≠ chars := by
  rw [otherText]
  split
  · rename_i empty
    rw [empty]
    exact List.cons_ne_nil _ _
  · rename_i some
    exact fun same => some same.symm

theorem otherText_length (chars : List Byte) : (otherText chars).length ≤ 1 := by
  rw [otherText]
  split
  · decide
  · decide

/-- The bytes behind the text are the string. -/
def strayText (text : CString) : Stray := ⟨text, true, false⟩

/-- A client with another string in each of the two arrays. -/
def otherClient (objectId installationId : List Byte) : Client :=
  { exampleClient (CString.literal "a") (otherText installationId) (CString.literal "") with
    installationObjectId := strncpy (zeros 16) (otherText objectId) OBJECT_ID_MAX_LEN }

theorem otherClient_wellFormed (objectId installationId : List Byte) :
    (otherClient objectId installationId).WellFormed :=
  { exampleClient_wellFormed (CString.literal "a") (otherText installationId)
      (CString.literal "") with
    installationObjectId := (zeros_terminated 16).strncpy _ }

theorem otherText_ne (chars : List Byte) : (otherText chars).bytes ≠ chars := by
  have long := otherText_length chars
  have differs := otherText_take chars 0
  rwa [List.take_of_length_le long] at differs

theorem string_strncpy_other {n : Nat} (some : 1 ≤ n) (chars : List Byte) :
    stringOf (strncpy (zeros n) (otherText chars) n) ≠ chars := by
  rw [(zeros_terminated n).string_strncpy (Nat.le_trans (otherText_length chars) some)]
  exact otherText_ne chars

/-- **The ids of the query result are taken exactly when the lookups find them** in the first 399
bytes of the array. -/
theorem taken_iff_found (q : QueryResult) : q.Taken ↔ q.Found := by
  constructor
  · intro taken
    -- other strings in the client, and other strings behind the text
    have succeeds : Reply.Succeeds ⟨0, 200, some q.document.string⟩ :=
      ⟨rfl, Int.le_refl 200, (by decide : (200 : Int) < 300)⟩
    obtain ⟨⟨isObjectId, isInstallationId⟩, -⟩ :=
      taken (otherClient q.objectId q.installationId)
        ⟨⟨0, 0, []⟩, strayText (otherText []), strayText (otherText q.objectId),
          strayText (otherText q.installationId)⟩
        ⟨0, 200, some q.document.string⟩ (otherClient_wellFormed ..) succeeds rfl
    rw [getInstallationByIdCallback, if_pos succeeds] at isObjectId isInstallationId
    rcases firstResult_document _ q.document with
      ⟨array, stores, opens, installation, isCut, found⟩ | ⟨-, none⟩
    · rw [found] at isObjectId isInstallationId
      refine ⟨array, stores, opens, ?_, ?_⟩
      · rw [← isCut]
        exact storesExactly_of_lookUp (string_strncpy_other (by decide) _) rfl
          (otherText_take q.objectId 15) isObjectId
      · rw [← isCut]
        exact storesExactly_of_lookUp (string_strncpy_other (by decide) _) rfl
          (otherText_take q.installationId 35) isInstallationId
    · rw [none] at isObjectId
      exact absurd isObjectId (string_strncpy_other (by decide) _)
  · rintro ⟨array, stores, opens, ⟨stored, objectId, same⟩, stored', installationId, same'⟩
    intro client answer reply _ succeeds body
    rw [getInstallationByIdCallback, if_pos succeeds, body]
    rcases firstResult_document answer q.document with
      ⟨array', stores', -, installation, isCut, found⟩ | ⟨never, -⟩
    · obtain rfl := Option.some.inj (stores.symm.trans stores')
      rw [← isCut] at objectId installationId
      rw [found]
      have isObjectId : stringOf (lookUp answer.objectId installation objectIdKey.key
          client.installationObjectId (OBJECT_ID_MAX_LEN + 1)).2 = q.objectId :=
        (lookUp_string objectId).trans same
      have isInstallationId : stringOf (lookUp answer.installationId installation
          installationIdKey.key client.installationId (INSTALLATION_ID_MAX_LEN + 1)).2 =
            q.installationId :=
        (lookUp_string installationId).trans same'
      exact ⟨⟨isObjectId, isInstallationId⟩, fun cut => cut.2 isInstallationId⟩
    · exact absurd opens (never array stores)

/-! ## Where the ids stand -/

/-- The scans for the three keys are not misled, and only spaces and tabs stand around the
members. -/
structure QueryResult.Plain (q : QueryResult) : Prop where
  spaced : SpacedObject q.document.object
  results : UnmistakenDocument resultsKey.bytes q.document
  spacedInstallation : SpacedObject q.installation
  objectId : UnmistakenDocument objectIdKey.bytes ⟨[], q.installation, []⟩
  installationId : UnmistakenDocument installationIdKey.bytes ⟨[], q.installation, []⟩

/-- How many bytes the array has up to the last character of an id, if the object follows its
bracket at once. -/
def charsEnd (key : PlainKey) (installation : Object) (chars : List Byte) : Nat :=
  1 + objectOffset key.bytes installation + 1 + chars.length

/-- Where the scan for a member of an object stops, and what stands in front of the value. -/
theorem scan_member {key : PlainKey} {d : Document} (spaced : SpacedObject d.object)
    (unmistaken : UnmistakenDocument key.bytes d) {v : Value}
    (isValue : objectValue key.bytes d.object = some v) :
    ∃ front after mark tail, IsDelimiter mark ∧ (∃ blanks : Blanks, blanks.text = after) ∧
      d.object.text ++ d.after.text = front ++ (v.text ++ (after ++ mark :: tail)) ∧
      front.length = objectOffset key.bytes d.object ∧
      scan key.bytes ⟨d.text, false, 0⟩ = .stopped (v.text ++ (after ++ mark :: tail)) := by
  have stopped := scan_document key spaced unmistaken
  obtain ⟨before, o, behind⟩ := d
  cases o with
  | empty blanks => cases isValue
  | of members =>
      obtain ⟨front, after, mark, tail, delimiter, text, length, blanks, found⟩ :=
        memberValue_place behind.text isValue
      refine ⟨Byte.openBrace :: front, after, mark, tail, delimiter, blanks, ?_, ?_, ?_⟩
      · rw [List.cons_append, ← text]
        simp [Object.text]
      · rw [List.length_cons, length]
        rfl
      · rw [stopped]
        exact congrArg memberEnd found

theorem firstElement_text {elements : Elements} {before : Blanks} {v : Value}
    (first : firstElement elements = (before, v)) :
    ∃ rest, elements.text = before.text ++ (v.text ++ rest) := by
  cases elements with
  | last before' v' after =>
      cases first
      exact ⟨after.text, by simp [Elements.text]⟩
  | more before' v' after rest =>
      cases first
      exact ⟨after.text ++ Byte.comma :: rest.text, by simp [Elements.text]⟩

/-- The lookup of `results` finds the array. -/
theorem QueryResult.Plain.array {q : QueryResult} (plain : q.Plain) :
    storedText resultsKey.bytes q.document.text = some (Array.of q.elements).text := by
  obtain ⟨front, after, mark, tail, delimiter, ⟨blanks, rfl⟩, -, -, stopped⟩ :=
    scan_member plain.spaced plain.results q.results
  have some : (Value.array (.of q.elements)).text ++ (blanks.text ++ mark :: tail) ≠ [] :=
    List.append_ne_nil_of_right_ne_nil _
      (List.append_ne_nil_of_right_ne_nil _ (List.cons_ne_nil _ _))
  rw [storedText_of_stopped stopped some, storedAt, ← List.append_assoc]
  refine congrArg Option.some (extractAt_value _ blanks delimiter tail ?_).1
  change (Array.of q.elements).text.length ≤ _
  rw [List.append_assoc, List.length_append]
  exact Nat.le_add_right _ _

/-- **An id is found if its last character is among the bytes**, where the object is followed by
anything. -/
theorem storesExactly_iff {key : PlainKey} {installation : Object} {limit : Nat}
    {chars : List Byte} (text : HasText key installation limit chars)
    (spaced : SpacedObject installation)
    (unmistaken : UnmistakenDocument key.bytes ⟨[], installation, []⟩) (rest : List Byte) :
    StoresExactly key ((installation.text ++ rest).take 398) limit chars ↔
      charsEnd key installation chars ≤ 399 := by
  obtain ⟨⟨body, isValue, rfl⟩, plain, short⟩ := text
  obtain ⟨front, after, mark, tail, -, -, split, length, stopped⟩ :=
    scan_member (d := ⟨[], installation, []⟩) spaced unmistaken isValue
  have alone : Document.text ⟨[], installation, []⟩ = installation.text := by
    simp [Document.text, Blanks.text]
  have value : ∀ more, (Value.string body).text ++ more =
      Byte.quote :: (body.text ++ Byte.quote :: more) := by
    intro more
    simp [Value.text, quoted]
  change installation.text ++ Blanks.text [] = _ at split
  rw [show Blanks.text [] = [] from rfl, List.append_nil, value] at split
  rw [alone, value] at stopped
  -- whatever follows the object, the scan stops at the same value
  have goesOn : scan key.bytes ⟨installation.text ++ rest, false, 0⟩ = _ :=
    scan_append stopped (List.cons_ne_nil _ _) rest
  have split' : installation.text ++ rest =
      front ++ Byte.quote :: (body.text ++ Byte.quote :: (after ++ mark :: tail ++ rest)) := by
    rw [split]
    simp
  have goesOn' : scan key.bytes ⟨installation.text ++ rest, false, 0⟩ =
      .stopped (Byte.quote :: (body.text ++ Byte.quote :: (after ++ mark :: tail ++ rest))) := by
    rw [goesOn]
    simp
  have found := storedText_take_iff key split' goesOn' plain short 398
  rw [StoresExactly, found, charsEnd, ← length]
  omega

/-- **Where the scans are not misled the ids are taken exactly if they stand in the first 399 bytes
of the array**, and no blank stands in front of the object. -/
theorem taken_iff_inside {q : QueryResult} (plain : q.Plain) :
    q.Taken ↔ q.before = [] ∧ charsEnd objectIdKey q.installation q.objectId ≤ 399 ∧
      charsEnd installationIdKey q.installation q.installationId ≤ 399 := by
  obtain ⟨rest, text⟩ := firstElement_text q.first
  have isArray : (Array.of q.elements).text = Byte.openBracket :: (q.before.text ++
      (q.installation.text ++ (rest ++ [Byte.closeBracket]))) := by
    simp [Array.text, text, Value.text]
  have objectId := storesExactly_iff q.hasObjectId plain.spacedInstallation plain.objectId
    (rest ++ [Byte.closeBracket])
  have installationId := storesExactly_iff q.hasInstallationId plain.spacedInstallation
    plain.installationId (rest ++ [Byte.closeBracket])
  rw [taken_iff_found, QueryResult.Found, plain.array, isArray]
  simp only [Option.some.injEq, exists_eq_left']
  cases q.before with
  | nil =>
      have opens : (Byte.openBracket :: (Blanks.text [] ++ (q.installation.text ++
          (rest ++ [Byte.closeBracket])))).getD 1 Byte.nul = Byte.openBrace := by
        rw [Object.text_eq]
        rfl
      rw [← objectId, ← installationId]
      exact and_congr_left fun _ => iff_of_true opens rfl
  | cons blank blanks =>
      refine iff_of_false (fun found => ?_) (fun inside => List.cons_ne_nil _ _ inside.1)
      have opens : blank.byte = Byte.openBrace := found.1
      cases blank <;> exact absurd opens (by decide)

/-- **When the ids of a query result are taken.** They are taken exactly when the two lookups find
them in the first 399 bytes of the array. Where no scan is misled on its way this means that the
object follows the bracket of the array at once and that the last character of each of the two ids
is among these bytes. -/
theorem query_result_taken_iff (q : QueryResult) :
    (q.Taken ↔ q.Found) ∧
      (q.Plain → (q.Taken ↔ q.before = [] ∧
        charsEnd objectIdKey q.installation q.objectId ≤ 399 ∧
        charsEnd installationIdKey q.installation q.installationId ≤ 399)) :=
  ⟨taken_iff_found q, taken_iff_inside⟩

section Example

theorem isPlain_x : IsPlain 120 := by decide

/-- So many characters between the two ids. -/
def padding (n : Nat) : StringBody := List.replicate n (.plain 120 isPlain_x)

theorem padding_text (n : Nat) : (padding n).text = List.replicate n 120 := by
  induction n with
  | zero => rfl
  | succ n ih =>
      rw [padding, List.replicate_succ] at *
      rw [List.replicate_succ]
      exact congrArg (List.cons 120) ih

/-- `{"objectId":"o","p":"xx...","installationId":"ab"}` -/
def paddedMembers (n : Nat) : Members :=
  .more [] (.plain "objectId") [] [] (.string (.plain "o")) []
    (.more [] (.plain "p") [] [] (.string (padding n)) []
      (.last [] (.plain "installationId") [] [] (.string (.plain "ab")) []))

def paddedElements (n : Nat) : Elements := .last [] (.object (.of (paddedMembers n))) []

/-- `{"results":[{...}]}` -/
def paddedDocument (n : Nat) : Document :=
  ⟨[], .of (.last [] (.plain "results") [] [] (.array (.of (paddedElements n))) []), []⟩

theorem padded_objectId (n : Nat) :
    HasText objectIdKey (.of (paddedMembers n)) OBJECT_ID_MAX_LEN (ascii "o") where
  value := by
    refine ⟨.plain "o", ?_, by decide⟩
    rw [objectValue, paddedMembers, memberValue, if_pos (by decide)]
  plain := forall_of_all (by decide)
  short := by decide

theorem padded_installationId (n : Nat) :
    HasText installationIdKey (.of (paddedMembers n)) INSTALLATION_ID_MAX_LEN (ascii "ab") where
  value := by
    refine ⟨.plain "ab", ?_, by decide⟩
    rw [objectValue, paddedMembers, memberValue, if_neg (by decide), memberValue,
      if_neg (by decide), memberValue, if_pos (by decide)]
  plain := forall_of_all (by decide)
  short := by decide

theorem padded_results (n : Nat) :
    objectValue resultsKey.bytes (paddedDocument n).object =
      some (.array (.of (paddedElements n))) := by
  rw [paddedDocument, objectValue, memberValue, if_pos (by decide)]

def paddedResult (n : Nat) : QueryResult where
  document := paddedDocument n
  elements := paddedElements n
  before := []
  installation := .of (paddedMembers n)
  objectId := ascii "o"
  installationId := ascii "ab"
  results := padded_results n
  first := rfl
  hasObjectId := padded_objectId n
  hasInstallationId := padded_installationId n

/-- A text without the first byte of the key has no key in it. -/
theorem passes_of_notMem {first : Byte} {key text : List Byte} (notMem : first ∉ text)
    (noQuote : Byte.quote ∉ text) (noBackslash : Byte.backslash ∉ text) :
    Passes (first :: key) false text := by
  induction text with
  | nil => exact .done
  | cons c text ih =>
      rw [List.mem_cons, not_or] at notMem noQuote noBackslash
      refine .byte (fun starts => notMem.1 ?_) (Ne.symm noQuote.1) (Ne.symm noBackslash.1)
        (ih notMem.2 noQuote.2 noBackslash.2)
      exact (List.cons_prefix_cons.mp starts).1

theorem padded_plain (n : Nat) : (paddedResult n).Plain := by
  have noBlanks : IsSpacing [] := fun _ member => absurd member List.not_mem_nil
  have spaced : Spaced (paddedMembers n) :=
    ⟨noBlanks, noBlanks, noBlanks, noBlanks, noBlanks, noBlanks, noBlanks, noBlanks, noBlanks,
      noBlanks, noBlanks, noBlanks⟩
  have passes : ∀ text : List Byte, (105 : Byte) ∉ text → Byte.quote ∉ text →
      Byte.backslash ∉ text → Passes installationIdKey.bytes false text := by
    intro text notMem noQuote noBackslash
    exact passes_of_notMem notMem noQuote noBackslash
  refine ⟨⟨noBlanks, noBlanks, noBlanks, noBlanks⟩, ?_, spaced, ?_, ?_⟩
  · exact ⟨.done, ⟨.done, .inl (by decide)⟩, .inl (List.mem_singleton.mpr (by decide))⟩
  · exact ⟨.done, ⟨.done, .inl (by decide)⟩, .inr .done⟩
  · refine ⟨.done, ?_, .inr .done⟩
    have pad : Passes installationIdKey.bytes false (padding n).text := by
      rw [padding_text]
      have differs : ∀ b : Byte, b ≠ 120 → b ∉ List.replicate n 120 :=
        fun b differs member => differs (List.eq_of_mem_replicate member)
      exact passes _ (differs _ (by decide)) (differs _ (by decide)) (differs _ (by decide))
    refine ⟨.done, .inr ⟨passes _ (by decide) (by decide) (by decide),
      passes _ (by decide) (by decide) (by decide), passes _ (by decide) (by decide) (by decide),
      passes _ (by decide) (by decide) (by decide), .inr ⟨?_, ?_, pad, ?_⟩⟩⟩
    · exact passes _ (by decide) (by decide) (by decide)
    · exact passes _ (by decide) (by decide) (by decide)
    · exact ⟨passes _ (by decide) (by decide) (by decide), .inl (by decide)⟩

theorem padded_charsEnd (n : Nat) :
    charsEnd installationIdKey (.of (paddedMembers n)) (ascii "ab") = n + 44 := by
  have one : (StringBody.plain "objectId").text.length = 8 := by decide
  have two : (StringBody.plain "o").text.length = 1 ∧ (StringBody.plain "p").text.length = 1 := by
    decide
  have three : (StringBody.plain "installationId").text.length = 14 := by decide
  have chars : (ascii "ab").length = 2 := by decide
  rw [charsEnd, objectOffset, paddedMembers, memberOffset, if_neg (by decide), memberOffset,
    if_neg (by decide), memberOffset, chars]
  simp only [label, quoted, Value.text, Blanks.text, List.map_nil, List.nil_append,
    List.append_nil, List.length_append, List.length_cons, List.length_nil, one, two, three,
    padding_text, List.length_replicate]
  omega

/-- A short element: both ids are taken. -/
theorem query_result_taken_short : (paddedResult 0).Taken := by
  refine ((query_result_taken_iff (paddedResult 0)).2 (padded_plain 0)).mpr ⟨rfl, ?_, ?_⟩
  · decide
  · exact Nat.le_trans (Nat.le_of_eq (padded_charsEnd 0)) (by decide)

/-- One character of the installation id lies behind the 399th byte. -/
theorem query_result_taken_counterexample : ¬ ∀ q : QueryResult, q.Taken := by
  intro taken
  obtain ⟨-, -, inside⟩ := (taken_iff_inside (padded_plain 356)).mp (taken _)
  have length : charsEnd installationIdKey (paddedResult 356).installation
      (paddedResult 356).installationId = 400 := padded_charsEnd 356
  rw [length] at inside
  exact absurd inside (by decide)

end Example

end ParseEmbedded.Rtos
