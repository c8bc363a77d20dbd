import ParseEmbedded.SimpleJson.Destination
import ParseEmbedded.SimpleJson.SeveralObjects
import ParseEmbedded.Yun.JsonArrays

/-!
# One key from several JSONs

`getValuesFromJSONs` of `utils.c` counts the braces of the text, and at each brace that opens where
none is open it looks the key up in all that is left. `getValueFromJSON` has the statements of
`simpleJsonProcessor`, and is modelled by it.

A lookup that starts at an object without the member goes on into the objects behind it, so a value
there is stored once for it and once more for its own object; and a word is stored with the blanks
behind it. Where the braces are counted right and no lookup loses its way, the values come out right
exactly if neither leaves a mark: `collect_values_iff`.
-/

set_option autoImplicit false

namespace ParseEmbedded.Yun

open Json Balance SimpleJson

/-! ## The source -/

/-- The variables of `getValuesFromJSONs`, and the buffer. -/
structure Collecting where
  c : Int
  s : Nat
  found : Nat
  values : List Byte
  deriving DecidableEq, Repr

/-- `c++` and `c--`. -/
def Collecting.count (v : Collecting) (b : Byte) : Collecting :=
  if b = Byte.openBrace then { v with c := v.c + 1 }
  else if b = Byte.closeBrace then { v with c := v.c - 1 }
  else v

/-- What is done with the result of a lookup that was given the buffer from `s` on. -/
def Collecting.take (v : Collecting) (lookup : Lookup) : Collecting :=
  let values := v.values.take v.s ++ lookup.value.getD []
  if lookup.result ≠ 0 then { v with found := 1, s := (CString.ofMemory values).length, values }
  else { v with values }

/-- `while(*p)`, with what is left of the text. -/
def valuesLoop (key : CString) (size : Int) : List Byte → Collecting → Except Overread Collecting
  | [], v => .ok v
  | b :: text, v =>
      let v := v.count b
      if b = Byte.openBrace ∧ v.c = 1 then do
        -- a new json start
        let lookup ← simpleJsonProcessor (CString.ofMemory (b :: text)) key
          (some (v.values.drop v.s)) (size - v.s)
        valuesLoop key size text (v.take lookup)
      else valuesLoop key size text v

/-- The result, and the buffer behind it. -/
def getValuesFromJSONs (data key : CString) (values : List Byte) (size : Int) :
    Except Overread (Nat × List Byte) := do
  let v ← valuesLoop key size data.bytes ⟨0, 0, 0, values⟩
  .ok (v.found, v.values)

/-! ## What is asked of it -/

theorem objectsText_noNul (last : Blanks) (parts : List (Blanks × Object)) :
    Byte.nul ∉ objectsText parts last := by
  induction parts with
  | nil => exact Blanks.noNul
  | cons part parts ih =>
      intro member
      rcases List.mem_append.mp member with inBlanks | member
      · exact Blanks.noNul inBlanks
      · rcases List.mem_append.mp member with inObject | later
        · exact part.2.noNul inObject
        · exact ih later

/-- A string of objects. -/
def objectsString (parts : List (Blanks × Object)) (last : Blanks) : CString :=
  ⟨objectsText parts last, objectsText_noNul last parts⟩

/-- The text of a value as it is stored where nothing is behind it. -/
def memberText : Option (Value × Blanks) → List Byte
  | none => []
  | some (v, _) => extractedText v []

/-- The values of the member, one for each object that has it. -/
def memberValues (name : List Byte) (objects : List Object) : List Byte :=
  objects.flatMap fun o => memberText (objectMember name o)

/-- **The values are collected**, into every buffer that has room for them and the zero. -/
def Collects (key : CString) (parts : List (Blanks × Object)) (last : Blanks) : Prop :=
  ∀ (buffer : List Byte) (size : Nat), size ≤ buffer.length →
    (memberValues key.bytes (parts.map Prod.snd)).length < size →
      ∃ found values,
        getValuesFromJSONs (objectsString parts last) key buffer size = .ok (found, values) ∧
          (found = 1 ↔ ∃ o ∈ parts.map Prod.snd, key.bytes ∈ objectNames o) ∧
          ((∃ o ∈ parts.map Prod.snd, key.bytes ∈ objectNames o) →
            (CString.ofMemory values).bytes = memberValues key.bytes (parts.map Prod.snd))

/-! ## When it does that -/

/-- No brace opens inside the object where all braces so far are closed, those in strings too. -/
def Quiet (o : Object) : Prop :=
  ∀ read rest, o.text = read ++ Byte.openBrace :: rest → read ≠ [] → level braces.of read ≠ 0

/-- A lookup starts at each object, and nowhere else. -/
def CountsRight : List Object → Prop
  | [] => True
  | o :: rest => Quiet o ∧ (rest ≠ [] → level braces.of o.text = 0) ∧ CountsRight rest

/-- Where the braces of each object balance at its last byte they are counted right. -/
theorem countsRight_of_closesLast {objects : List Object}
    (closes : ∀ o ∈ objects, ClosesLast o) : CountsRight objects := by
  induction objects with
  | nil => trivial
  | cons o rest ih =>
      obtain ⟨here, later⟩ := List.forall_mem_cons.mp closes
      refine ⟨fun read behind text some => ?_, fun _ => ?_, ih later⟩
      · have isPrefix : read <+: o.text := text ▸ List.prefix_append ..
        have proper : read ≠ o.text := fun same =>
          List.cons_ne_nil _ _ (List.append_right_eq_self.mp (text.symm.trans same.symm))
        have early := here.first read isPrefix some proper
        rwa [Int.zero_add] at early
      · have returns := here.returns
        rwa [Int.zero_add] at returns

/-- Nothing is stored behind the value. -/
def EndsValue : Value → Blanks → Prop
  | .literal _, after => after = []
  | _, _ => True

/-- The lookup that starts at the first object leaves no more than the member of that object: no
blanks behind a word, and of another object an empty string at most. -/
def HarmlessAt (name : List Byte) (o : Object) (rest : List Object) : Prop :=
  match objectMember name o with
  | some (v, after) => EndsValue v after
  | none => ∀ member ∈ nextMember name rest, member.1 = .string []

/-- No lookup leaves more than the member of the object where it starts. -/
def Harmless (name : List Byte) : List Object → Prop
  | [] => True
  | o :: rest => HarmlessAt name o rest ∧ Harmless name rest

/-! ## What is stored -/

/-- What a lookup leaves that comes to this member. -/
def lookedUp : Option (Value × Blanks) → List Byte
  | none => []
  | some (v, after) => extractedText v after

/-- What all lookups leave. -/
def collected (name : List Byte) : List Object → List Byte
  | [] => []
  | o :: rest => lookedUp (nextMember name (o :: rest)) ++ collected name rest

theorem nextMember_some {name : List Byte} {o : Object} {member : Value × Blanks}
    (found : objectMember name o = some member) (rest : List Object) :
    nextMember name (o :: rest) = some member := by
  rw [nextMember, List.findSome?_cons, found]

theorem nextMember_none {name : List Byte} {o : Object} (absent : objectMember name o = none)
    (rest : List Object) : nextMember name (o :: rest) = nextMember name rest := by
  rw [nextMember, List.findSome?_cons, absent, nextMember]

/-- An object has the member if the first one or a later one has it. -/
theorem nextMember_or (name : List Byte) (o : Object) (rest : List Object) :
    ((nextMember name (o :: rest)).isSome || (nextMember name rest).isSome) =
      (nextMember name (o :: rest)).isSome := by
  cases found : objectMember name o with
  | some member =>
      rw [nextMember_some found, Option.isSome_some, Bool.true_or]
  | none =>
      rw [nextMember_none found, Bool.or_self]

theorem nextMember_isSome (name : List Byte) (objects : List Object) :
    (nextMember name objects).isSome ↔ ∃ o ∈ objects, name ∈ objectNames o := by
  rw [nextMember, List.findSome?_isSome_iff]
  simp only [objectMember_isSome]

/-- Where no object has the member nothing is left. -/
theorem collected_eq_nil {name : List Byte} {objects : List Object}
    (absent : nextMember name objects = none) : collected name objects = [] := by
  induction objects with
  | nil => rfl
  | cons o rest ih =>
      have first : objectMember name o = none :=
        List.findSome?_eq_none_iff.mp absent o (List.mem_cons_self ..)
      have later : nextMember name rest = none := (nextMember_none first rest).symm.trans absent
      rw [collected, absent, lookedUp, ih later, List.append_nil]

/-- What stands behind a value is stored only behind a word. -/
theorem extractedText_after (v : Value) (after : Blanks) :
    extractedText v after = extractedText v [] ∧ EndsValue v after ∨
      (extractedText v []).length < (extractedText v after).length ∧ ¬ EndsValue v after := by
  cases v with
  | literal l =>
      cases after with
      | nil => exact Or.inl ⟨rfl, rfl⟩
      | cons blank blanks =>
          refine Or.inr ⟨?_, List.cons_ne_nil blank blanks⟩
          simp [extractedText, Blanks.text]
  | _ => exact Or.inl ⟨rfl, trivial⟩

/-- Of all values only an empty string leaves nothing. -/
theorem extractedText_eq_nil (v : Value) (after : Blanks) :
    extractedText v after = [] ↔ v = .string [] := by
  constructor
  · intro nothing
    cases v with
    | literal l =>
        obtain ⟨c, rest, starts, -⟩ := (Value.literal l).text_starts
        change l.text = c :: rest at starts
        rw [extractedText, starts] at nothing
        exact absurd nothing (List.cons_ne_nil _ _)
    | string body =>
        cases body with
        | nil => rfl
        | cons c body =>
            cases c <;> exact absurd nothing (List.cons_ne_nil _ _)
    | array a =>
        rw [extractedText, Array.text_eq] at nothing
        exact absurd nothing (List.cons_ne_nil _ _)
    | object o =>
        rw [extractedText, Object.text_eq] at nothing
        exact absurd nothing (List.cons_ne_nil _ _)
  · rintro rfl
    rfl

theorem extractedText_noNul (v : Value) (after : Blanks) :
    Byte.nul ∉ extractedText v after := by
  cases v with
  | literal l =>
      intro member
      rcases List.mem_append.mp member with inWord | inBlanks
      · exact noNul_of_inert l.inert inWord
      · exact Blanks.noNul inBlanks
  | string body => exact StringBody.noNul
  | array a => exact composes_noNul.array a
  | object o => exact o.noNul

/-- **One object**: the lookup leaves the value of its member, or more than that. -/
theorem lookedUp_cases (name : List Byte) (o : Object) (rest : List Object) :
    lookedUp (nextMember name (o :: rest)) = memberText (objectMember name o) ∧
        HarmlessAt name o rest ∨
      (memberText (objectMember name o)).length <
          (lookedUp (nextMember name (o :: rest))).length ∧ ¬ HarmlessAt name o rest := by
  cases found : objectMember name o with
  | some member =>
      obtain ⟨v, after⟩ := member
      rw [nextMember_some found, HarmlessAt, found]
      exact extractedText_after v after
  | none =>
      rw [nextMember_none found, HarmlessAt, found]
      cases next : nextMember name rest with
      | none => exact Or.inl ⟨rfl, fun _ none => absurd none (Option.not_mem_none _)⟩
      | some member =>
          obtain ⟨v, after⟩ := member
          have nothing := extractedText_eq_nil v after
          by_cases empty : v = .string []
          · refine Or.inl ⟨nothing.mpr empty, fun member same => ?_⟩
            cases same
            exact empty
          · refine Or.inr ⟨?_, fun harmless => empty (harmless _ rfl)⟩
            exact List.length_pos_iff.mpr fun same => empty (nothing.mp same)

/-- **All objects**: the lookups leave the values of the members, or more than them. -/
theorem collected_cases (name : List Byte) (objects : List Object) :
    collected name objects = memberValues name objects ∧ Harmless name objects ∨
      (memberValues name objects).length < (collected name objects).length ∧
        ¬ Harmless name objects := by
  induction objects with
  | nil => exact Or.inl ⟨rfl, trivial⟩
  | cons o rest ih =>
      rw [collected, memberValues, List.flatMap_cons, ← memberValues, List.length_append,
        List.length_append]
      rcases lookedUp_cases name o rest with ⟨same, harmless⟩ | ⟨more, harms⟩
      · rcases ih with ⟨sameRest, harmlessRest⟩ | ⟨more, harms⟩
        · exact Or.inl ⟨by rw [same, sameRest], harmless, harmlessRest⟩
        · refine Or.inr ⟨?_, fun both => harms both.2⟩
          rw [same]
          exact Nat.add_lt_add_left more _
      · refine Or.inr ⟨?_, fun both => harms both.1⟩
        have least : (memberValues name rest).length ≤ (collected name rest).length := by
          rcases ih with ⟨same, -⟩ | ⟨more, -⟩
          · rw [same]
          · exact Nat.le_of_lt more
        exact Nat.add_lt_add_of_lt_of_le more least

/-! ## The lookups -/

section Lookups

variable (k : WordKey) {data : CString}

/-- A lookup that comes to no member. -/
theorem lookup_absent (ends : EndsAt (scan k.bytes ⟨data.bytes, false, 0⟩) none)
    (buffer : List Byte) (size : Int) :
    simpleJsonProcessor data k.key (some buffer) size = .ok ⟨0, some buffer⟩ := by
  have absent : scan k.key.bytes ⟨data.bytes, false, 0⟩ = .absent := ends
  rw [simpleJsonProcessor_eq _ k.nonempty, absent]

/-- A lookup that comes to a member, with room for it. -/
theorem lookup_member {v : Value} {after : Blanks}
    (ends : EndsAt (scan k.bytes ⟨data.bytes, false, 0⟩) (some (v, after))) (buffer : List Byte)
    {size : Int} (room : ((extractedText v after).length : Int) < size) :
    simpleJsonProcessor data k.key (some buffer) size =
      .ok ⟨1, some (overwrite buffer (extractedText v after ++ [Byte.nul]))⟩ := by
  obtain ⟨d, tail, delimiter, stops⟩ := ends
  have some : v.text ++ after.text ++ d :: tail ≠ [] :=
    List.append_ne_nil_of_right_ne_nil _ (List.cons_ne_nil d tail)
  have enough : (extractedText v after).length ≤ (size - 1).toNat := by omega
  obtain ⟨written, rest⟩ := extractAt_value v after delimiter tail enough
  change scan k.key.bytes ⟨data.bytes, false, 0⟩ = _ at stops
  rw [simpleJsonProcessor_eq _ k.nonempty, stops]
  exact congrArg Except.ok ((lookUpAt_some buffer size some).trans (by rw [if_neg rest, written]))

end Lookups

/-! ## The loop -/

section Loop

variable {size : Nat}

/-- So much is in the buffer, and the next value goes behind it. -/
structure Collecting.Holds (size : Nat) (v : Collecting) (out : List Byte) (any : Bool) : Prop where
  position : v.s = out.length
  front : v.values.take v.s = out
  noNul : Byte.nul ∉ out
  result : v.found = any.toNat
  ends : any → (CString.ofMemory v.values).bytes = out
  space : size ≤ v.values.length

theorem Collecting.count_c (v : Collecting) (b : Byte) :
    v.count b = { v with c := v.c + braces.of b } := by
  rw [Collecting.count]
  split_ifs with opens closes
  · rw [opens, braces_openBrace]
  · rw [closes, braces_closeBrace]
    rfl
  · rw [braces_other opens closes, Int.add_zero]

/-- **Where no lookup starts** only the braces are counted. -/
theorem valuesLoop_quiet (key : CString) (size : Int) (behind : List Byte) :
    ∀ (stretch : List Byte) (v : Collecting),
      (∀ read rest, stretch = read ++ Byte.openBrace :: rest → v.c + level braces.of read ≠ 0) →
        valuesLoop key size (stretch ++ behind) v =
          valuesLoop key size behind { v with c := v.c + level braces.of stretch } := by
  intro stretch
  induction stretch with
  | nil =>
      intro v _
      rw [List.nil_append, level_nil, Int.add_zero]
  | cons b stretch ih =>
      intro v quiet
      have noStart : ¬ (b = Byte.openBrace ∧ (v.count b).c = 1) := by
        rintro ⟨rfl, first⟩
        have closed : v.c + 1 = 1 := first
        have early := quiet [] stretch rfl
        rw [level_nil] at early
        omega
      have later : ∀ read rest, stretch = read ++ Byte.openBrace :: rest →
          (v.count b).c + level braces.of read ≠ 0 := by
        intro read rest text
        have early := quiet (b :: read) rest (by rw [text, List.cons_append])
        rw [level_cons, ← Int.add_assoc] at early
        rwa [Collecting.count_c]
      rw [List.cons_append, valuesLoop, if_neg noStart, ih _ later, level_cons, ← Int.add_assoc,
        Collecting.count_c]

/-- A lookup that finds nothing changes nothing. -/
theorem Collecting.Holds.take_absent {v : Collecting} {out : List Byte} {any : Bool}
    (holds : v.Holds size out any) :
    (v.take ⟨0, some (v.values.drop v.s)⟩).Holds size out any := by
  have same : v.take ⟨0, some (v.values.drop v.s)⟩ = v := by
    rw [Collecting.take, Option.getD_some, List.take_append_drop]
    rfl
  rwa [same]

/-- A lookup that finds a value puts it behind what is there. -/
theorem Collecting.Holds.take_member {v : Collecting} {out : List Byte} {any : Bool}
    (holds : v.Holds size out any) {stored : List Byte} (noNul : Byte.nul ∉ stored)
    (room : out.length + stored.length < size) :
    (v.take ⟨1, some (overwrite (v.values.drop v.s) (stored ++ [Byte.nul]))⟩).Holds size
      (out ++ stored) true := by
  obtain ⟨tail, text⟩ : ∃ tail, out ++ overwrite (v.values.drop v.s) (stored ++ [Byte.nul]) =
      out ++ stored ++ Byte.nul :: tail :=
    ⟨_, by rw [overwrite, List.append_assoc, List.append_assoc, List.singleton_append]⟩
  have both : Byte.nul ∉ out ++ stored := fun member =>
    (List.mem_append.mp member).elim holds.noNul noNul
  have string := CString.ofMemory_append_nul both tail
  have taken : v.take ⟨1, some (overwrite (v.values.drop v.s) (stored ++ [Byte.nul]))⟩ =
      { v with
        found := 1, s := (out ++ stored).length, values := out ++ stored ++ Byte.nul :: tail } := by
    rw [Collecting.take, Option.getD_some, holds.front, text, CString.length, string]
    rfl
  have length := congrArg List.length text
  have fits : (stored ++ [Byte.nul]).length ≤ (v.values.drop v.s).length := by
    have space := holds.space
    rw [List.length_append, List.length_singleton, List.length_drop, holds.position]
    omega
  rw [List.length_append, length_overwrite fits, List.length_drop, holds.position] at length
  have space := holds.space
  rw [taken]
  exact ⟨rfl, List.take_left, both, rfl, fun _ => string, by dsimp only; omega⟩

theorem Collecting.take_c (v : Collecting) (lookup : Lookup) : (v.take lookup).c = v.c := by
  rw [Collecting.take]
  split_ifs <;> rfl

/-- The level is not in the buffer. -/
theorem Collecting.Holds.set_c {v : Collecting} {out : List Byte} {any : Bool}
    (holds : v.Holds size out any) (c : Int) : ({ v with c } : Collecting).Holds size out any :=
  ⟨holds.position, holds.front, holds.noNul, holds.result, holds.ends, holds.space⟩

/-- **One lookup** puts the member it comes to, if any, behind what is there. -/
theorem lookup_holds (k : WordKey) {data : CString} {next : Option (Value × Blanks)}
    (ends : EndsAt (scan k.bytes ⟨data.bytes, false, 0⟩) next) {v : Collecting}
    {out : List Byte} {any : Bool} (holds : v.Holds size out any)
    (room : out.length + (lookedUp next).length < size) :
    ∃ lookup, simpleJsonProcessor data k.key (some (v.values.drop v.s)) (size - v.s) =
        .ok lookup ∧
      (v.take lookup).Holds size (out ++ lookedUp next) (any || next.isSome) := by
  cases next with
  | none =>
      refine ⟨_, lookup_absent k ends _ _, ?_⟩
      rw [lookedUp, List.append_nil, Option.isSome_none, Bool.or_false]
      exact holds.take_absent
  | some member =>
      obtain ⟨v', after⟩ := member
      rw [lookedUp] at room ⊢
      have left : ((extractedText v' after).length : Int) < size - v.s := by
        rw [holds.position]
        omega
      refine ⟨_, lookup_member k ends _ left, ?_⟩
      rw [Option.isSome_some, Bool.or_true]
      exact holds.take_member (extractedText_noNul v' after) room

/-- **One object**: a lookup at its first brace, and no other one. -/
theorem valuesLoop_object (k : WordKey) (last : Blanks) {o : Object}
    {parts : List (Blanks × Object)} (quiet : Quiet o)
    (lossless : ∀ part ∈ (([], o) :: parts : List (Blanks × Object)), LosesNothing k.bytes part.2)
    {v : Collecting} {out : List Byte} {any : Bool} (closed : v.c = 0)
    (holds : v.Holds size out any)
    (room : out.length +
      (lookedUp (nextMember k.bytes (o :: parts.map Prod.snd))).length < size) :
    ∃ v' : Collecting, v'.c = level braces.of o.text ∧
      v'.Holds size (out ++ lookedUp (nextMember k.bytes (o :: parts.map Prod.snd)))
        (any || (nextMember k.bytes (o :: parts.map Prod.snd)).isSome) ∧
      valuesLoop k.key size (o.text ++ objectsText parts last) v =
        valuesLoop k.key size (objectsText parts last) v' := by
  have bytes := CString.ofMemory_bytes (objectsText_noNul last (([], o) :: parts))
  have ends := scan_objects k last (([], o) :: parts) lossless
  rw [← bytes] at ends
  obtain ⟨lookup, looked, holds⟩ := lookup_holds k ends (holds.set_c 1) room
  have text : o.text = Byte.openBrace :: (o.inner ++ [Byte.closeBrace]) := o.text_eq
  have starts : v.count Byte.openBrace = { v with c := 1 } := by
    rw [Collecting.count_c, closed, braces_openBrace]
    rfl
  refine ⟨{ ({ v with c := 1 } : Collecting).take lookup with c := level braces.of o.text }, rfl,
    holds.set_c _, ?_⟩
  have inside : ∀ read rest, o.inner ++ [Byte.closeBrace] = read ++ Byte.openBrace :: rest →
      (({ v with c := 1 } : Collecting).take lookup).c + level braces.of read ≠ 0 := by
    intro read rest here
    have early := quiet (Byte.openBrace :: read) rest (by rw [text, here]; rfl)
      (List.cons_ne_nil _ _)
    rw [level_cons, braces_openBrace] at early
    rwa [Collecting.take_c]
  have first : valuesLoop k.key size (o.text ++ objectsText parts last) v =
      valuesLoop k.key size (o.inner ++ [Byte.closeBrace] ++ objectsText parts last)
        (({ v with c := 1 } : Collecting).take lookup) := by
    have here : o.text ++ objectsText parts last =
        Byte.openBrace :: (o.inner ++ [Byte.closeBrace] ++ objectsText parts last) := by
      rw [text, List.cons_append]
    have whole : objectsText (([], o) :: parts) last =
        Byte.openBrace :: (o.inner ++ [Byte.closeBrace] ++ objectsText parts last) := here
    rw [whole] at looked
    rw [here, valuesLoop, starts]
    dsimp only
    rw [if_pos ⟨rfl, rfl⟩, looked]
    rfl
  rw [first, valuesLoop_quiet k.key size _ _ _ inside, Collecting.take_c, text, level_cons,
    braces_openBrace]

/-- Blanks are skipped. -/
theorem valuesLoop_blanks (key : CString) (size : Int) (blanks : Blanks) (behind : List Byte)
    (v : Collecting) :
    valuesLoop key size (blanks.text ++ behind) v = valuesLoop key size behind v := by
  have noBrace : ∀ read rest, blanks.text = read ++ Byte.openBrace :: rest →
      v.c + level braces.of read ≠ 0 := by
    intro read rest text
    have member : Byte.openBrace ∈ blanks.text :=
      text ▸ List.mem_append_right _ (List.mem_cons_self ..)
    exact absurd (Blanks.inert _ member) (by decide)
  have none : level braces.of blanks.text = 0 := by
    refine List.sum_eq_zero fun w member => ?_
    obtain ⟨b, inBlanks, rfl⟩ := List.mem_map.mp member
    exact braces.inert b (Blanks.inert b inBlanks)
  rw [valuesLoop_quiet key size behind blanks.text v noBrace, none, Int.add_zero]

/-- **All objects**: the loop leaves what the lookups leave, and its result says whether an object
has the member. -/
theorem valuesLoop_objects (k : WordKey) (last : Blanks) (parts : List (Blanks × Object))
    (counts : CountsRight (parts.map Prod.snd))
    (lossless : ∀ part ∈ parts, LosesNothing k.bytes part.2) :
    ∀ {v : Collecting} {out : List Byte} {any : Bool}, (parts ≠ [] → v.c = 0) →
      v.Holds size out any →
        out.length + (collected k.bytes (parts.map Prod.snd)).length < size →
          ∃ v' : Collecting, valuesLoop k.key size (objectsText parts last) v = .ok v' ∧
            v'.Holds size (out ++ collected k.bytes (parts.map Prod.snd))
              (any || (nextMember k.bytes (parts.map Prod.snd)).isSome) := by
  induction parts with
  | nil =>
      intro v out any _ holds _
      have passed := valuesLoop_blanks k.key size last [] v
      rw [List.append_nil] at passed
      refine ⟨v, passed, ?_⟩
      change v.Holds size (out ++ []) (any || false)
      rwa [List.append_nil, Bool.or_false]
  | cons part parts ih =>
      obtain ⟨blanks, o⟩ := part
      obtain ⟨quiet, returns, countsLater⟩ := counts
      obtain ⟨here, later⟩ := List.forall_mem_cons.mp lossless
      intro v out any closed holds room
      rw [List.map_cons, collected, List.length_append] at room
      obtain ⟨v', level, holds, goesOn⟩ := valuesLoop_object k last quiet
        (List.forall_mem_cons.mpr ⟨here, later⟩) (closed (List.cons_ne_nil _ _)) holds
        (by omega)
      have closed' : parts ≠ [] → v'.c = 0 := fun some =>
        level.trans (returns fun none => some (List.map_eq_nil_iff.mp none))
      obtain ⟨v'', ended, holds⟩ := ih countsLater later closed' holds
        (by rw [List.length_append]; omega)
      refine ⟨v'', ?_, ?_⟩
      · rw [objectsText, valuesLoop_blanks, goesOn, ended]
      · rw [List.map_cons, collected, ← List.append_assoc]
        rw [Bool.or_assoc, nextMember_or] at holds
        exact holds

end Loop

/-! ## The buffer behind the call -/

section Call

variable (k : WordKey) (last : Blanks) {parts : List (Blanks × Object)}
  (counts : CountsRight (parts.map Prod.snd))
  (lossless : ∀ part ∈ parts, LosesNothing k.bytes part.2)

include counts lossless

/-- **The call** returns whether an object has the member, and leaves what the lookups leave. -/
theorem getValuesFromJSONs_run {buffer : List Byte} {size : Nat} (fits : size ≤ buffer.length)
    (room : (collected k.bytes (parts.map Prod.snd)).length < size) :
    ∃ found values,
      getValuesFromJSONs (objectsString parts last) k.key buffer size = .ok (found, values) ∧
        (found = 1 ↔ ∃ o ∈ parts.map Prod.snd, k.bytes ∈ objectNames o) ∧
        ((∃ o ∈ parts.map Prod.snd, k.bytes ∈ objectNames o) →
          (CString.ofMemory values).bytes = collected k.bytes (parts.map Prod.snd)) := by
  have starts : (⟨0, 0, 0, buffer⟩ : Collecting).Holds size [] false :=
    ⟨rfl, rfl, List.not_mem_nil, rfl, fun never => Bool.noConfusion never, fits⟩
  have enough :
      ([] : List Byte).length + (collected k.bytes (parts.map Prod.snd)).length < size := by
    rwa [List.length_nil, Nat.zero_add]
  obtain ⟨v, ended, holds⟩ := valuesLoop_objects k last parts counts lossless (fun _ => rfl)
    starts enough
  have has := nextMember_isSome k.bytes (parts.map Prod.snd)
  have result := holds.result
  have ends := holds.ends
  rw [Bool.false_or] at result ends
  refine ⟨v.found, v.values, ?_, ?_, fun any => ends (has.mpr any)⟩
  · have run : valuesLoop k.key size (objectsString parts last).bytes ⟨0, 0, 0, buffer⟩ = .ok v :=
      ended
    rw [getValuesFromJSONs, run]
    rfl
  · rw [result, ← has, Bool.toNat_eq_one]

/-- **When the values are collected.** For objects whose braces are counted right and in which no
lookup loses its way, they are exactly if no lookup leaves more than the member of its object. -/
theorem collect_values_iff :
    Collects k.key parts last ↔ Harmless k.bytes (parts.map Prod.snd) := by
  have cases := collected_cases k.bytes (parts.map Prod.snd)
  constructor
  · intro collects
    rcases cases with ⟨-, harmless⟩ | ⟨more, -⟩
    · exact harmless
    · let size := (collected k.bytes (parts.map Prod.snd)).length + 1
      have fits : size ≤ (List.replicate size Byte.nul).length := by rw [List.length_replicate]
      obtain ⟨_, values, run, -, left⟩ := getValuesFromJSONs_run k last counts lossless fits
        (Nat.lt_succ_self _)
      obtain ⟨_, values', run', -, right⟩ := collects (List.replicate size Byte.nul) size fits
        (Nat.lt_succ_of_lt more)
      obtain ⟨-, rfl⟩ := Prod.mk.inj (Except.ok.inj (run.symm.trans run'))
      by_cases any : ∃ o ∈ parts.map Prod.snd, k.bytes ∈ objectNames o
      · have same := (left any).symm.trans (right any)
        rw [same] at more
        exact absurd more (Nat.lt_irrefl _)
      · have absent : nextMember k.bytes (parts.map Prod.snd) = none :=
          Option.not_isSome_iff_eq_none.mp fun some => any ((nextMember_isSome ..).mp some)
        rw [collected_eq_nil absent] at more
        exact absurd more (Nat.not_lt_zero _)
  · intro harmless buffer size fits room
    rcases cases with ⟨same, -⟩ | ⟨-, harms⟩
    · change (memberValues k.bytes (parts.map Prod.snd)).length < size at room
      rw [← same] at room
      have run := getValuesFromJSONs_run k last counts lossless fits room
      rwa [same] at run
    · exact absurd harmless harms

end Call

section Example

theorem keyK_ends : keyK.key.bytes = [] ++ [107] := by decide

theorem keyK_isWord : ¬ IsGap 107 := by decide

/-- The key `k`. -/
def wordK : WordKey := ⟨keyK, [], 107, keyK_ends, keyK_isWord⟩

/-- `{"k":[null]}`, and `{"a":null}` on the next line. -/
def collectedParts : List (Blanks × Object) :=
  [([], .of (.last [] (.plain "k") [] [] (.array (.of (.last [] (.literal .null) []))) [])),
    ([.carriageReturn, .lineFeed], .of (.last [] (.plain "a") [] [] (.literal .null) []))]

theorem collect_values_iff_collectedParts : Collects wordK.key collectedParts [] := by
  have closes : ∀ o ∈ collectedParts.map Prod.snd, ClosesLast o := by decide +kernel
  have noBlanks : IsSpacing [] := fun _ member => absurd member List.not_mem_nil
  have lossless : ∀ part ∈ collectedParts, LosesNothing wordK.bytes part.2 := by
    refine List.forall_mem_cons.mpr ⟨.inl ⟨.done, by decide, noBlanks, noBlanks⟩,
      List.forall_mem_singleton.mpr (.inr ⟨.done, by decide, ?_, ?_⟩)⟩
    · exact .byte (by decide) (by decide) (by decide) .done
    · -- the stretch `:null`
      iterate 5 refine .byte (by decide) (by decide) (by decide) ?_
      exact .done
  have harmless : Harmless wordK.bytes (collectedParts.map Prod.snd) :=
    ⟨trivial, fun _ none => absurd none (Option.not_mem_none _), trivial⟩
  exact (collect_values_iff wordK [] (countsRight_of_closesLast closes) lossless).mpr harmless

/-- `{"a":null}`, and `{"k":null}` on the next line. -/
def repeatedParts : List (Blanks × Object) :=
  [([], .of (.last [] (.plain "a") [] [] (.literal .null) [])),
    ([.carriageReturn, .lineFeed], .of (.last [] (.plain "k") [] [] (.literal .null) []))]

theorem collect_values_counterexample :
    ¬ ∀ (k : WordKey) (parts : List (Blanks × Object)) (last : Blanks),
      Collects k.key parts last := by
  intro always
  have run : getValuesFromJSONs (objectsString repeatedParts []) wordK.key
      (List.replicate 9 Byte.nul) 9 = .ok (1, ascii "nullnull" ++ [Byte.nul]) := by
    decide +kernel
  obtain ⟨_, values, run', -, bytes⟩ := always wordK repeatedParts []
    (List.replicate 9 Byte.nul) 9 (by decide) (by decide)
  obtain ⟨-, rfl⟩ := Prod.mk.inj (Except.ok.inj (run.symm.trans run'))
  have same := bytes (by decide)
  revert same
  decide

end Example

end ParseEmbedded.Yun
