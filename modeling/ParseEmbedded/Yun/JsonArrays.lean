import Mathlib.Data.List.Induction
import ParseEmbedded.Yun.ArraySlices

/-!
# Arrays of JSON objects

What the calls of `getNextFromJSONArray` return on a well-formed array of objects. They count every
brace, those in strings too, so the slices are the objects exactly if, in each of them, the braces
come to balance at its last byte and nowhere before (`array_iteration_iff`). That is so where no
string has a brace in it (`closesLast_of_plain`).
-/

set_option autoImplicit false

namespace ParseEmbedded.Yun

open Json Balance

/-! ## Objects apart from each other -/

/-- A text of objects, each with the bytes in front of it, and the bytes behind the last one. -/
def spread : List (List Byte × Object) → List Byte → List Byte
  | [], tail => tail
  | (gap, o) :: rest, tail => gap ++ (o.text ++ spread rest tail)

/-- No byte between the objects is a brace. -/
structure Apart (parts : List (List Byte × Object)) (tail : List Byte) : Prop where
  gaps : ∀ part ∈ parts, ∀ c ∈ part.1, NoBrace c
  tail : ∀ c ∈ tail, NoBrace c

theorem spread_ne_nil {tail : List Byte} (more : tail ≠ []) (parts : List (List Byte × Object)) :
    spread parts tail ≠ [] := by
  cases parts with
  | nil => exact more
  | cons part rest =>
      refine List.append_ne_nil_of_right_ne_nil _ (List.append_ne_nil_of_left_ne_nil ?_ _)
      rw [Object.text_eq]
      exact List.cons_ne_nil _ _

/-- **The braces of the object, with those in its strings, balance at its last byte** and nowhere
before. -/
def ClosesLast (o : Object) : Prop := FirstReturn braces.of 0 o.text

instance (o : Object) : Decidable (ClosesLast o) :=
  inferInstanceAs (Decidable (FirstReturn braces.of 0 o.text))

/-- The part that is read of an object, and what is left. -/
theorem untilReturn_object_iff (o : Object) {behind : List Byte} (more : behind ≠ []) :
    (untilReturn braces.of 0 (o.text ++ behind)).1 = o.text ↔ ClosesLast o := by
  have some : o.text ≠ [] := by
    rw [Object.text_eq]
    exact List.cons_ne_nil _ _
  rw [ClosesLast, ← untilReturn_eq_iff some more]
  refine ⟨fun read => ?_, fun read => by rw [read]⟩
  have whole := untilReturn_whole braces.of (o.text ++ behind) 0
  rw [read] at whole
  exact Prod.ext read (List.append_cancel_left whole)

/-- **The slices of a text of objects** are the objects exactly if the braces of each balance. -/
theorem iterates_spread {data : CString} (parts : List (List Byte × Object)) {tail : List Byte}
    (more : tail ≠ []) : ∀ {begin : Nat} {slices : List Slice}, Apart parts tail →
      data.rest begin = spread parts tail → Iterates data begin slices →
        (slices.map (Slice.text data) = parts.map (fun part => part.2.text) ↔
          ∀ part ∈ parts, ClosesLast part.2) := by
  induction parts with
  | nil =>
      intro begin slices apart here iterates
      have noOpen : ([] : List Byte).head? ≠ some Byte.openBrace := (Option.some_ne_none _).symm
      have null : getNextFromJSONArray data begin = (none, 0) :=
        getNext_null apart.tail noOpen
          (fun _ first => absurd first (Option.not_mem_none _))
          (here.trans (List.append_nil tail).symm)
      cases iterates with
      | stop _ => exact iff_of_true rfl fun _ member => absurd member List.not_mem_nil
      | next found _ =>
          exact absurd (congrArg Prod.fst (found.symm.trans null)) (Option.some_ne_none _)
  | cons part rest ih =>
      intro begin slices apart here iterates
      obtain ⟨gap, o⟩ := part
      have noBrace := apart.gaps (gap, o) (List.mem_cons_self ..)
      have later : Apart rest tail :=
        ⟨fun part member => apart.gaps part (List.mem_cons_of_mem _ member), apart.tail⟩
      have starts : o.text ++ spread rest tail =
          Byte.openBrace :: (o.inner ++ [Byte.closeBrace] ++ spread rest tail) := by
        rw [Object.text_eq, List.cons_append]
      have there : data.rest begin =
          gap ++ Byte.openBrace :: (o.inner ++ [Byte.closeBrace] ++ spread rest tail) := by
        rw [here, ← starts]
        rfl
      have object := untilReturn_object_iff o (spread_ne_nil more rest)
      have text := Slice.text_open there
      have behind := Slice.rest_open there
      have found := getNext_open noBrace there
      rw [← starts] at text behind found
      cases iterates with
      | stop null =>
          have never : some (begin + gap.length) = none := (congrArg Prod.fst found).symm.trans null
          exact absurd never (Option.some_ne_none _)
      | @next _ slice slices found' iterates =>
          obtain ⟨start, size⟩ := Prod.mk.inj (found'.symm.trans found)
          obtain rfl : slice = ⟨begin + gap.length,
              (untilReturn braces.of 0 (o.text ++ spread rest tail)).1.length⟩ := by
            cases slice
            rw [Slice.mk.injEq]
            exact ⟨Option.some.inj start, size⟩
          rw [List.map_cons, List.map_cons, List.cons_eq_cons, text, object,
            List.forall_mem_cons]
          refine and_congr_right fun closes => ?_
          rw [untilReturn_append _ _ 0 (by rw [Object.text_eq]; exact List.cons_ne_nil _ _)
            closes] at behind iterates
          exact ih later behind iterates

/-- Without braces in strings the level is the depth of the brackets. -/
theorem level_eq_depth {text : List Byte} (plain : ∀ read b, read ++ [b] <+: text →
      (braces.after ⟨.text, 0⟩ read).mode ≠ .text → NoBrace b) :
    ∀ read, read <+: text → level braces.of read = (braces.after ⟨.text, 0⟩ read).depth := by
  intro read
  induction read using List.reverseRecOn with
  | nil =>
      intro _
      rfl
  | append_singleton read b ih =>
      intro isPrefix
      have before := ih ((List.prefix_append read [b]).trans isPrefix)
      have inside := plain read b isPrefix
      rw [level_append, before, level_cons, level_nil, Int.add_zero, Weight.after_append,
        Weight.after_cons, Weight.after_nil]
      generalize braces.after ⟨.text, 0⟩ read = p at inside ⊢
      obtain ⟨mode, depth⟩ := p
      cases mode with
      | text =>
          by_cases quote : b = Byte.quote
          · subst quote
            exact Int.add_zero depth
          · rw [braces.advance_text depth quote]
      | string =>
          have other := inside Mode.noConfusion
          rw [braces_other other.1 other.2, Int.add_zero, Weight.advance]
          dsimp only
          split_ifs
          · rfl
          · rfl
          · rfl
      | escape =>
          have other := inside Mode.noConfusion
          rw [braces_other other.1 other.2, Int.add_zero]
          rfl

/-- **An object without braces in its strings** closes at its last byte. -/
theorem closesLast_of_plain {o : Object} (plain : ∀ read b, read ++ [b] <+: o.text →
      (braces.after ⟨.text, 0⟩ read).mode ≠ .text → NoBrace b) : ClosesLast o where
  returns := by
    rw [Int.zero_add, level_eq_depth plain o.text List.prefix_rfl,
      (Weight.Returns.composes.object o 0).back]
  first read isPrefix nonempty proper := by
    have isOpen := Weight.object_prefix (w := braces) 0 o isPrefix nonempty proper
    rw [Int.zero_add, level_eq_depth plain read isPrefix]
    omega

/-! ## Arrays of objects -/

/-- The objects of these elements, if all of them are objects. -/
def elementObjects : Elements → Option (List Object)
  | .last _ (.object o) _ => some [o]
  | .more _ (.object o) _ rest => (elementObjects rest).map (o :: ·)
  | _ => none

def arrayObjects : Json.Array → Option (List Object)
  | .empty _ => some []
  | .of elements => elementObjects elements

/-- A well-formed array whose elements are objects, with the blanks around it. -/
structure ObjectArray where
  before : Blanks
  array : Json.Array
  after : Blanks
  objects : List Object
  all : arrayObjects array = some objects

def ObjectArray.text (a : ObjectArray) : List Byte :=
  a.before.text ++ (a.array.text ++ a.after.text)

theorem ObjectArray.noNul (a : ObjectArray) : Byte.nul ∉ a.text := by
  simp [ObjectArray.text, Blanks.noNul, composes_noNul.array a.array]

def ObjectArray.string (a : ObjectArray) : CString := ⟨a.text, a.noNul⟩

theorem IsInert.noBrace {c : Byte} (inert : IsInert c) : NoBrace c :=
  ⟨inert.2.2.1, inert.2.2.2.1⟩

theorem Blanks.noBrace {blanks : Blanks} : ∀ c ∈ blanks.text, NoBrace c :=
  fun c member => IsInert.noBrace (Blanks.inert c member)

/-- The elements of an array, from the bytes in front of the first one on. -/
theorem spread_elements (back : List Byte) : ∀ {elements : Elements} {objects : List Object}
    {front : List Byte}, elementObjects elements = some objects → (∀ c ∈ front, NoBrace c) →
      (∀ c ∈ back, NoBrace c) → ∃ parts tail, parts.map Prod.snd = objects ∧
        front ++ (elements.text ++ (Byte.closeBracket :: back)) = spread parts tail ∧
          Apart parts tail ∧ tail ≠ []
  | .last before (.object o) after, objects, front, all, noFront, noBack => by
      obtain rfl := Option.some.inj all
      refine ⟨[(front ++ before.text, o)], after.text ++ Byte.closeBracket :: back, rfl, ?_, ?_,
        List.append_ne_nil_of_right_ne_nil _ (List.cons_ne_nil _ _)⟩
      · simp [spread, Elements.text, Value.text]
      · refine ⟨fun part member => ?_, ?_⟩
        · rw [List.mem_singleton.mp member]
          exact List.forall_mem_append.mpr ⟨noFront, Blanks.noBrace⟩
        · exact List.forall_mem_append.mpr ⟨Blanks.noBrace,
            List.forall_mem_cons.mpr ⟨by decide, noBack⟩⟩
  | .more before (.object o) after rest, objects, front, all, noFront, noBack => by
      obtain ⟨others, more, rfl⟩ := Option.map_eq_some_iff.mp all
      have noGap : ∀ c ∈ after.text ++ [Byte.comma], NoBrace c :=
        List.forall_mem_append.mpr ⟨Blanks.noBrace, List.forall_mem_singleton.mpr (by decide)⟩
      obtain ⟨parts, tail, same, text, apart, nonempty⟩ :=
        spread_elements back more noGap noBack
      refine ⟨(front ++ before.text, o) :: parts, tail, ?_, ?_, ?_, nonempty⟩
      · rw [List.map_cons, same]
      · rw [spread, ← text]
        simp [Elements.text, Value.text]
      · refine ⟨List.forall_mem_cons.mpr ⟨?_, apart.gaps⟩, apart.tail⟩
        exact List.forall_mem_append.mpr ⟨noFront, Blanks.noBrace⟩

/-- An array of objects is a text of objects apart from each other. -/
theorem ObjectArray.text_spread (a : ObjectArray) : ∃ parts tail,
    parts.map Prod.snd = a.objects ∧ a.text = spread parts tail ∧ Apart parts tail ∧
      tail ≠ [] := by
  obtain ⟨before, array, after, objects, all⟩ := a
  cases array with
  | empty blanks =>
      obtain rfl := Option.some.inj all
      refine ⟨[], before.text ++ ((Json.Array.empty blanks).text ++ after.text), rfl, rfl,
        ⟨fun _ member => absurd member List.not_mem_nil, ?_⟩, ?_⟩
      · rw [Array.text_eq]
        refine List.forall_mem_append.mpr ⟨Blanks.noBrace, List.forall_mem_append.mpr
          ⟨List.forall_mem_cons.mpr ⟨by decide, ?_⟩, Blanks.noBrace⟩⟩
        exact List.forall_mem_append.mpr ⟨Blanks.noBrace, List.forall_mem_singleton.mpr (by decide)⟩
      · refine List.append_ne_nil_of_right_ne_nil _ (List.append_ne_nil_of_left_ne_nil ?_ _)
        rw [Array.text_eq]
        exact List.cons_ne_nil _ _
  | of elements =>
      have noFront : ∀ c ∈ before.text ++ [Byte.openBracket], NoBrace c :=
        List.forall_mem_append.mpr ⟨Blanks.noBrace, List.forall_mem_singleton.mpr (by decide)⟩
      obtain ⟨parts, tail, same, text, apart, nonempty⟩ :=
        spread_elements after.text all noFront Blanks.noBrace
      refine ⟨parts, tail, same, ?_, apart, nonempty⟩
      rw [← text]
      simp [ObjectArray.text, Array.text]

/-- **The iteration over the array is exact**: its slices are the texts of the elements, and the
count is their number. -/
def IteratesExactly (a : ObjectArray) : Prop :=
  (∃ slices, Iterates a.string 0 slices ∧
    slices.map (Slice.text a.string) = a.objects.map Object.text) ∧
  getCountFromJSONArray a.string = some a.objects.length

/-- **When the iteration over an array of objects is exact.** The calls of `getNextFromJSONArray`
return the elements, in order, and then `NULL`, and `getCountFromJSONArray` returns their number,
exactly if the braces of each element, with those in its strings, balance at its last byte and
nowhere before. -/
theorem array_iteration_iff (a : ObjectArray) :
    IteratesExactly a ↔ ∀ o ∈ a.objects, ClosesLast o := by
  obtain ⟨parts, tail, same, text, apart, nonempty⟩ := a.text_spread
  have texts : parts.map (fun part => part.2.text) = a.objects.map Object.text := by
    rw [← same, List.map_map]
    rfl
  have closes : (∀ part ∈ parts, ClosesLast part.2) ↔ ∀ o ∈ a.objects, ClosesLast o := by
    rw [← same, List.forall_mem_map]
  have here : a.string.rest 0 = spread parts tail := text
  have exactly : ∀ {slices : List Slice}, Iterates a.string 0 slices → _ :=
    fun iterates => iterates_spread parts nonempty apart here iterates
  constructor
  · rintro ⟨⟨slices, iterates, sliced⟩, -⟩
    exact closes.mp ((exactly iterates).mp (sliced.trans texts.symm))
  · intro balanced
    obtain ⟨slices, iterates, few⟩ := exists_iterates a.string _ 0 (Nat.zero_le _)
      (Nat.sub_le ..)
    have sliced := ((exactly iterates).mpr (closes.mpr balanced)).trans texts
    refine ⟨⟨slices, iterates, sliced⟩, ?_⟩
    have number := congrArg List.length sliced
    rw [List.length_map, List.length_map] at number
    rw [getCount_iterates iterates few, number]

/-- `[{"a":"}"}]`: the brace in the string closes the object. -/
def bracedArray : ObjectArray where
  before := []
  array := .of (.last []
    (.object (.of (.last [] (.plain "a") [] [] (.string (.plain "\x7d")) []))) [])
  after := []
  objects := [.of (.last [] (.plain "a") [] [] (.string (.plain "\x7d")) [])]
  all := rfl

theorem array_iteration_counterexample : ¬ ∀ a : ObjectArray, IteratesExactly a := by
  intro always
  obtain ⟨⟨slices, iterates, texts⟩, -⟩ := always bracedArray
  have found : getNextFromJSONArray bracedArray.string 0 = (some 1, 7) := by decide
  cases iterates with
  | stop null => exact absurd ((congrArg Prod.fst found).symm.trans null) (Option.some_ne_none _)
  | @next _ slice slices found' _ =>
      have size := (Prod.mk.inj (found'.symm.trans found)).2
      have text : Slice.text bracedArray.string slice = _ := (List.cons.inj texts).1
      have length := congrArg List.length text
      rw [Slice.text, List.length_take, size] at length
      exact absurd length (Nat.ne_of_lt (Nat.lt_of_le_of_lt (Nat.min_le_left ..) (by decide)))

end ParseEmbedded.Yun
