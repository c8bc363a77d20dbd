import ParseEmbedded.Rtos.QueryResult
import ParseEmbedded.Yun.JsonArrays

/-!
# What a sketch gets of a query

`arduinoQueryHandler` of `parse_request.c` copies the array of results into a buffer of
`PARSE_BUFSIZE` bytes and hands out the objects of what fits, one for each command `n`. So a sketch
that asks until there are no more gets the objects that lie within the first 2047 bytes of the array
as they are, and of the next one the beginning, if any of it is there; the count that it is told
includes that one (`query_delivers`).
-/

set_option autoImplicit false

namespace ParseEmbedded.Yun

open Json Balance Looping SimpleJson
open Rtos (Stray lookUp lookUp_ok resultsKey scan_member)

/-! ## A text of objects that is cut off -/

/-- The objects in the first bytes of a text of objects, the last one as far as it goes. -/
def objectsWithin : Nat → List (List Byte × Object) → List (List Byte)
  | _, [] => []
  | room, (gap, o) :: rest =>
      if room ≤ gap.length then []
      else if room < gap.length + o.text.length then [o.text.take (room - gap.length)]
      else o.text :: objectsWithin (room - (gap.length + o.text.length)) rest

/-- With room for the whole text they are the objects. -/
theorem objectsWithin_all (tail : List Byte) : ∀ (parts : List (List Byte × Object)) (room : Nat),
    (spread parts tail).length ≤ room →
      objectsWithin room parts = parts.map fun part => part.2.text
  | [], _, _ => rfl
  | (gap, o) :: rest, room, fits => by
      have some : 0 < o.text.length := by
        rw [Object.text_eq]
        exact Nat.succ_pos _
      simp only [spread, List.length_append] at fits
      rw [objectsWithin, if_neg (by omega), if_neg (by omega), List.map_cons,
        objectsWithin_all tail rest _ (by omega)]

section Cut

variable {data : CString} {begin : Nat} {slices : List Slice}

/-- Where there is no brace there are no slices. -/
theorem Iterates.eq_nil (iterates : Iterates data begin slices)
    (noBrace : ∀ c ∈ data.rest begin, NoBrace c) : slices = [] := by
  have null : getNextFromJSONArray data begin = (none, 0) := by
    refine getNext_null noBrace ?_ ?_ (List.append_nil _).symm
    · exact (Option.some_ne_none _).symm
    · exact fun _ first => absurd first (Option.not_mem_none _)
  cases iterates with
  | stop _ => rfl
  | next found _ =>
      exact absurd (congrArg Prod.fst (found.symm.trans null)) (Option.some_ne_none _)

/-- The slice that starts at the first brace, and the slices behind it. -/
theorem Iterates.of_open (iterates : Iterates data begin slices) {front text : List Byte}
    (noBrace : ∀ c ∈ front, NoBrace c) (here : data.rest begin = front ++ Byte.openBrace :: text) :
    ∃ slice others, slices = slice :: others ∧
      slice.text data = (untilReturn braces.of 0 (Byte.openBrace :: text)).1 ∧
      data.rest slice.stop = (untilReturn braces.of 0 (Byte.openBrace :: text)).2 ∧
      Iterates data slice.stop others := by
  have found := getNext_open noBrace here
  cases iterates with
  | stop null =>
      exact absurd ((congrArg Prod.fst found).symm.trans null) (Option.some_ne_none _)
  | @next _ slice others found' rest =>
      obtain ⟨start, size⟩ := Prod.mk.inj (found'.symm.trans found)
      obtain rfl : slice = ⟨begin + front.length,
          (untilReturn braces.of 0 (Byte.openBrace :: text)).1.length⟩ := by
        cases slice
        rw [Slice.mk.injEq]
        exact ⟨Option.some.inj start, size⟩
      exact ⟨_, others, rfl, Slice.text_open here, Slice.rest_open here, rest⟩

/-- Something is read of a text that is not empty. -/
theorem untilReturn_ne_nil {text : List Byte} (some : text ≠ []) (d : Int) :
    (untilReturn braces.of d text).1 ≠ [] := by
  obtain ⟨c, text, rfl⟩ := List.exists_cons_of_ne_nil some
  by_cases returns : d + braces.of c = 0
  · rw [untilReturn_of_eq returns]
    exact List.cons_ne_nil c []
  · rw [untilReturn_of_ne returns]
    exact List.cons_ne_nil c _

/-- The beginning of an object is read to its end. -/
theorem untilReturn_beginning {o : Object} (closes : ClosesLast o) {left : Nat}
    (some : 0 < left) (short : left < o.text.length) :
    untilReturn braces.of 0 (o.text.take left) = (o.text.take left, []) := by
  rcases untilReturn_cases braces.of (o.text.take left) 0 with first | ⟨all, -⟩
  swap
  · exact all
  -- what returns to zero in it is a proper beginning of the object
  have whole := untilReturn_whole braces.of (o.text.take left) 0
  have isPrefix : (untilReturn braces.of 0 (o.text.take left)).1 <+: o.text := by
    refine List.IsPrefix.trans ⟨_, whole⟩ (List.take_prefix left o.text)
  have nonempty : o.text.take left ≠ [] := by
    refine List.ne_nil_of_length_pos ?_
    rw [List.length_take]
    omega
  have proper : (untilReturn braces.of 0 (o.text.take left)).1 ≠ o.text := by
    intro same
    have shorter := congrArg List.length whole
    rw [List.length_append, List.length_take, same] at shorter
    omega
  exact absurd first.returns (closes.first _ isPrefix (untilReturn_ne_nil nonempty 0) proper)

/-- **The slices of a text of objects that is cut off** are the objects in it, and the beginning of
the one that is cut. -/
theorem iterates_cut (parts : List (List Byte × Object)) {tail : List Byte} :
    ∀ {room begin : Nat} {slices : List Slice}, Apart parts tail →
      (∀ part ∈ parts, ClosesLast part.2) → data.rest begin = (spread parts tail).take room →
        Iterates data begin slices →
          slices.map (Slice.text data) = objectsWithin room parts := by
  induction parts with
  | nil =>
      intro room begin slices apart _ here iterates
      rw [iterates.eq_nil fun c member =>
        apart.tail c (List.mem_of_mem_take (here ▸ member : c ∈ tail.take room))]
      rfl
  | cons part rest ih =>
      intro room begin slices apart closes here iterates
      obtain ⟨gap, o⟩ := part
      have noBrace : ∀ c ∈ gap, NoBrace c := apart.gaps (gap, o) (List.mem_cons_self ..)
      have closesHere : ClosesLast o := closes (gap, o) (List.mem_cons_self ..)
      have later : Apart rest tail :=
        ⟨fun part member => apart.gaps part (List.mem_cons_of_mem _ member), apart.tail⟩
      rw [spread] at here
      rw [objectsWithin]
      by_cases inGap : room ≤ gap.length
      · -- the text ends in front of the object
        rw [List.take_append_of_le_length inGap] at here
        rw [if_pos inGap, iterates.eq_nil fun c member =>
          noBrace c (List.mem_of_mem_take (here ▸ member : c ∈ gap.take room))]
        rfl
      obtain ⟨left, rfl⟩ := Nat.exists_eq_add_of_lt (Nat.lt_of_not_le inGap)
      rw [if_neg inGap]
      rw [Nat.add_assoc, List.take_length_add_append] at here
      by_cases inObject : gap.length + left + 1 < gap.length + o.text.length
      · -- the text ends in the object
        have short : left + 1 < o.text.length := by omega
        rw [List.take_append_of_le_length (Nat.le_of_lt short)] at here
        have starts : o.text.take (left + 1) =
            Byte.openBrace :: (o.inner ++ [Byte.closeBrace]).take left := by
          rw [Object.text_eq, List.take_succ_cons]
        have read := untilReturn_beginning closesHere (Nat.succ_pos left) short
        rw [starts] at here read
        obtain ⟨slice, others, rfl, text, behind, more⟩ := iterates.of_open noBrace here
        rw [read] at text behind
        rw [if_pos inObject, List.map_cons, text, more.eq_nil fun c member =>
          absurd (behind ▸ member) List.not_mem_nil, ← starts]
        have room : gap.length + left + 1 - gap.length = left + 1 := by omega
        rw [room]
        rfl
      · -- the object is there
        obtain ⟨less, rest'⟩ : ∃ less, left + 1 = o.text.length + less :=
          Nat.exists_eq_add_of_le (by omega)
        rw [rest', List.take_length_add_append] at here
        have nonempty : o.text ≠ [] := by
          rw [Object.text_eq]
          exact List.cons_ne_nil _ _
        have starts : o.text ++ (spread rest tail).take less = Byte.openBrace ::
            (o.inner ++ [Byte.closeBrace] ++ (spread rest tail).take less) := by
          rw [Object.text_eq, List.cons_append]
        have read := untilReturn_append o.text ((spread rest tail).take less) 0 nonempty closesHere
        rw [starts] at here read
        obtain ⟨slice, others, rfl, text, behind, more⟩ := iterates.of_open noBrace here
        rw [read] at text behind
        have room : gap.length + left + 1 - (gap.length + o.text.length) = less := by omega
        rw [if_neg inObject, List.map_cons, text, room,
          ih later (fun part member => closes part (List.mem_cons_of_mem _ member)) behind more]

end Cut

/-! ## The answer of a query -/

/-- A document with an array of objects as its results. -/
structure QueryAnswer where
  document : Document
  array : Json.Array
  objects : List Object
  results : objectValue resultsKey.bytes document.object = some (.array array)
  all : arrayObjects array = some objects

/-- The lookup of `results` is not misled, and the braces of each object balance at its last
byte. -/
structure QueryAnswer.Plain (q : QueryAnswer) : Prop where
  spaced : SpacedObject q.document.object
  unmistaken : UnmistakenDocument resultsKey.bytes q.document
  closes : ∀ o ∈ q.objects, ClosesLast o

/-- The lookup stores the array. -/
theorem QueryAnswer.Plain.stored {q : QueryAnswer} (plain : q.Plain) :
    storedText resultsKey.bytes q.document.text = some q.array.text := by
  obtain ⟨front, after, mark, tail, delimiter, ⟨blanks, rfl⟩, -, -, stopped⟩ :=
    scan_member plain.spaced plain.unmistaken q.results
  have some : (Value.array q.array).text ++ (blanks.text ++ mark :: tail) ≠ [] :=
    List.append_ne_nil_of_right_ne_nil _
      (List.append_ne_nil_of_right_ne_nil _ (List.cons_ne_nil _ _))
  rw [storedText_of_stopped stopped some, storedAt, ← List.append_assoc]
  refine congrArg Option.some (extractAt_value _ blanks delimiter tail ?_).1
  change q.array.text.length ≤ _
  rw [List.append_assoc, List.length_append]
  exact Nat.le_add_right _ _

/-- What the handler has in its array behind the lookup. -/
theorem QueryAnswer.Plain.lookedUp {q : QueryAnswer} (plain : q.Plain) (stray : Stray)
    (memory : List Byte) :
    (CString.ofMemory (lookUp stray q.document.string (CString.literal "results") memory
      PARSE_BUFSIZE).2).bytes = q.array.text.take (PARSE_BUFSIZE - 1) := by
  have nonempty : (CString.literal "results").bytes ≠ [] := resultsKey.nonempty
  have stored : storedText (CString.literal "results").bytes q.document.string.bytes =
      some q.array.text := plain.stored
  obtain ⟨result, looked⟩ := lookup_stores nonempty stored memory PARSE_BUFSIZE
  rw [lookUp_ok stray looked]
  exact ofMemory_storeInto memory PARSE_BUFSIZE (storedText_noNul q.document.string.noNul
    plain.stored)

/-- **A handler that is ended by the sketch** has printed as many slices as it was asked for, or all
that there are. -/
theorem arduinoQueryHandler_ended {stray : Stray} {memory : List Byte} {body : CString}
    {slices : List Slice} {results : CString}
    (looked : CString.ofMemory
      (lookUp stray body (CString.literal "results") memory PARSE_BUFSIZE).2 = results)
    (iterates : Iterates results 0 slices) (few : slices.length ≤ results.length)
    {commands : List Byte} (notEnd : ∀ ch ∈ commands, ch ≠ endCommands) :
    ∃ printed, arduinoQueryHandler stray memory 0 (some body) (commands ++ [endCommands]) =
        some printed ∧
      printedObjects printed =
        (slices.map (Slice.text results)).take (commands.count nextObject) ∧
      PrintsCount slices.length printed := by
  have nothing : PrintsCount slices.length Query.start.printed :=
    fun n member => absurd member List.not_mem_nil
  have handled : ∀ {ended : Query} {ch : Byte},
      loop (queryPass results slices.length) .start (commands ++ [endCommands]) =
        some (ended, ch) →
      arduinoQueryHandler stray memory 0 (some body) (commands ++ [endCommands]) =
        some ended.printed := by
    intro ended ch done
    rw [arduinoQueryHandler, looked, getCount_iterates iterates few, Option.bind_some, done]
    rfl
  obtain ⟨running, stops⟩ := queryLoop_prints slices.length commands .start slices iterates
    (Nat.zero_le _) notEnd
  rcases Nat.lt_or_ge slices.length (commands.count nextObject) with more | less
  · obtain ⟨ended, done, prints⟩ := stops more
    refine ⟨ended.printed, handled (loop_append_of_some _ _ done), ?_, prints.counts nothing⟩
    rw [prints.objects, List.take_of_length_le]
    · rfl
    · rw [List.length_map]
      exact Nat.le_of_lt more
  · obtain ⟨isRunning, prints⟩ := running less
    have leaves : ∀ query, queryPass results slices.length query endCommands =
        (query, some endCommands) := fun query => rfl
    refine ⟨_, @handled _ endCommands ?_, ?_, prints.counts nothing⟩
    · rw [loop_append _ _ isRunning, loop_cons_of_some (by rw [leaves]), leaves]
    · rw [prints.objects, List.map_take]
      rfl

/-- **What a sketch gets of a query.** The answer has an array of objects as its results, apart from
each other by bytes that are no braces. A sketch that sends any commands and then `e` is sent, for
its commands `n` one by one, the objects that lie in the first 2047 bytes of the array, the one that
is cut there as far as it goes, and then nothing more; for each `c` it is sent how many these are.
If the array has less than `PARSE_BUFSIZE` bytes they are the objects of the array. -/
theorem query_delivers {q : QueryAnswer} (plain : q.Plain) (stray : Stray) (memory : List Byte) :
    ∃ parts tail, parts.map Prod.snd = q.objects ∧ q.array.text = spread parts tail ∧
      Apart parts tail ∧
      (∀ commands : List Byte, (∀ ch ∈ commands, ch ≠ endCommands) → ∃ printed,
        arduinoQueryHandler stray memory 0 (some q.document.string) (commands ++ [endCommands]) =
            some printed ∧
          printedObjects printed =
            (objectsWithin (PARSE_BUFSIZE - 1) parts).take (commands.count nextObject) ∧
          PrintsCount (objectsWithin (PARSE_BUFSIZE - 1) parts).length printed) ∧
      (q.array.text.length < PARSE_BUFSIZE →
        objectsWithin (PARSE_BUFSIZE - 1) parts = q.objects.map Object.text) := by
  obtain ⟨parts, tail, same, text, apart, -⟩ :=
    ObjectArray.text_spread ⟨[], q.array, [], q.objects, q.all⟩
  change parts.map Prod.snd = q.objects at same
  have alone : q.array.text = spread parts tail := by
    rw [← text]
    simp [ObjectArray.text, Blanks.text]
  have looked := plain.lookedUp stray memory
  rw [alone] at looked
  generalize isResults : CString.ofMemory (lookUp stray q.document.string
    (CString.literal "results") memory PARSE_BUFSIZE).2 = results at looked
  obtain ⟨slices, iterates, few⟩ := exists_iterates results _ 0 (Nat.zero_le _) (Nat.sub_le ..)
  have closes : ∀ part ∈ parts, ClosesLast part.2 := by
    intro part member
    refine plain.closes part.2 ?_
    rw [← same]
    exact List.mem_map_of_mem member
  have here : results.rest 0 = (spread parts tail).take (PARSE_BUFSIZE - 1) := looked
  have sliced := iterates_cut parts apart closes here iterates
  refine ⟨parts, tail, same, alone, apart, fun commands notEnd => ?_, fun fits => ?_⟩
  · obtain ⟨printed, done, objects, counts⟩ :=
      arduinoQueryHandler_ended isResults iterates few notEnd
    rw [sliced] at objects
    refine ⟨printed, done, objects, ?_⟩
    rw [← sliced, List.length_map]
    exact counts
  · rw [alone] at fits
    rw [objectsWithin_all tail parts _ (Nat.le_sub_one_of_lt fits), ← same, List.map_map]
    rfl

section Example

/-- `{"results":[{},{}]}` -/
def emptiesArray : Json.Array :=
  .of (.more [] (.object (.empty [])) [] (.last [] (.object (.empty [])) []))

def emptiesDocument : Document :=
  ⟨[], .of (.last [] (.plain "results") [] [] (.array emptiesArray) []), []⟩

theorem empties_results :
    objectValue resultsKey.bytes emptiesDocument.object = some (.array emptiesArray) := by
  rw [emptiesDocument, objectValue, memberValue, if_pos (by decide)]

def emptiesAnswer : QueryAnswer :=
  ⟨emptiesDocument, emptiesArray, [.empty [], .empty []], empties_results, rfl⟩

theorem empties_plain : emptiesAnswer.Plain where
  spaced := by
    have noBlanks : IsSpacing [] := fun _ member => absurd member List.not_mem_nil
    exact ⟨noBlanks, noBlanks, noBlanks, noBlanks⟩
  unmistaken :=
    ⟨.done, ⟨.done, .inl (by decide)⟩, .inl (List.mem_singleton.mpr (by decide))⟩
  closes := by decide

/-- The sketch asks for the count, and three times for an object. -/
theorem query_delivers_empties :
    ∃ parts tail, parts.map Prod.snd = emptiesAnswer.objects ∧
      emptiesAnswer.array.text = spread parts tail ∧ Apart parts tail ∧
      (∀ commands : List Byte, (∀ ch ∈ commands, ch ≠ endCommands) → ∃ printed,
        arduinoQueryHandler ⟨⟨[], List.not_mem_nil⟩, true, false⟩ [] 0
            (some emptiesAnswer.document.string) (commands ++ [endCommands]) = some printed ∧
          printedObjects printed =
            (objectsWithin (PARSE_BUFSIZE - 1) parts).take (commands.count nextObject) ∧
          PrintsCount (objectsWithin (PARSE_BUFSIZE - 1) parts).length printed) ∧
      (emptiesAnswer.array.text.length < PARSE_BUFSIZE →
        objectsWithin (PARSE_BUFSIZE - 1) parts = emptiesAnswer.objects.map Object.text) :=
  query_delivers empties_plain _ []

end Example

end ParseEmbedded.Yun
