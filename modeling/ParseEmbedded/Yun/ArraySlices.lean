import ParseEmbedded.Json.Nesting
import ParseEmbedded.Library.Balance
import ParseEmbedded.Library.Looping
import ParseEmbedded.Rtos.Client

/-!
# The objects of an array of results

`getNextFromJSONArray` and `getCountFromJSONArray` of `utils.c`, and the loop of
`arduinoQueryHandler` in `parse_request.c` that prints the objects of an array on demand. A string
of results is at most `PARSE_BUFSIZE` bytes long, so the `int`s of the source are numbers here.

Both loops go through the string from the end of one slice to the next one (`Iterates`). A slice
starts at the first brace, and is the shortest part from there in which as many braces are closed
as opened (`nextLoop_inside`), so each call moves on and the two loops agree on every string,
`count_announces_slices`.
-/

set_option autoImplicit false

namespace ParseEmbedded.Yun

open Json Balance Looping
open Rtos (Stray lookUp)

/-! ## The source -/

/-- The variables of `getNextFromJSONArray`. -/
structure ArrayScan where
  p : Nat
  start : Option Nat
  tmp : Nat
  found : Bool
  s : Nat
  deriving DecidableEq, Repr

/-- `if (found) {s++;}` and `p++`, at the end of a round. -/
def ArrayScan.goOn (scan : ArrayScan) : ArrayScan :=
  { scan with s := if scan.found then scan.s + 1 else scan.s, p := scan.p + 1 }

/-- `while (*p)`, with what is left of the string. -/
def nextLoop : List Byte → ArrayScan → ArrayScan
  | [], scan => scan
  | c :: text, scan =>
      if c = Byte.openBrace then
        let scan := if scan.tmp = 0 then { scan with start := some scan.p, found := true } else scan
        nextLoop text { scan with tmp := scan.tmp + 1 }.goOn
      else if c = Byte.closeBrace then
        let scan := if scan.tmp > 0 then { scan with tmp := scan.tmp - 1 } else scan
        if scan.tmp = 0 then
          if scan.found then { scan with s := scan.s + 1 } else scan
        else nextLoop text scan.goOn
      else nextLoop text scan.goOn

/-- `getNextFromJSONArray`: where the next object starts, and its size. -/
def getNextFromJSONArray (data : CString) (begin : Nat) : Option Nat × Nat :=
  let scan := nextLoop (data.rest begin) ⟨begin, none, 0, false, 0⟩
  (scan.start, scan.s)

/-- The loop of `getCountFromJSONArray`, for at most `fuel` rounds. -/
def countLoop (data : CString) : Nat → Nat → Nat → Nat → Option Nat
  | 0, _, _, _ => none
  | fuel + 1, next, nextSize, c =>
      match getNextFromJSONArray data (next + nextSize) with
      | (none, _) => some c
      | (some next, nextSize) =>
          if nextSize > 0 then countLoop data fuel next nextSize (c + 1) else some c

/-- `getCountFromJSONArray`, unless it takes more rounds than the string has bytes. -/
def getCountFromJSONArray (data : CString) : Option Nat :=
  countLoop data (data.length + 1) 0 0 0

/-- What is printed for the sketch. -/
inductive Printed where
  | object (object : List Byte)
  | count (count : Nat)
  deriving DecidableEq, Repr

/-- The variables of the loop of `arduinoQueryHandler`, and what it has printed. -/
structure Query where
  next : Nat
  nextSize : Nat
  printed : List Printed
  deriving DecidableEq, Repr

def Query.print (query : Query) (text : Printed) : Query :=
  { query with printed := query.printed ++ [text] }

/-- The handler of a command: `n`, `c` or `e`. It leaves the loop with the command. -/
def queryPass (results : CString) (count : Nat) (query : Query) (ch : Byte) :
    Query × Option Byte :=
  if ch = 110 then
    match getNextFromJSONArray results (query.next + query.nextSize) with
    | (none, _) => (query, some ch)
    | (some next, nextSize) =>
        if nextSize > 0 then
          ({ query with next, nextSize }.print (.object ((results.rest next).take nextSize)), none)
        else (query, some ch)
  else if ch = 99 then (query.print (.count count), none)
  else if ch = 101 then (query, some ch)
  else (query, none)

/-- Before the first command. -/
def Query.start : Query := ⟨0, 0, []⟩

abbrev PARSE_BUFSIZE : Nat := 2048

/-- `arduinoQueryHandler`: what it prints before it returns, if these commands let it return. The
array of results holds this before. -/
def arduinoQueryHandler (stray : Stray) (array : List Byte) (error : Int)
    (httpResponseBody : Option CString) (commands : List Byte) : Option (List Printed) :=
  match error, httpResponseBody with
  | 0, some body =>
      let results := CString.ofMemory
        (lookUp stray body (CString.literal "results") array PARSE_BUFSIZE).2
      (getCountFromJSONArray results).bind fun count =>
        (loop (queryPass results count) .start commands).map fun ended => ended.1.printed
  | _, _ => some []

/-! ## Slices -/

/-- A part of a string. -/
structure Slice where
  start : Nat
  size : Nat
  deriving DecidableEq, Repr

def Slice.stop (slice : Slice) : Nat := slice.start + slice.size

def Slice.text (data : CString) (slice : Slice) : List Byte :=
  (data.rest slice.start).take slice.size

/-- **The calls of `getNextFromJSONArray`**, each from the end of the slice before, return these
slices, and then `NULL`. -/
inductive Iterates (data : CString) : Nat → List Slice → Prop where
  | stop {begin : Nat} (null : (getNextFromJSONArray data begin).1 = none) :
      Iterates data begin []
  | next {begin : Nat} {slice : Slice} {slices : List Slice}
      (found : getNextFromJSONArray data begin = (some slice.start, slice.size))
      (rest : Iterates data slice.stop slices) : Iterates data begin (slice :: slices)

/-- The shortest part of the string from here that closes as many braces as it opens, or all that
is left of the string. -/
def Slice.Balanced (data : CString) (slice : Slice) : Prop :=
  FirstReturn braces.of 0 (slice.text data) ∨
    slice.stop = data.length ∧ NoReturn braces.of 0 (slice.text data)

/-- A slice in the string, from a brace on. -/
structure Slice.Proper (data : CString) (slice : Slice) : Prop where
  inside : slice.stop ≤ data.length
  opens : (slice.text data).head? = some Byte.openBrace
  balanced : slice.Balanced data

/-! ## One call -/

theorem braces_openBrace : braces.of Byte.openBrace = 1 := by decide

theorem braces_closeBrace : braces.of Byte.closeBrace = -1 := by decide

theorem braces_other {c : Byte} (notOpen : c ≠ Byte.openBrace) (notClose : c ≠ Byte.closeBrace) :
    braces.of c = 0 := by
  change (if c = Byte.openBrace then (1 : Int) else if c = Byte.closeBrace then -1 else 0) = 0
  rw [if_neg notOpen, if_neg notClose]

/-- A byte that is no brace. -/
def NoBrace (c : Byte) : Prop := c ≠ Byte.openBrace ∧ c ≠ Byte.closeBrace

instance (c : Byte) : Decidable (NoBrace c) := inferInstanceAs (Decidable (_ ∧ _))

theorem nextLoop_other {c : Byte} (other : NoBrace c) (text : List Byte) (scan : ArrayScan) :
    nextLoop (c :: text) scan = nextLoop text scan.goOn := by
  rw [nextLoop, if_neg other.1, if_neg other.2]

/-- Bytes that are no braces are skipped. -/
theorem nextLoop_skip {front : List Byte} (noBrace : ∀ c ∈ front, NoBrace c) (text : List Byte) :
    ∀ p, nextLoop (front ++ text) ⟨p, none, 0, false, 0⟩ =
      nextLoop text ⟨p + front.length, none, 0, false, 0⟩ := by
  induction front with
  | nil =>
      intro p
      rfl
  | cons c front ih =>
      intro p
      obtain ⟨here, there⟩ := List.forall_mem_cons.mp noBrace
      rw [List.cons_append, nextLoop_other here, List.length_cons, Nat.add_comm front.length,
        ← Nat.add_assoc]
      exact ih there (p + 1)

/-- **Behind the first brace** the loop reads up to the first return to level zero, and counts what
it reads. -/
theorem nextLoop_inside (text : List Byte) : ∀ (p start tmp s : Nat), 0 < tmp →
    (nextLoop text ⟨p, some start, tmp, true, s⟩).start = some start ∧
      (nextLoop text ⟨p, some start, tmp, true, s⟩).s =
        s + (untilReturn braces.of tmp text).1.length := by
  induction text with
  | nil =>
      intro p start tmp s _
      exact ⟨rfl, rfl⟩
  | cons c text ih =>
      intro p start tmp s inside
      have longer : ∀ (tmp' : Nat), 0 < tmp' → (tmp : Int) + braces.of c = tmp' →
          nextLoop (c :: text) ⟨p, some start, tmp, true, s⟩ =
            nextLoop text ⟨p + 1, some start, tmp', true, s + 1⟩ →
          (nextLoop (c :: text) ⟨p, some start, tmp, true, s⟩).start = some start ∧
            (nextLoop (c :: text) ⟨p, some start, tmp, true, s⟩).s =
              s + (untilReturn braces.of tmp (c :: text)).1.length := by
        intro tmp' positive level goesOn
        obtain ⟨same, size⟩ := ih (p + 1) start tmp' (s + 1) positive
        rw [goesOn, untilReturn_of_ne (by omega), level, List.length_cons, size]
        exact ⟨same, by omega⟩
      by_cases opens : c = Byte.openBrace
      · subst opens
        refine longer (tmp + 1) (Nat.succ_pos tmp) (by rw [braces_openBrace]; rfl) ?_
        rw [nextLoop, if_pos rfl, if_neg (Nat.ne_of_gt inside)]
        rfl
      by_cases closes : c = Byte.closeBrace
      · subst closes
        by_cases last : tmp = 1
        · subst last
          have returns : ((1 : Nat) : Int) + braces.of Byte.closeBrace = 0 := by
            rw [braces_closeBrace]
            rfl
          rw [untilReturn_of_eq returns]
          exact ⟨rfl, rfl⟩
        · refine longer (tmp - 1) (by omega) (by rw [braces_closeBrace]; omega) ?_
          rw [nextLoop, if_neg (by decide), if_pos rfl]
          dsimp only
          rw [if_pos inside, if_neg (by dsimp only; omega)]
          rfl
      · refine longer tmp inside (by rw [braces_other opens closes]; omega) ?_
        rw [nextLoop_other ⟨opens, closes⟩]
        rfl

section Call

variable {data : CString} {begin : Nat}

/-- A call that comes to an opening brace. -/
theorem getNext_open {front text : List Byte} (noBrace : ∀ c ∈ front, NoBrace c)
    (here : data.rest begin = front ++ Byte.openBrace :: text) :
    getNextFromJSONArray data begin =
      (some (begin + front.length),
        (untilReturn braces.of 0 (Byte.openBrace :: text)).1.length) := by
  have opened := nextLoop_inside text (begin + front.length + 1) (begin + front.length) 1 1
    Nat.one_pos
  have first : nextLoop (Byte.openBrace :: text) ⟨begin + front.length, none, 0, false, 0⟩ =
      nextLoop text ⟨begin + front.length + 1, some (begin + front.length), 1, true, 1⟩ := rfl
  have goesOn : (0 : Int) + braces.of Byte.openBrace = ((1 : Nat) : Int) := by decide
  rw [getNextFromJSONArray, here, nextLoop_skip noBrace, first, opened.1, opened.2,
    untilReturn_of_ne (by rw [goesOn]; decide), goesOn, List.length_cons, Nat.add_comm 1]

/-- A call that comes to no brace, or to a closing one first. -/
theorem getNext_null {front text : List Byte} (noBrace : ∀ c ∈ front, NoBrace c)
    (noOpen : text.head? ≠ some Byte.openBrace) (stops : ∀ c ∈ text.head?, ¬ NoBrace c)
    (here : data.rest begin = front ++ text) :
    getNextFromJSONArray data begin = (none, 0) := by
  rw [getNextFromJSONArray, here, nextLoop_skip noBrace]
  cases text with
  | nil => rfl
  | cons c text =>
      have notOpen : c ≠ Byte.openBrace := fun same => noOpen (congrArg some same)
      have isClose : c = Byte.closeBrace := by
        by_contra other
        exact stops c rfl ⟨notOpen, other⟩
      subst isClose
      rfl

/-- Every string begins with bytes that are no braces. -/
theorem exists_front (text : List Byte) : ∃ front rest, text = front ++ rest ∧
    (∀ c ∈ front, NoBrace c) ∧ ∀ c ∈ rest.head?, ¬ NoBrace c := by
  refine ⟨text.takeWhile (NoBrace ·), text.dropWhile (NoBrace ·),
    List.takeWhile_append_dropWhile.symm, ?_, ?_⟩
  · intro c member
    simpa using List.mem_takeWhile_imp member
  · intro c first isOther
    have stops := List.head?_dropWhile_not (fun c => decide (NoBrace c)) text
    rw [Option.mem_def.mp first] at stops
    exact absurd isOther (by simpa using stops)

/-- The slice that starts at an opening brace. -/
theorem Slice.text_open {front text : List Byte}
    (here : data.rest begin = front ++ Byte.openBrace :: text) :
    Slice.text data ⟨begin + front.length,
        (untilReturn braces.of 0 (Byte.openBrace :: text)).1.length⟩ =
      (untilReturn braces.of 0 (Byte.openBrace :: text)).1 := by
  have there : data.rest (begin + front.length) = Byte.openBrace :: text := by
    rw [CString.rest, ← List.drop_drop, ← CString.rest, here, List.drop_left]
  rw [Slice.text, there, take_untilReturn]

/-- What is left of the string behind it. -/
theorem Slice.rest_open {front text : List Byte}
    (here : data.rest begin = front ++ Byte.openBrace :: text) :
    data.rest (Slice.stop ⟨begin + front.length,
        (untilReturn braces.of 0 (Byte.openBrace :: text)).1.length⟩) =
      (untilReturn braces.of 0 (Byte.openBrace :: text)).2 := by
  rw [Slice.stop, CString.rest, ← List.drop_drop, ← List.drop_drop, ← CString.rest, here,
    List.drop_left, drop_untilReturn]

theorem untilReturn_openBrace (text : List Byte) :
    (untilReturn braces.of 0 (Byte.openBrace :: text)).1 =
      Byte.openBrace :: (untilReturn braces.of 1 text).1 := by
  rw [untilReturn_of_ne (by decide)]
  rfl

/-- **What a call returns**: a slice behind the place where it begins, or `NULL`. -/
theorem getNext_cases (inside : begin ≤ data.length) :
    getNextFromJSONArray data begin = (none, 0) ∨
      ∃ slice : Slice, getNextFromJSONArray data begin = (some slice.start, slice.size) ∧
        begin ≤ slice.start ∧ 0 < slice.size ∧ slice.Proper data := by
  obtain ⟨front, rest, here, noBrace, stops⟩ := exists_front (data.rest begin)
  by_cases opens : rest.head? = some Byte.openBrace
  · obtain ⟨text, rfl⟩ := List.head?_eq_some_iff.mp opens
    have sliced := Slice.text_open here
    have whole := congrArg List.length (untilReturn_whole braces.of
      (Byte.openBrace :: text) 0)
    have length := data.length_rest begin
    rw [here, List.length_append, ← whole, List.length_append] at length
    refine Or.inr ⟨⟨begin + front.length,
      (untilReturn braces.of 0 (Byte.openBrace :: text)).1.length⟩, getNext_open noBrace here,
      Nat.le_add_right .., ?_, ?_, ?_, ?_⟩
    · dsimp only
      rw [untilReturn_openBrace]
      exact Nat.succ_pos _
    · dsimp only [Slice.stop]
      omega
    · rw [sliced, untilReturn_openBrace, List.head?_cons]
    · rw [Slice.Balanced, sliced]
      rcases untilReturn_cases braces.of (Byte.openBrace :: text) 0 with
        first | ⟨all, never⟩
      · exact Or.inl first
      · rw [all] at length ⊢
        refine Or.inr ⟨?_, never⟩
        dsimp only [List.length_nil] at length
        dsimp only [Slice.stop]
        omega
  · exact Or.inl (getNext_null noBrace opens stops here)

end Call

/-! ## Going through the string -/

section Iteration

variable {data : CString}

/-- **The calls come to an end**, since each slice has a byte. -/
theorem exists_iterates (data : CString) : ∀ (left begin : Nat), begin ≤ data.length →
    data.length - begin ≤ left → ∃ slices, Iterates data begin slices ∧ slices.length ≤ left := by
  intro left
  induction left with
  | zero =>
      intro begin inside short
      rcases getNext_cases inside with null | ⟨slice, -, after, positive, proper⟩
      · exact ⟨[], .stop (congrArg Prod.fst null), Nat.le_refl 0⟩
      · have stop := proper.inside
        dsimp only [Slice.stop] at stop
        omega
  | succ left ih =>
      intro begin inside short
      rcases getNext_cases inside with null | ⟨slice, found, after, positive, proper⟩
      · exact ⟨[], .stop (congrArg Prod.fst null), Nat.zero_le _⟩
      · have closer : data.length - slice.stop ≤ left := by
          dsimp only [Slice.stop]
          omega
        obtain ⟨slices, rest, few⟩ := ih slice.stop proper.inside closer
        exact ⟨slice :: slices, .next found rest, Nat.succ_le_succ few⟩

/-- The slices stand in the string one behind the other. -/
theorem Iterates.proper {begin : Nat} {slices : List Slice} (iterates : Iterates data begin slices)
    (inside : begin ≤ data.length) :
    (∀ slice ∈ slices, begin ≤ slice.start ∧ slice.Proper data) ∧
      slices.Pairwise fun first second => first.stop ≤ second.start := by
  induction iterates with
  | stop null => exact ⟨fun _ member => absurd member List.not_mem_nil, .nil⟩
  | @next begin slice slices found rest ih =>
      rcases getNext_cases inside with null | ⟨slice', found', after, positive, proper⟩
      · exact absurd (congrArg Prod.fst (found.symm.trans null)) (Option.some_ne_none _)
      obtain ⟨start, size⟩ := Prod.mk.inj (found.symm.trans found')
      obtain rfl : slice = slice' := by
        cases slice
        cases slice'
        rw [Slice.mk.injEq]
        exact ⟨Option.some.inj start, size⟩
      obtain ⟨all, apart⟩ := ih proper.inside
      refine ⟨fun other member => ?_, .cons (fun other member => (all other member).1) apart⟩
      rcases List.mem_cons.mp member with rfl | member
      · exact ⟨after, proper⟩
      · refine ⟨?_, (all other member).2⟩
        have behind := (all other member).1
        dsimp only [Slice.stop] at behind
        omega

/-- A slice has a byte. -/
theorem Slice.Proper.positive {slice : Slice} (proper : slice.Proper data) : 0 < slice.size := by
  by_contra none
  have opens := proper.opens
  rw [Slice.text, Nat.eq_zero_of_not_pos none] at opens
  exact absurd opens.symm (Option.some_ne_none _)

/-- **The count is the number of slices.** -/
theorem countLoop_iterates {begin : Nat} {slices : List Slice}
    (iterates : Iterates data begin slices) (inside : begin ≤ data.length) :
    ∀ (fuel next nextSize c : Nat), next + nextSize = begin → slices.length < fuel →
      countLoop data fuel next nextSize c = some (c + slices.length) := by
  induction iterates with
  | @stop begin null =>
      intro fuel next nextSize c here enough
      obtain ⟨fuel, rfl⟩ := Nat.exists_eq_add_of_lt enough
      rw [countLoop, here]
      generalize getNextFromJSONArray data begin = call at null
      obtain ⟨start, size⟩ := call
      cases null
      rfl
  | @next begin slice slices found rest ih =>
      intro fuel next nextSize c here enough
      have proper := ((Iterates.next found rest).proper inside).1 slice (List.mem_cons_self ..)
      obtain ⟨fuel, rfl⟩ : ∃ more, fuel = more + 1 := ⟨fuel - 1, by omega⟩
      rw [countLoop, here, found]
      dsimp only
      rw [if_pos proper.2.positive, ih proper.2.inside fuel slice.start slice.size (c + 1) rfl
        (Nat.lt_of_succ_lt_succ enough), List.length_cons]
      exact congrArg some (by omega)

end Iteration

/-! ## The commands of the sketch -/

/-- The objects among what is printed. -/
def printedObjects (printed : List Printed) : List (List Byte) :=
  printed.filterMap fun text =>
    match text with
    | .object object => some object
    | .count _ => none

/-- Every count that is printed is this one. -/
def PrintsCount (count : Nat) (printed : List Printed) : Prop :=
  ∀ n, .count n ∈ printed → n = count

/-- What has been printed from here on: these objects, and the count wherever it was asked for. -/
structure Prints (count : Nat) (before : Query) (objects : List (List Byte)) (after : Query) :
    Prop where
  objects : printedObjects after.printed = printedObjects before.printed ++ objects
  counts : PrintsCount count before.printed → PrintsCount count after.printed

theorem Prints.nil (count : Nat) (query : Query) : Prints count query [] query :=
  ⟨(List.append_nil _).symm, id⟩

theorem Prints.trans {count : Nat} {first second third : Query} {one two : List (List Byte)}
    (here : Prints count first one second) (there : Prints count second two third) :
    Prints count first (one ++ two) third where
  objects := by rw [there.objects, here.objects, List.append_assoc]
  counts := fun counts => there.counts (here.counts counts)

theorem Prints.object (count : Nat) (query : Query) (next nextSize : Nat) (object : List Byte) :
    Prints count query [object] ({ query with next, nextSize }.print (.object object)) where
  objects := List.filterMap_append
  counts := by
    intro counts n member
    rcases List.mem_append.mp member with earlier | last
    · exact counts n earlier
    · exact absurd (List.mem_singleton.mp last) (by simp)

theorem Prints.count (count : Nat) (query : Query) :
    Prints count query [] (query.print (.count count)) where
  objects := List.filterMap_append
  counts := by
    intro counts n member
    rcases List.mem_append.mp member with earlier | last
    · exact counts n earlier
    · exact Printed.count.inj (List.mem_singleton.mp last)

section Commands

variable {results : CString} {count : Nat}

/-- The command of the sketch for the next object. -/
abbrev nextObject : Byte := 110

/-- The command that ends the loop. -/
abbrev endCommands : Byte := 101

theorem queryPass_other (results : CString) (count : Nat) (query : Query) {ch : Byte}
    (other : ch ≠ nextObject) (goesOn : ch ≠ endCommands) :
    (queryPass results count query ch).2 = none ∧
      (queryPass results count query ch).1.next = query.next ∧
      (queryPass results count query ch).1.nextSize = query.nextSize ∧
      Prints count query [] (queryPass results count query ch).1 := by
  rw [queryPass, if_neg other]
  by_cases asked : ch = 99
  · rw [if_pos asked]
    exact ⟨rfl, rfl, rfl, .count count query⟩
  · rw [if_neg asked, if_neg goesOn]
    exact ⟨rfl, rfl, rfl, .nil count query⟩

/-- **The loop prints the slices one by one**, and stops when it is asked for one more. -/
theorem queryLoop_prints (count : Nat) (commands : List Byte) :
    ∀ (query : Query) (slices : List Slice),
      Iterates results (query.next + query.nextSize) slices →
      query.next + query.nextSize ≤ results.length → (∀ ch ∈ commands, ch ≠ endCommands) →
      (commands.count nextObject ≤ slices.length →
        loop (queryPass results count) query commands = none ∧
          Prints count query
            ((slices.take (commands.count nextObject)).map (Slice.text results))
            (behind (queryPass results count) query commands)) ∧
      (slices.length < commands.count nextObject → ∃ ended,
        loop (queryPass results count) query commands = some (ended, nextObject) ∧
          Prints count query (slices.map (Slice.text results)) ended) := by
  induction commands with
  | nil =>
      intro query slices _ _ _
      refine ⟨fun _ => ⟨rfl, ?_⟩, fun more => absurd more (Nat.not_lt_zero _)⟩
      rw [List.count_nil, List.take_zero]
      exact .nil count query
  | cons ch commands ih =>
      intro query slices iterates inside notEnd
      obtain ⟨here, there⟩ := List.forall_mem_cons.mp notEnd
      by_cases isNext : ch = nextObject
      · subst isNext
        rw [List.count_cons_self]
        cases iterates with
        | stop null =>
            have leaves : queryPass results count query nextObject = (query, some nextObject) := by
              rw [queryPass, if_pos rfl]
              generalize getNextFromJSONArray results (query.next + query.nextSize) = call at null
              obtain ⟨start, size⟩ := call
              cases null
              rfl
            refine ⟨fun few => absurd few (Nat.not_succ_le_zero _), fun _ => ⟨query, ?_, ?_⟩⟩
            · have exits : (queryPass results count query nextObject).2 = some nextObject := by
                rw [leaves]
              rw [loop_cons_of_some exits, leaves]
            · exact .nil count query
        | @next _ slice slices found rest =>
            have proper :=
              ((Iterates.next found rest).proper inside).1 slice (List.mem_cons_self ..)
            obtain ⟨after, step, here, prints⟩ : ∃ after,
                queryPass results count query nextObject = (after, none) ∧
                  after.next + after.nextSize = slice.stop ∧
                    Prints count query [slice.text results] after := by
              refine ⟨_, ?_, rfl, .object count query slice.start slice.size _⟩
              rw [queryPass, if_pos rfl, found]
              exact if_pos proper.2.positive
            rw [← here] at rest
            obtain ⟨running, stops⟩ :=
              ih after slices rest (Nat.le_trans (Nat.le_of_eq here) proper.2.inside) there
            have stays : (queryPass results count query nextObject).2 = none := by rw [step]
            rw [loop_cons_of_none stays, behind, List.foldl_cons, step, List.length_cons,
              List.take_succ_cons, List.map_cons]
            refine ⟨fun few => ?_, fun more => ?_⟩
            · obtain ⟨isRunning, printed⟩ := running (Nat.le_of_succ_le_succ few)
              exact ⟨isRunning, prints.trans printed⟩
            · obtain ⟨ended, done, printed⟩ := stops (Nat.lt_of_succ_lt_succ more)
              exact ⟨ended, done, prints.trans printed⟩
      · obtain ⟨stays, next, nextSize, prints⟩ :=
          queryPass_other results count query isNext here
        rw [List.count_cons_of_ne isNext, loop_cons_of_none stays, behind, List.foldl_cons]
        generalize (queryPass results count query ch).1 = query' at next nextSize prints
        rw [← next, ← nextSize] at iterates inside
        obtain ⟨running, stops⟩ := ih query' slices iterates inside there
        refine ⟨fun few => ?_, fun more => ?_⟩
        · obtain ⟨isRunning, printed⟩ := running few
          exact ⟨isRunning, prints.trans printed⟩
        · obtain ⟨ended, done, printed⟩ := stops more
          exact ⟨ended, done, prints.trans printed⟩

end Commands

/-- The count comes to an end. -/
theorem getCount_iterates {data : CString} {slices : List Slice}
    (iterates : Iterates data 0 slices) (few : slices.length ≤ data.length) :
    getCountFromJSONArray data = some slices.length := by
  rw [getCountFromJSONArray, countLoop_iterates iterates (Nat.zero_le _) _ 0 0 0 rfl
    (Nat.lt_succ_of_le few), Nat.zero_add]

/-- **The count that is announced is the number of objects that are delivered.** For every string
of results there are slices that the calls of `getNextFromJSONArray` return, one behind the other;
`getCountFromJSONArray` comes to an end and returns their number; and the loop of the handler, for
any commands but the one that ends it, prints the slices in their order, and stops when it is asked
for one more than there are. -/
theorem count_announces_slices (results : CString) :
    ∃ slices : List Slice, Iterates results 0 slices ∧
      getCountFromJSONArray results = some slices.length ∧
      (∀ commands : List Byte, (∀ ch ∈ commands, ch ≠ endCommands) →
        (commands.count nextObject ≤ slices.length →
          loop (queryPass results slices.length) .start commands = none ∧
            Prints slices.length .start
              ((slices.take (commands.count nextObject)).map (Slice.text results))
              (behind (queryPass results slices.length) .start commands)) ∧
        (slices.length < commands.count nextObject → ∃ ended,
          loop (queryPass results slices.length) .start commands = some (ended, nextObject) ∧
            Prints slices.length .start (slices.map (Slice.text results)) ended)) ∧
      (∀ slice ∈ slices, slice.Proper results) ∧
      slices.Pairwise fun first second => first.stop ≤ second.start := by
  obtain ⟨slices, iterates, few⟩ := exists_iterates results results.length 0
    (Nat.zero_le _) (Nat.sub_le ..)
  obtain ⟨proper, apart⟩ := iterates.proper (Nat.zero_le _)
  refine ⟨slices, iterates, getCount_iterates iterates few, fun commands notEnd => ?_,
    fun slice member => (proper slice member).2, apart⟩
  exact queryLoop_prints slices.length commands .start slices iterates (Nat.zero_le _) notEnd

end ParseEmbedded.Yun
