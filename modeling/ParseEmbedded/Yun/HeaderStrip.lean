import ParseEmbedded.Bytes
import ParseEmbedded.Library.InPlace
import ParseEmbedded.Library.Search

/-!
# Stripping the header of a response

`stripHttpHeader` of `utils.c` looks for the empty line behind the header with two cursors, `pre`
and `cur`, where `cur` is one byte behind `pre`. Behind a line end both go on by three bytes at
once, and so they can pass the terminator of the string: `headerLoop_outcome` says what the loop
finds for every text, and which texts let it run over (`Overruns`).

The memory is a list of bytes from the first one of the string on. The result is `none` where the
cursors leave this list. Each access is recorded, so that the places touched can be compared with
that of the terminator.
-/

set_option autoImplicit false

namespace ParseEmbedded.Yun

open InPlace Search

/-! ## The source -/

/-- A result, and the indices of the bytes that were read or written for it. -/
structure Touching (α : Type) where
  result : α
  touched : List Nat
  deriving DecidableEq

namespace Touching

variable {α β : Type}

/-- Nothing more is touched. -/
def of (result : α) : Touching α := ⟨result, []⟩

/-- The byte at this index is touched first. -/
def touch (index : Nat) (rest : Touching α) : Touching α :=
  { rest with touched := index :: rest.touched }

/-- One part behind the other, unless the first one has left the memory. -/
def bind (first : Touching (Option α)) (second : α → Touching (Option β)) :
    Touching (Option β) :=
  match first.result with
  | some result =>
      ⟨(second result).result, first.touched ++ (second result).touched⟩
  | none => ⟨none, first.touched⟩

theorem bind_of_some {first : Touching (Option α)} {result : α}
    (there : first.result = some result) (second : α → Touching (Option β)) :
    first.bind second =
      ⟨(second result).result, first.touched ++ (second result).touched⟩ := by
  rw [bind, there]

end Touching

/-- The first loop of `stripHttpHeader`, on the memory from `pre` on, with the index of `pre`: the
index of `cur` if the end of the header is found. -/
def headerLoop : List Byte → Nat → Touching (Option (Option Nat))
  | pre :: cur :: behind, index =>
      .touch (index + 1) <|
        if cur = Byte.nul then .of (some none)
        else
          .touch index <|
            if pre = Byte.carriageReturn ∧ cur = Byte.lineFeed then
              .touch (index + 2) <|
                match behind with
                | pre :: cur :: behind =>
                    if pre = Byte.carriageReturn then
                      .touch (index + 3) <|
                        if cur = Byte.lineFeed then .of (some (some (index + 3)))
                        else headerLoop (cur :: behind) (index + 3)
                    else headerLoop (cur :: behind) (index + 3)
                | [pre] =>
                    .touch (if pre = Byte.carriageReturn then index + 3 else index + 4) (.of none)
                | [] => .of none
            else headerLoop (cur :: behind) (index + 1)
  | [_], index => .touch (index + 1) (.of none)
  | [], index => .touch (index + 1) (.of none)

/-- The loop that moves the text; it stops at its terminator. Each pass goes on by one byte, so
there are not more passes than bytes. -/
def moveLoop : Nat → List Byte → Nat → Nat → Touching (Option (List Byte × Nat))
  | 0, _, _, _ => .of none
  | left + 1, data, s, cur =>
      .touch cur <|
        match data[cur]? with
        | none => .of none
        | some c =>
            if c = Byte.nul then .of (some (data, s))
            else .touch s (moveLoop left (data.set s c) (s + 1) (cur + 1))

/-- The loop that clears what is left of the old text. -/
def clearLoop : Nat → List Byte → Nat → Touching (Option (List Byte))
  | 0, _, _ => .of none
  | left + 1, data, s =>
      .touch s <|
        match data[s]? with
        | none => .of none
        | some c =>
            if c = Byte.nul then .of (some data)
            else clearLoop left (data.set s Byte.nul) (s + 1)

/-- The second part of `stripHttpHeader`: the text from `cur` on is moved to the front. -/
def moveToFront (data : List Byte) (cur : Nat) : Touching (Option (List Byte)) :=
  (moveLoop (data.length + 1) data 0 cur).bind fun (data, s) => clearLoop (data.length + 1) data s

/-- `stripHttpHeader`: its result, and the memory behind it. It does not look at `size`. -/
def stripHttpHeader (data : List Byte) : Touching (Option (Nat × List Byte)) :=
  (headerLoop data 0).bind fun found =>
    match found with
    | none => .of (some (0, data))
    | some cur =>
        (moveToFront data (cur + 1)).bind fun data => .of (some (1, data))

/-! ## The texts that let the cursors run over -/

/-- The end of a line. -/
abbrev crlf : List Byte := [Byte.carriageReturn, Byte.lineFeed]

/-- The end of a header: of its last line, and of the empty one. -/
abbrev headerEnd : List Byte :=
  [Byte.carriageReturn, Byte.lineFeed, Byte.carriageReturn, Byte.lineFeed]

/-- A text behind which the cursors go on: an empty one, one that ends with a line end, and one that
ends with a line end and one more byte. -/
def Overruns (text : List Byte) : Prop :=
  text = [] ∨ crlf <:+ text ∨ ∃ last, crlf ++ [last] <:+ text

/-- A byte in front does not matter, unless the text has no more than three bytes with it and starts
with a line end. -/
theorem overruns_cons {c : Byte} {text : List Byte} (nonempty : text ≠ [])
    (other : c :: text ≠ crlf) (others : ∀ last, c :: text ≠ crlf ++ [last]) :
    Overruns (c :: text) ↔ Overruns text := by
  have tails : ∀ {ending : List Byte}, c :: text ≠ ending →
      (ending <:+ c :: text ↔ ending <:+ text) := by
    intro ending proper
    rw [List.suffix_cons_iff]
    exact or_iff_right fun whole => proper whole.symm
  rw [Overruns, Overruns, tails other]
  have three : (∃ last, crlf ++ [last] <:+ c :: text) ↔ ∃ last, crlf ++ [last] <:+ text :=
    exists_congr fun last => tails (others last)
  rw [three]
  exact or_congr (iff_of_false (List.cons_ne_nil c text) nonempty) Iff.rfl

/-! ## The first loop -/

section HeaderLoop

variable {text behind : List Byte} {index : Nat}

/-- What the first loop may come to on a text that starts at this index: it finds the end of the
header, or there is none and it stops at the terminator, or it runs over it. -/
inductive Outcome (text : List Byte) (index : Nat) (scan : Touching (Option (Option Nat))) : Prop
  | found (rest : List Byte) (here : search headerEnd text = some rest)
      (result : scan.result = some (some (index + (text.length - rest.length) + 3)))
      (inside : ∀ i ∈ scan.touched, i ≤ index + text.length)
  | missing (nowhere : search headerEnd text = none) (stays : ¬ Overruns text)
      (result : scan.result = some none)
      (inside : ∀ i ∈ scan.touched, i ≤ index + text.length)
  | runsOver (nowhere : search headerEnd text = none) (overruns : Overruns text)
      (outside : ∃ i ∈ scan.touched, index + text.length < i)

/-- One byte more is touched, inside the text. -/
theorem Outcome.touch {scan : Touching (Option (Option Nat))} (outcome : Outcome text index scan)
    {i : Nat} (near : i ≤ index + text.length) : Outcome text index (scan.touch i) := by
  have inside : (∀ i ∈ scan.touched, i ≤ index + text.length) →
      ∀ j ∈ (scan.touch i).touched, j ≤ index + text.length :=
    fun inside => List.forall_mem_cons.mpr ⟨near, inside⟩
  cases outcome with
  | found rest here result within => exact .found rest here result (inside within)
  | missing none stays result within => exact .missing none stays result (inside within)
  | runsOver none overruns outside =>
      obtain ⟨j, member, beyond⟩ := outside
      exact .runsOver none overruns ⟨j, List.mem_cons_of_mem i member, beyond⟩

/-- The outcome on a text is that on a longer one where the bytes in front do not matter. -/
theorem Outcome.longer (front : List Byte) {scan : Touching (Option (Option Nat))}
    (outcome : Outcome text (index + front.length) scan)
    (same : search headerEnd (front ++ text) = search headerEnd text)
    (overruns : Overruns (front ++ text) ↔ Overruns text) :
    Outcome (front ++ text) index scan := by
  have length : index + (front ++ text).length = index + front.length + text.length := by
    rw [List.length_append, Nat.add_assoc]
  cases outcome with
  | found rest here result inside =>
      refine .found rest (same.trans here) (result.trans ?_) (by rwa [length])
      have short := (search_found here).2.length_le
      rw [List.length_append]
      congr 3
      omega
  | missing none stays result inside =>
      exact .missing (same.trans none) (fun longer => stays (overruns.mp longer)) result
        (by rwa [length])
  | runsOver none runs outside =>
      exact .runsOver (same.trans none) (overruns.mpr runs) (by rwa [length])

/-- The loop always looks at the byte behind the first one. -/
theorem headerLoop_touches (data : List Byte) (index : Nat) :
    index + 1 ∈ (headerLoop data index).touched := by
  rw [headerLoop.eq_def]
  split <;> exact List.mem_cons_self

/-- A byte that does not start a line end is passed. -/
theorem headerLoop_pass {pre cur : Byte} (notNul : cur ≠ Byte.nul)
    (other : ¬ (pre = Byte.carriageReturn ∧ cur = Byte.lineFeed)) (data : List Byte) :
    headerLoop (pre :: cur :: data) index =
      .touch (index + 1) (.touch index (headerLoop (cur :: data) (index + 1))) := by
  rw [headerLoop.eq_def]
  dsimp only
  rw [if_neg notNul, if_neg other]

/-- A line end that is not followed by another one is passed with one byte more. -/
theorem headerLoop_line {pre cur : Byte}
    (other : ¬ (pre = Byte.carriageReturn ∧ cur = Byte.lineFeed)) (data : List Byte) :
    headerLoop (crlf ++ pre :: cur :: data) index =
      .touch (index + 1) (.touch index (.touch (index + 2)
        (if pre = Byte.carriageReturn then
          .touch (index + 3) (headerLoop (cur :: data) (index + 3))
        else headerLoop (cur :: data) (index + 3)))) := by
  have notNul : Byte.lineFeed ≠ Byte.nul := by decide
  rw [headerLoop.eq_def]
  dsimp only [crlf, List.cons_append, List.nil_append]
  rw [if_neg notNul, if_pos ⟨rfl, rfl⟩]
  by_cases return_ : pre = Byte.carriageReturn
  · rw [if_pos return_, if_pos return_, if_neg fun feed => other ⟨return_, feed⟩]
  · rw [if_neg return_, if_neg return_]

/-- Behind a line end the loop goes on by three bytes, if there is not another one. -/
theorem headerLoop_line_touches {pre cur : Byte}
    (other : ¬ (pre = Byte.carriageReturn ∧ cur = Byte.lineFeed)) (data : List Byte) :
    index + 4 ∈ (headerLoop (crlf ++ pre :: cur :: data) index).touched := by
  have next := headerLoop_touches (cur :: data) (index + 3)
  rw [headerLoop_line other]
  refine List.mem_cons_of_mem _ (List.mem_cons_of_mem _ (List.mem_cons_of_mem _ ?_))
  split
  · exact List.mem_cons_of_mem _ next
  · exact next

/-- The end of the header. -/
theorem headerLoop_end (data : List Byte) :
    headerLoop (headerEnd ++ data) index =
      .touch (index + 1) (.touch index (.touch (index + 2) (.touch (index + 3)
        (.of (some (some (index + 3))))))) := by
  rw [headerLoop.eq_def]
  rfl

/-- A text that is shorter than the end of a header has none. -/
theorem search_short (short : text.length < 4) : search headerEnd text = none :=
  search_eq_none_iff.mpr fun there => absurd there.length_le (Nat.not_le_of_lt short)

/-- A text of one byte. -/
theorem outcome_single (pre : Byte) :
    Outcome [pre] index (headerLoop ([pre] ++ Byte.nul :: behind) index) := by
  have stays : ¬ Overruns [pre] := by
    rintro (empty | line | ⟨last, line⟩)
    · exact List.cons_ne_nil _ _ empty
    · exact absurd line.length_le (Nat.not_le_of_lt (by simp))
    · exact absurd line.length_le (Nat.not_le_of_lt (by simp))
  have stops : headerLoop ([pre] ++ Byte.nul :: behind) index =
      .touch (index + 1) (.of (some none)) := by
    rw [headerLoop.eq_def]
    rfl
  rw [stops]
  refine .missing (search_short (by simp)) stays rfl fun i member => ?_
  rw [List.mem_singleton.mp member]
  exact Nat.le_refl _

/-- A line end, and the terminator behind it. -/
theorem outcome_crlf : Outcome crlf index (headerLoop (crlf ++ Byte.nul :: behind) index) := by
  refine .runsOver (search_short (by decide)) (Or.inr (Or.inl List.suffix_rfl))
    ⟨index + 4, ?_, Nat.add_lt_add_left (by decide) index⟩
  cases behind with
  | nil =>
      rw [headerLoop.eq_def]
      exact List.mem_cons_of_mem _ (List.mem_cons_of_mem _ (List.mem_cons_of_mem _
        List.mem_cons_self))
  | cons next behind => exact headerLoop_line_touches (fun line => absurd line.1 (by decide)) behind

/-- A line end and one byte, and the terminator behind it. -/
theorem outcome_crlf_last (last : Byte) :
    Outcome (crlf ++ [last]) index (headerLoop (crlf ++ [last] ++ Byte.nul :: behind) index) := by
  refine .runsOver (search_short (by simp)) (Or.inr (Or.inr ⟨last, List.suffix_rfl⟩))
    ⟨index + 4, ?_, Nat.add_lt_add_left (by simp) index⟩
  rw [List.append_assoc]
  exact headerLoop_line_touches (fun line => absurd line.2 (by decide)) behind

/-- The end of the header, and whatever is behind it. -/
theorem outcome_end (tail : List Byte) :
    Outcome (headerEnd ++ tail) index
      (headerLoop (headerEnd ++ tail ++ Byte.nul :: behind) index) := by
  have here : search headerEnd (headerEnd ++ tail) = some (headerEnd ++ tail) :=
    if_pos (List.prefix_append headerEnd tail)
  have long : index + 3 ≤ index + (headerEnd ++ tail).length := by
    simp
  rw [List.append_assoc, headerLoop_end]
  refine .found _ here ?_ fun i member => ?_
  · rw [Nat.sub_self]
    rfl
  · have near : i ≤ index + 3 := by
      simp only [Touching.touch, Touching.of, List.mem_cons, List.not_mem_nil, or_false] at member
      omega
    exact Nat.le_trans near long

/-- Where no line end starts, no end of a header does. -/
theorem search_other {pre cur : Byte} {tail : List Byte}
    (other : ¬ (pre = Byte.carriageReturn ∧ cur = Byte.lineFeed)) :
    search headerEnd (pre :: cur :: tail) = search headerEnd (cur :: tail) := by
  refine search_pass fun here => ?_
  obtain ⟨return_, here⟩ := List.cons_prefix_cons.mp here
  exact other ⟨return_.symm, (List.cons_prefix_cons.mp here).1.symm⟩

/-- And a byte in front does not matter. -/
theorem overruns_other {pre cur : Byte} {tail : List Byte}
    (other : ¬ (pre = Byte.carriageReturn ∧ cur = Byte.lineFeed)) :
    Overruns (pre :: cur :: tail) ↔ Overruns (cur :: tail) := by
  have noLine : ∀ ending, pre :: cur :: tail ≠ crlf ++ ending := fun ending whole =>
    other ⟨(List.cons.inj whole).1, (List.cons.inj (List.cons.inj whole).2).1⟩
  exact overruns_cons (List.cons_ne_nil _ _) (noLine []) fun last => noLine [last]

/-- A byte that does not start a line end. -/
theorem outcome_pass {pre cur : Byte} {tail : List Byte} (notNul : cur ≠ Byte.nul)
    (other : ¬ (pre = Byte.carriageReturn ∧ cur = Byte.lineFeed))
    (next : Outcome (cur :: tail) (index + 1)
      (headerLoop (cur :: tail ++ Byte.nul :: behind) (index + 1))) :
    Outcome (pre :: cur :: tail) index
      (headerLoop (pre :: cur :: tail ++ Byte.nul :: behind) index) := by
  have passed := Outcome.longer [pre] next (search_other other) (overruns_other other)
  have near : index + 1 ≤ index + ([pre] ++ cur :: tail).length := by simp
  rw [List.cons_append, List.cons_append, headerLoop_pass notNul other]
  exact (passed.touch (Nat.le_add_right ..)).touch near

/-- A line end that is not followed by another one. -/
theorem outcome_line {pre cur : Byte} {tail : List Byte}
    (other : ¬ (pre = Byte.carriageReturn ∧ cur = Byte.lineFeed))
    (next : Outcome (cur :: tail) (index + 3)
      (headerLoop (cur :: tail ++ Byte.nul :: behind) (index + 3))) :
    Outcome (crlf ++ pre :: cur :: tail) index
      (headerLoop (crlf ++ pre :: cur :: tail ++ Byte.nul :: behind) index) := by
  have feed : ¬ (Byte.lineFeed = Byte.carriageReturn ∧ pre = Byte.lineFeed) :=
    fun line => absurd line.1 (by decide)
  have first : ¬ headerEnd <+: crlf ++ pre :: cur :: tail := by
    intro here
    have rest := (List.cons_prefix_cons.mp (List.cons_prefix_cons.mp here).2).2
    obtain ⟨return_, rest⟩ := List.cons_prefix_cons.mp rest
    exact other ⟨return_.symm, (List.cons_prefix_cons.mp rest).1.symm⟩
  have same : search headerEnd (crlf ++ [pre] ++ cur :: tail) = search headerEnd (cur :: tail) :=
    (search_pass first).trans ((search_other feed).trans (search_other other))
  have overruns : Overruns (crlf ++ [pre] ++ cur :: tail) ↔ Overruns (cur :: tail) := by
    have long : ∀ {ending : List Byte}, ending.length < 4 →
        crlf ++ pre :: cur :: tail ≠ ending := by
      rintro _ short rfl
      simp at short
      omega
    exact (overruns_cons (List.cons_ne_nil _ _) (long (by simp)) fun last => long (by simp)).trans
      ((overruns_other feed).trans (overruns_other other))
  have passed := Outcome.longer (crlf ++ [pre]) next same overruns
  have long : 4 ≤ (crlf ++ [pre] ++ cur :: tail).length := by simp
  have touched : Outcome (crlf ++ [pre] ++ cur :: tail) index
      (if pre = Byte.carriageReturn then
        .touch (index + 3) (headerLoop (cur :: tail ++ Byte.nul :: behind) (index + 3))
      else headerLoop (cur :: tail ++ Byte.nul :: behind) (index + 3)) := by
    split
    · exact passed.touch (by omega)
    · exact passed
  change Outcome _ index (headerLoop (crlf ++ pre :: cur :: (tail ++ Byte.nul :: behind)) index)
  rw [headerLoop_line other]
  exact ((touched.touch (by omega)).touch (Nat.le_add_right ..)).touch (by omega)

variable (behind) in
/-- **The first loop finds what the text has**, and runs over the terminator exactly where the text
lets it. -/
theorem headerLoop_outcome (length : Nat) : ∀ (text : List Byte) (index : Nat),
    text.length ≤ length → Byte.nul ∉ text →
      Outcome text index (headerLoop (text ++ Byte.nul :: behind) index) := by
  induction length with
  | zero =>
      intro text index short noNul
      obtain rfl := List.eq_nil_of_length_eq_zero (Nat.le_zero.mp short)
      exact .runsOver rfl (Or.inl rfl) ⟨index + 1, headerLoop_touches _ _, Nat.lt_succ_self _⟩
  | succ length ih =>
      intro text index short noNul
      match text, short, noNul with
      | [], _, _ =>
          exact .runsOver rfl (Or.inl rfl) ⟨index + 1, headerLoop_touches _ _, Nat.lt_succ_self _⟩
      | [pre], _, _ => exact outcome_single pre
      | pre :: cur :: tail, short, noNul =>
          have noNul' : Byte.nul ∉ cur :: tail := List.not_mem_of_not_mem_cons noNul
          by_cases line : pre = Byte.carriageReturn ∧ cur = Byte.lineFeed
          · obtain ⟨rfl, rfl⟩ := line
            match tail, short, noNul' with
            | [], _, _ => exact outcome_crlf
            | [last], _, _ => exact outcome_crlf_last last
            | pre :: cur :: tail, short, noNul' =>
                by_cases second : pre = Byte.carriageReturn ∧ cur = Byte.lineFeed
                · obtain ⟨rfl, rfl⟩ := second
                  exact outcome_end tail
                · exact outcome_line second (ih (cur :: tail) (index + 3)
                    (by simp only [List.length_cons] at short ⊢; omega)
                    (List.not_mem_of_not_mem_cons (List.not_mem_of_not_mem_cons noNul')))
          · have notNul : cur ≠ Byte.nul := fun nul => noNul' (nul ▸ List.mem_cons_self)
            exact outcome_pass notNul line
              (ih (cur :: tail) (index + 1) (Nat.le_of_succ_le_succ short) noNul')

end HeaderLoop

/-! ## The loops that move the text and clear what is left -/

section Moving

variable {behind : List Byte}

/-- The second loop moves the text up to its terminator. -/
theorem moveLoop_eq (text : List Byte) : ∀ (data : List Byte) (s cur left : Nat),
    data.drop cur = text ++ Byte.nul :: behind → Byte.nul ∉ text → s ≤ cur → text.length < left →
      (moveLoop left data s cur).result =
          some (copyCells text.length data s cur, s + text.length) ∧
        ∀ i ∈ (moveLoop left data s cur).touched, i ≤ cur + text.length := by
  induction text with
  | nil =>
      intro data s cur left here noNul before room
      obtain ⟨left, rfl⟩ := Nat.exists_eq_succ_of_ne_zero (Nat.ne_zero_of_lt room)
      rw [moveLoop, getElem?_of_drop here]
      dsimp only
      rw [if_pos rfl]
      refine ⟨rfl, fun i member => ?_⟩
      rw [List.mem_singleton.mp member]
      exact Nat.le_add_right _ _
  | cons c text ih =>
      intro data s cur left here noNul before room
      obtain ⟨left, rfl⟩ := Nat.exists_eq_succ_of_ne_zero (Nat.ne_zero_of_lt room)
      have notNul := List.ne_of_not_mem_cons noNul
      have noNul' := List.not_mem_of_not_mem_cons noNul
      rw [List.cons_append] at here
      obtain ⟨result, inside⟩ := ih (data.set s c) (s + 1) (cur + 1) left
        (drop_set_before c before here) noNul' (Nat.succ_le_succ before)
        (Nat.lt_of_succ_lt_succ room)
      rw [moveLoop, getElem?_of_drop here]
      dsimp only
      rw [if_neg (Ne.symm notNul), List.length_cons, copyCells_succ here]
      constructor
      · refine result.trans ?_
        rw [Nat.add_assoc, Nat.add_comm 1]
      · intro i member
        rcases List.mem_cons.mp member with rfl | member
        · exact Nat.le_add_right _ _
        rcases List.mem_cons.mp member with rfl | member
        · exact Nat.le_trans before (Nat.le_add_right _ _)
        · have := inside i member
          omega

variable (behind) in
/-- The third loop clears what is there up to the terminator. -/
theorem clearLoop_eq (stale : List Byte) : ∀ (data : List Byte) (s left : Nat),
    data.drop s = stale ++ Byte.nul :: behind → Byte.nul ∉ stale → stale.length < left →
      (clearLoop left data s).result = some (fillCells Byte.nul stale.length data s) ∧
        ∀ i ∈ (clearLoop left data s).touched, i ≤ s + stale.length := by
  induction stale with
  | nil =>
      intro data s left here noNul room
      obtain ⟨left, rfl⟩ := Nat.exists_eq_succ_of_ne_zero (Nat.ne_zero_of_lt room)
      rw [clearLoop, getElem?_of_drop here]
      dsimp only
      rw [if_pos rfl]
      refine ⟨rfl, fun i member => ?_⟩
      rw [List.mem_singleton.mp member]
      exact Nat.le_add_right _ _
  | cons c stale ih =>
      intro data s left here noNul room
      obtain ⟨left, rfl⟩ := Nat.exists_eq_succ_of_ne_zero (Nat.ne_zero_of_lt room)
      have notNul := List.ne_of_not_mem_cons noNul
      have noNul' := List.not_mem_of_not_mem_cons noNul
      rw [List.cons_append] at here
      obtain ⟨result, inside⟩ := ih (data.set s Byte.nul) (s + 1) left
        (drop_set_before _ (Nat.le_refl s) here) noNul' (Nat.lt_of_succ_lt_succ room)
      rw [clearLoop, getElem?_of_drop here]
      dsimp only
      rw [if_neg (Ne.symm notNul)]
      refine ⟨result, fun i member => ?_⟩
      rcases List.mem_cons.mp member with rfl | member
      · exact Nat.le_add_right _ _
      · have := inside i member
        rw [List.length_cons]
        omega

variable (behind) in
/-- **A text that is moved to the front** leaves zeros behind it, up to the old end. -/
theorem moveToFront_eq (gap body : List Byte) (noNul : Byte.nul ∉ gap ++ body) :
    (moveToFront (gap ++ body ++ Byte.nul :: behind) gap.length).result =
        some (body ++ (List.replicate gap.length Byte.nul ++ Byte.nul :: behind)) ∧
      ∀ i ∈ (moveToFront (gap ++ body ++ Byte.nul :: behind) gap.length).touched,
        i ≤ gap.length + body.length := by
  obtain ⟨data, isData⟩ : ∃ data, data = gap ++ body ++ Byte.nul :: behind := ⟨_, rfl⟩
  -- the end of the old text, which the second loop leaves behind what it has moved
  obtain ⟨stale, isStale⟩ : ∃ stale, stale = (gap ++ body).drop body.length := ⟨_, rfl⟩
  have length : stale.length = gap.length := by
    rw [isStale, List.length_drop, List.length_append, Nat.add_sub_cancel]
  have atBody : data.drop gap.length = body ++ Byte.nul :: behind := by
    rw [isData, List.append_assoc, List.drop_left]
  have room : body.length < data.length + 1 := by
    rw [isData]
    simp only [List.length_append]
    omega
  obtain ⟨moved, inside⟩ := moveLoop_eq body data 0 gap.length _ atBody
    (fun member => noNul (List.mem_append_right _ member)) (Nat.zero_le _) room
  have copied : copyCells body.length data 0 gap.length =
      body ++ (stale ++ Byte.nul :: behind) := by
    have := copyCells_eq body [] gap (Byte.nul :: behind)
    rwa [List.nil_append, List.nil_append, List.length_nil, Nat.zero_add, ← List.append_assoc gap,
      ← isData, ← isStale] at this
  have room' : stale.length < (body ++ (stale ++ Byte.nul :: behind)).length + 1 := by
    simp only [List.length_append]
    omega
  obtain ⟨cleared, inside'⟩ := clearLoop_eq behind stale
    (body ++ (stale ++ Byte.nul :: behind)) body.length _ List.drop_left
    (fun member => noNul (List.mem_of_mem_drop (isStale ▸ member))) room'
  rw [copied, Nat.zero_add] at moved
  rw [fillCells_eq, length] at cleared
  rw [← isData, moveToFront, Touching.bind_of_some moved]
  refine ⟨cleared, fun i member => ?_⟩
  rcases List.mem_append.mp member with first | second
  · exact inside i first
  · have := inside' i second
    omega

end Moving

/-! ## The whole function -/

/-- The function does what it is for: it touches no byte behind the terminator, and where the text
has an end of a header it leaves the text behind the first one, with zeros up to the old end. -/
structure StripsHeader (text : CString) (behind : List Byte) : Prop where
  inside : ∀ i ∈ (stripHttpHeader (text.bytes ++ Byte.nul :: behind)).touched, i ≤ text.length
  result : (stripHttpHeader (text.bytes ++ Byte.nul :: behind)).result =
    match search headerEnd text.bytes with
    | some rest =>
        some (1, rest.drop 4 ++ (List.replicate (text.length - (rest.drop 4).length) Byte.nul ++
          Byte.nul :: behind))
    | none => some (0, text.bytes ++ Byte.nul :: behind)

/-- Where there is no end of a header, the first loop alone decides. -/
theorem stripHttpHeader_none {data : List Byte}
    (missing : (headerLoop data 0).result = some none) :
    (stripHttpHeader data).result = some (0, data) ∧
      (stripHttpHeader data).touched = (headerLoop data 0).touched := by
  rw [stripHttpHeader, Touching.bind, missing]
  exact ⟨rfl, List.append_nil _⟩

/-- Whatever the first loop touches is touched. -/
theorem stripHttpHeader_touches {data : List Byte} {i : Nat}
    (member : i ∈ (headerLoop data 0).touched) : i ∈ (stripHttpHeader data).touched := by
  rw [stripHttpHeader, Touching.bind]
  split
  · exact List.mem_append_left _ member
  · exact member

/-- Where the end of a header is found, the text behind it is moved to the front. -/
theorem stripsHeader_found {text : CString} {behind rest : List Byte}
    (here : search headerEnd text.bytes = some rest)
    (found : (headerLoop (text.bytes ++ Byte.nul :: behind) 0).result =
      some (some (0 + (text.bytes.length - rest.length) + 3)))
    (inside : ∀ i ∈ (headerLoop (text.bytes ++ Byte.nul :: behind) 0).touched,
      i ≤ 0 + text.bytes.length) :
    StripsHeader text behind := by
  obtain ⟨⟨body, rfl⟩, front, whole⟩ := search_found here
  have noNul := text.noNul
  rw [← whole] at found inside noNul
  -- the header with the empty line is the gap that is closed
  obtain ⟨gap, isGap⟩ : ∃ gap, gap = front ++ headerEnd := ⟨_, rfl⟩
  rw [← List.append_assoc, ← isGap] at found inside noNul whole
  have length : text.length = gap.length + body.length := by
    rw [CString.length, ← whole, List.length_append]
  have cur : 0 + ((gap ++ body).length - (headerEnd ++ body).length) + 3 + 1 = gap.length := by
    rw [isGap]
    simp only [List.length_append, List.length_cons, List.length_nil]
    omega
  obtain ⟨moved, movedInside⟩ := moveToFront_eq behind gap body noNul
  have strips : stripHttpHeader (gap ++ body ++ Byte.nul :: behind) =
      ⟨some (1, body ++ (List.replicate gap.length Byte.nul ++ Byte.nul :: behind)),
        (headerLoop (gap ++ body ++ Byte.nul :: behind) 0).touched ++
          ((moveToFront (gap ++ body ++ Byte.nul :: behind) gap.length).touched ++ [])⟩ := by
    rw [stripHttpHeader, Touching.bind_of_some found]
    dsimp only
    rw [cur, Touching.bind_of_some moved]
    rfl
  have dropped : (headerEnd ++ body).drop 4 = body := rfl
  constructor
  · intro i member
    rw [← whole, strips, List.append_nil] at member
    rcases List.mem_append.mp member with first | second
    · have := inside i first
      rw [List.length_append] at this
      omega
    · have := movedInside i second
      omega
  · rw [here, ← whole, strips]
    dsimp only
    rw [dropped, length, Nat.add_sub_cancel]

/-- **The function does what it is for** if and only if the text has an end of a header, or it does
not let the cursors run over its terminator. -/
theorem strip_header_iff (text : CString) (behind : List Byte) :
    StripsHeader text behind ↔ headerEnd <:+: text.bytes ∨ ¬ Overruns text.bytes := by
  have outcome := headerLoop_outcome behind _ text.bytes 0 (Nat.le_refl _) text.noNul
  cases outcome with
  | found rest here result inside =>
      have there : headerEnd <:+: text.bytes :=
        (search_found here).1.isInfix.trans (search_found here).2.isInfix
      exact iff_of_true (stripsHeader_found here result inside) (Or.inl there)
  | missing nowhere stays result inside =>
      obtain ⟨whole, touched⟩ := stripHttpHeader_none result
      refine iff_of_true ⟨fun i member => ?_, ?_⟩ (Or.inr stays)
      · rw [touched] at member
        exact Nat.le_trans (inside i member) (Nat.le_of_eq (Nat.zero_add _))
      · rw [whole, nowhere]
  | runsOver nowhere overruns outside =>
      obtain ⟨i, member, beyond⟩ := outside
      refine iff_of_false (fun strips => ?_) (not_or.mpr ⟨search_eq_none_iff.mp nowhere,
        not_not_intro overruns⟩)
      have := strips.inside i (stripHttpHeader_touches member)
      rw [CString.length] at this
      omega

/-- An empty message with a line end behind it, in front of what is left of an earlier response:
the cursors run over the terminator, and find the end of a header there. -/
theorem strip_header_counterexample :
    ¬ StripsHeader (CString.literal "\x7b\x7d\r\n") (headerEnd ++ [120, Byte.nul]) ∧
      (stripHttpHeader ((CString.literal "\x7b\x7d\r\n").bytes ++
        Byte.nul :: (headerEnd ++ [120, Byte.nul]))).result =
          some (1, [120, 0, 0, 0, 0] ++ headerEnd ++ [120, Byte.nul]) := by
  have bytes : (CString.literal "\x7b\x7d\r\n").bytes = [123, 125, 13, 10] := by decide
  have result : (stripHttpHeader ([123, 125, 13, 10] ++
      Byte.nul :: (headerEnd ++ [120, Byte.nul]))).result =
        some (1, [120, 0, 0, 0, 0] ++ headerEnd ++ [120, Byte.nul]) := by decide +kernel
  have nowhere : search headerEnd [123, 125, 13, 10] = none := by decide
  rw [bytes]
  refine ⟨fun strips => ?_, result⟩
  have stays := strips.result
  rw [bytes, nowhere, result] at stays
  exact absurd stays (by decide)

end ParseEmbedded.Yun
