import Mathlib.Data.List.Infix
import Mathlib.Tactic.Common

/-!
# The text of an HTTP request

A request is written as a line with its verb, its path, its query and the version, one line for
each field, an empty line, and the body. It is read by splitting at the first end of a line, the
first colon, the first blanks and the first question mark. Reading gives back what has been written
exactly if no part contains what ends it (`read_text_iff`).

The splits are at one symbol or at a pair of different symbols, of any type.
-/

set_option autoImplicit false

namespace ParseEmbedded.HttpText

/-! ## Splitting at a symbol -/

section Split

variable {α : Type*} [DecidableEq α]

/-- The text in front of the first `a`, and the text behind it. -/
def splitAt (a : α) : List α → Option (List α × List α)
  | [] => none
  | c :: text => if c = a then some ([], text) else (splitAt a text).map fun s => (c :: s.1, s.2)

/-- **A split is the one at the first such symbol.** -/
theorem splitAt_eq_some_iff {a : α} {text : List α} : ∀ {front rest : List α},
    splitAt a text = some (front, rest) ↔ text = front ++ a :: rest ∧ a ∉ front := by
  induction text with
  | nil =>
      intro front rest
      simp [splitAt]
  | cons c text ih =>
      intro front rest
      rw [splitAt]
      by_cases here : c = a
      · subst here
        rw [if_pos rfl]
        constructor
        · intro same
          cases same
          exact ⟨rfl, List.not_mem_nil⟩
        · rintro ⟨isText, free⟩
          cases front with
          | nil =>
              cases isText
              rfl
          | cons d front =>
              cases isText
              exact absurd (List.mem_cons_self ..) free
      · rw [if_neg here, Option.map_eq_some_iff]
        constructor
        · rintro ⟨⟨front, rest⟩, found, same⟩
          cases same
          obtain ⟨rfl, free⟩ := ih.mp found
          exact ⟨rfl, List.not_mem_cons_of_ne_of_not_mem (Ne.symm here) free⟩
        · rintro ⟨isText, free⟩
          cases front with
          | nil =>
              cases isText
              exact absurd rfl here
          | cons d front =>
              cases isText
              exact ⟨(front, rest), ih.mpr ⟨rfl, List.not_mem_of_not_mem_cons free⟩, rfl⟩

theorem splitAt_append {a : α} {front : List α} (free : a ∉ front) (rest : List α) :
    splitAt a (front ++ a :: rest) = some (front, rest) :=
  splitAt_eq_some_iff.mpr ⟨rfl, free⟩

theorem splitAt_eq_none_iff {a : α} {text : List α} : splitAt a text = none ↔ a ∉ text := by
  induction text with
  | nil => simp [splitAt]
  | cons c text ih =>
      rw [splitAt]
      by_cases here : c = a
      · subst here
        simp
      · rw [if_neg here, Option.map_eq_none_iff, ih, List.mem_cons, not_or]
        exact (and_iff_right (Ne.symm here)).symm

/-! ## Splitting at a pair -/

/-- The text in front of the first `a` with `b` behind it, and the text behind the two. -/
def splitPair (a b : α) : List α → Option (List α × List α)
  | [] => none
  | [_] => none
  | c :: d :: text =>
      if c = a ∧ d = b then some ([], text)
      else (splitPair a b (d :: text)).map fun s => (c :: s.1, s.2)

/-- **A split at a pair is the one at the first such pair**, where the two differ. -/
theorem splitPair_eq_some_iff {a b : α} (differ : a ≠ b) {text : List α} :
    ∀ {front rest : List α}, splitPair a b text = some (front, rest) ↔
      text = front ++ a :: b :: rest ∧ ¬ [a, b] <:+: front := by
  induction text with
  | nil =>
      intro front rest
      simp [splitPair]
  | cons c text ih =>
      intro front rest
      cases text with
      | nil =>
          rw [splitPair]
          refine iff_of_false (fun none => by cases none) ?_
          rintro ⟨isText, -⟩
          have lengths := congrArg List.length isText
          simp only [List.length_append, List.length_cons, List.length_nil] at lengths
          omega
      | cons d text =>
          rw [splitPair]
          by_cases here : c = a ∧ d = b
          · obtain ⟨rfl, rfl⟩ := here
            rw [if_pos ⟨rfl, rfl⟩]
            constructor
            · intro same
              cases same
              exact ⟨rfl, by simp⟩
            · rintro ⟨isText, free⟩
              match front with
              | [] =>
                  cases isText
                  rfl
              | [e] =>
                  cases isText
                  exact absurd rfl differ
              | e :: e' :: front =>
                  obtain ⟨rfl, behind⟩ := List.cons.inj isText
                  obtain ⟨rfl, -⟩ := List.cons.inj behind
                  exact absurd (List.prefix_append [c, d] front).isInfix free
          · rw [if_neg here, Option.map_eq_some_iff]
            constructor
            · rintro ⟨⟨front, rest⟩, found, same⟩
              cases same
              obtain ⟨isText, free⟩ := ih.mp found
              refine ⟨congrArg (c :: ·) isText, fun pair => ?_⟩
              rcases List.infix_cons_iff.mp pair with starts | inside
              · obtain ⟨isFirst, starts⟩ := List.cons_prefix_cons.mp starts
                cases front with
                | nil => exact absurd starts (by simp)
                | cons e front =>
                    have isSecond := (List.cons_prefix_cons.mp starts).1
                    exact here ⟨isFirst.symm, (List.cons.inj isText).1.trans isSecond.symm⟩
              · exact free inside
            · rintro ⟨isText, free⟩
              cases front with
              | nil =>
                  cases isText
                  exact absurd ⟨rfl, rfl⟩ here
              | cons e front =>
                  obtain ⟨rfl, behind⟩ := List.cons.inj isText
                  refine ⟨(front, rest), ih.mpr ⟨behind, fun pair => free ?_⟩, rfl⟩
                  exact pair.trans (List.suffix_cons c front).isInfix

omit [DecidableEq α] in
/-- A pair on both sides of a symbol that is in it nowhere is on one of them. -/
theorem pair_infix_append_cons {a b m : α} (notFirst : m ≠ a) (notSecond : m ≠ b)
    (front rest : List α) :
    [a, b] <:+: front ++ m :: rest ↔ [a, b] <:+: front ∨ [a, b] <:+: rest := by
  induction front with
  | nil =>
      rw [List.nil_append, List.infix_cons_iff]
      have notHere : ¬ [a, b] <+: m :: rest := fun starts =>
        notFirst (List.cons_prefix_cons.mp starts).1.symm
      simp [notHere]
  | cons c front ih =>
      rw [List.cons_append, List.infix_cons_iff, List.infix_cons_iff, ih, or_assoc]
      refine or_congr ?_ Iff.rfl
      cases front with
      | nil =>
          refine iff_of_false ?_ (by simp)
          rintro starts
          obtain ⟨-, starts⟩ := List.cons_prefix_cons.mp starts
          exact notSecond (List.cons_prefix_cons.mp starts).1.symm
      | cons d front => simp [List.cons_prefix_cons]

omit [DecidableEq α] in
/-- There is no pair where its first symbol is missing. -/
theorem pair_not_within {a b : α} {text : List α} (missing : a ∉ text) : ¬ [a, b] <:+: text :=
  fun pair => missing (pair.subset (List.mem_cons_self ..))

end Split

/-! ## Requests -/

/-- The symbols of the format: the ends of a line, a blank, a colon and a question mark. -/
structure Symbols (α : Type*) where
  carriageReturn : α
  lineFeed : α
  blank : α
  colon : α
  questionMark : α

/-- A field of a request. -/
structure Field (α : Type*) where
  name : List α
  value : List α

/-- A request. An empty query is not written. -/
structure Request (α : Type*) where
  verb : List α
  path : List α
  query : List α
  version : List α
  fields : List (Field α)
  body : List α

variable {α : Type*} (s : Symbols α)

namespace Symbols

def line (text rest : List α) : List α := text ++ s.carriageReturn :: s.lineFeed :: rest

def fieldText (f : Field α) : List α := f.name ++ s.colon :: s.blank :: f.value

/-- The lines of the fields, and an empty one. -/
def fieldsText (body : List α) : List (Field α) → List α
  | [] => s.line [] body
  | f :: fields => s.line (s.fieldText f) (fieldsText body fields)

def target (path query : List α) : List α :=
  path ++ if query = [] then [] else s.questionMark :: query

def text (r : Request α) : List α :=
  s.line (r.verb ++ s.blank :: (s.target r.path r.query ++ s.blank :: r.version))
    (s.fieldsText r.body r.fields)

variable [DecidableEq α]

def readLine (text : List α) : Option (List α × List α) :=
  splitPair s.carriageReturn s.lineFeed text

/-- The fields up to the empty line, and the body. -/
def readFields : Nat → List α → Option (List (Field α) × List α)
  | 0, _ => none
  | fuel + 1, text => do
      let first ← s.readLine text
      if first.1 = [] then some ([], first.2)
      else
        let field ← splitPair s.colon s.blank first.1
        let more ← readFields fuel first.2
        some (⟨field.1, field.2⟩ :: more.1, more.2)

/-- The path and the query of a target. -/
def readTarget (target : List α) : List α × List α :=
  (splitAt s.questionMark target).getD (target, [])

def read (text : List α) : Option (Request α) := do
  let first ← s.readLine text
  let verb ← splitAt s.blank first.1
  let target ← splitAt s.blank verb.2
  let rest ← s.readFields first.2.length first.2
  some ⟨verb.1, (s.readTarget target.1).1, (s.readTarget target.1).2, target.2, rest.1, rest.2⟩

/-- No symbol of the format is two things at once. -/
structure Distinct : Prop where
  line : s.carriageReturn ≠ s.lineFeed
  field : s.colon ≠ s.blank
  question : s.questionMark ≠ s.blank

/-- A text that stays on its line. -/
def OneLine (text : List α) : Prop := ¬ [s.carriageReturn, s.lineFeed] <:+: text

instance decidableOneLine (text : List α) : Decidable (s.OneLine text) :=
  inferInstanceAs (Decidable (¬ _))

/-- A field on one line, with a name that has no colon in front of a blank. -/
structure CleanField (f : Field α) : Prop where
  oneLine : s.OneLine (s.fieldText f)
  name : ¬ [s.colon, s.blank] <:+: f.name

/-- No part contains what ends it. -/
structure Clean (r : Request α) : Prop where
  oneLine : s.OneLine (r.verb ++ s.blank :: (s.target r.path r.query ++ s.blank :: r.version))
  verb : s.blank ∉ r.verb
  path : s.blank ∉ r.path ∧ s.questionMark ∉ r.path
  query : s.blank ∉ r.query
  fields : ∀ f ∈ r.fields, s.CleanField f

variable {s}

omit [DecidableEq α] in
theorem fieldText_ne_nil (f : Field α) : s.fieldText f ≠ [] :=
  List.append_ne_nil_of_right_ne_nil f.name (List.cons_ne_nil _ _)

omit [DecidableEq α] in
theorem fields_length_lt (body : List α) (fields : List (Field α)) :
    fields.length < (s.fieldsText body fields).length := by
  induction fields with
  | nil => simp [fieldsText, line]
  | cons f fields ih =>
      simp only [fieldsText, line, List.length_append, List.length_cons] at ih ⊢
      omega

/-- A target is read back where no question mark stands in its path. -/
theorem readTarget_target_iff {path query : List α} :
    s.readTarget (s.target path query) = (path, query) ↔ s.questionMark ∉ path := by
  rw [readTarget, target]
  by_cases none : query = []
  · rw [if_pos none, List.append_nil, none]
    cases found : splitAt s.questionMark path with
    | none => exact iff_of_true rfl (splitAt_eq_none_iff.mp found)
    | some parts =>
        obtain ⟨isPath, -⟩ := splitAt_eq_some_iff.mp (show _ = some (parts.1, parts.2) from found)
        refine iff_of_false (fun same => ?_) fun free => free ?_
        · have shorter := congrArg (fun p : List α × List α => p.1.length) same
          rw [isPath] at shorter
          simp at shorter
        · rw [isPath]
          exact List.mem_append_right _ (List.mem_cons_self ..)
  · rw [if_neg none]
    constructor
    · intro same
      cases found : splitAt s.questionMark (path ++ s.questionMark :: query) with
      | none =>
          rw [found] at same
          have shorter := congrArg (fun p : List α × List α => p.1.length) same
          simp at shorter
      | some parts =>
          rw [found] at same
          obtain rfl : parts = (path, query) := same
          exact (splitAt_eq_some_iff.mp found).2
    · intro free
      rw [splitAt_append free]
      rfl

/-- What has been read as a target, unless it ends in a question mark. -/
theorem target_readTarget (target : List α) :
    s.target (s.readTarget target).1 (s.readTarget target).2 = target ∨
      target = s.target (s.readTarget target).1 (s.readTarget target).2 ++ [s.questionMark] := by
  rw [readTarget]
  cases found : splitAt s.questionMark target with
  | none => exact .inl (List.append_nil target)
  | some parts =>
      obtain ⟨isTarget, -⟩ := splitAt_eq_some_iff.mp (show _ = some (parts.1, parts.2) from found)
      rw [Option.getD_some, Symbols.target]
      by_cases none : parts.2 = []
      · rw [if_pos none, List.append_nil]
        rw [none] at isTarget
        exact .inr isTarget
      · rw [if_neg none]
        exact .inl isTarget.symm

variable (distinct : s.Distinct)

include distinct

theorem readLine_line_iff {text rest : List α} {front behind : List α} :
    s.readLine (s.line text rest) = some (front, behind) ↔
      s.line text rest = s.line front behind ∧ s.OneLine front :=
  splitPair_eq_some_iff distinct.line

/-- A line that is read as it has been written is one line. -/
theorem readLine_line {text rest : List α} :
    s.readLine (s.line text rest) = some (text, rest) ↔ s.OneLine text := by
  rw [readLine_line_iff distinct, and_iff_right rfl]

theorem readField_text {f : Field α} :
    splitPair s.colon s.blank (s.fieldText f) = some (f.name, f.value) ↔
      ¬ [s.colon, s.blank] <:+: f.name := by
  rw [splitPair_eq_some_iff distinct.field]
  exact and_iff_right rfl

/-- **Fields and a body are read back exactly if every field is clean.** -/
theorem readFields_text_iff (body : List α) (fields : List (Field α)) :
    ∀ {fuel : Nat}, fields.length < fuel →
      (s.readFields fuel (s.fieldsText body fields) = some (fields, body) ↔
        ∀ f ∈ fields, s.CleanField f) := by
  induction fields with
  | nil =>
      intro fuel enough
      obtain ⟨fuel, rfl⟩ : ∃ n, fuel = n + 1 := ⟨fuel - 1, by omega⟩
      refine iff_of_true ?_ fun _ member => absurd member List.not_mem_nil
      have empty : s.readLine (s.fieldsText body []) = some ([], body) :=
        (readLine_line distinct).mpr (by simp [OneLine])
      rw [readFields, empty]
      rfl
  | cons f fields ih =>
      intro fuel enough
      obtain ⟨fuel, rfl⟩ : ∃ n, fuel = n + 1 := ⟨fuel - 1, by omega⟩
      have more := @ih fuel (Nat.lt_of_succ_lt_succ enough)
      rw [List.forall_mem_cons, readFields]
      constructor
      · intro done
        obtain ⟨first, isFirst, done⟩ := Option.bind_eq_some_iff.mp done
        split at done
        · cases done
        obtain ⟨field, isField, done⟩ := Option.bind_eq_some_iff.mp done
        obtain ⟨rest, isRest, done⟩ := Option.bind_eq_some_iff.mp done
        cases done
        obtain ⟨isText, oneLine⟩ := (readLine_line_iff distinct).mp isFirst
        obtain ⟨isLine, name⟩ := (splitPair_eq_some_iff distinct.field).mp isField
        -- the first line that is read is the first field
        rw [isLine] at isText oneLine
        have behind := List.append_cancel_left isText
        have isBehind : s.fieldsText rest.2 rest.1 = first.2 :=
          (List.cons.inj (List.cons.inj behind).2).2
        rw [← isBehind] at isRest
        exact ⟨⟨oneLine, name⟩, more.mp isRest⟩
      · rintro ⟨clean, others⟩
        have isFirst : s.readLine (s.fieldsText body (f :: fields)) =
            some (s.fieldText f, s.fieldsText body fields) :=
          (readLine_line distinct).mpr clean.oneLine
        rw [isFirst]
        change (if s.fieldText f = [] then _ else _) = _
        rw [if_neg (fieldText_ne_nil f), (readField_text distinct).mpr clean.name]
        change (s.readFields fuel (s.fieldsText body fields)).bind _ = _
        rw [more.mpr others]
        rfl

omit [DecidableEq α] in
theorem blank_not_mem_target {path query : List α} :
    s.blank ∉ s.target path query ↔ s.blank ∉ path ∧ s.blank ∉ query := by
  rw [target, List.mem_append, not_or]
  refine and_congr_right fun _ => ?_
  split
  · rename_i none
    rw [none]
  · rw [List.mem_cons, not_or]
    exact and_iff_right distinct.question.symm

/-- **A request is read back exactly if it is clean.** -/
theorem read_text_iff (r : Request α) : s.read (s.text r) = some r ↔ s.Clean r := by
  have length : r.fields.length < (s.fieldsText r.body r.fields).length :=
    fields_length_lt r.body r.fields
  constructor
  · intro done
    obtain ⟨first, isFirst, done⟩ := Option.bind_eq_some_iff.mp done
    obtain ⟨verb, isVerb, done⟩ := Option.bind_eq_some_iff.mp done
    obtain ⟨target, isTarget, done⟩ := Option.bind_eq_some_iff.mp done
    obtain ⟨rest, isRest, done⟩ := Option.bind_eq_some_iff.mp done
    cases done
    obtain ⟨isText, oneLine⟩ := (readLine_line_iff distinct).mp isFirst
    obtain ⟨isStart, verbFree⟩ := splitAt_eq_some_iff.mp isVerb
    obtain ⟨isBehind, targetFree⟩ := splitAt_eq_some_iff.mp isTarget
    rw [isStart, isBehind] at isText oneLine
    change s.line (verb.1 ++ s.blank :: (s.target (s.readTarget target.1).1
      (s.readTarget target.1).2 ++ s.blank :: target.2)) _ = _ at isText
    -- a question mark at the end of the target would stand where a blank has been written
    have same := (target_readTarget (s := s) target.1).resolve_right fun ends => by
      generalize s.target _ _ = written at ends isText
      rw [ends] at isText
      simp only [line, List.append_assoc, List.cons_append] at isText
      have behind := List.append_cancel_left
        (List.cons.inj (List.append_cancel_left isText)).2
      exact distinct.question (List.cons.inj behind).1.symm
    rw [same] at isText
    have behind := (List.cons.inj (List.cons.inj (List.append_cancel_left isText)).2).2
    rw [← behind] at isRest
    have start : s.OneLine (verb.1 ++ s.blank :: (s.target (s.readTarget target.1).1
        (s.readTarget target.1).2 ++ s.blank :: target.2)) := by
      rw [same]
      exact oneLine
    rw [← same] at targetFree
    obtain ⟨pathFree, queryFree⟩ := (blank_not_mem_target distinct).mp targetFree
    exact ⟨start, verbFree, ⟨pathFree, readTarget_target_iff.mp (congrArg s.readTarget same)⟩,
      queryFree, (readFields_text_iff distinct rest.2 rest.1 length).mp isRest⟩
  · intro clean
    have isFirst : s.readLine (s.text r) = _ := (readLine_line distinct).mpr clean.oneLine
    have free := (blank_not_mem_target distinct).mpr ⟨clean.path.1, clean.query⟩
    rw [read, isFirst]
    change Option.bind (splitAt s.blank (r.verb ++ s.blank :: _)) _ = _
    rw [splitAt_append clean.verb]
    change Option.bind (splitAt s.blank (s.target r.path r.query ++ s.blank :: r.version)) _ = _
    rw [splitAt_append free]
    change Option.bind (s.readFields _ (s.fieldsText r.body r.fields)) _ = _
    rw [(readFields_text_iff distinct r.body r.fields length).mpr clean.fields]
    change some _ = _
    rw [readTarget_target_iff.mpr clean.path.2]

end Symbols

end ParseEmbedded.HttpText
