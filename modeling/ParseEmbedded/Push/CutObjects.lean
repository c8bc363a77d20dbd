import ParseEmbedded.Push.Stream

/-!
# An object that is cut off

A receiver that has the beginning of an object waits for the rest of it. Where other texts follow
instead, without quotes and with every brace closed again, it goes on to wait
(`completeMessage_cut_off`): in a string they are part of the string, and outside of one they are
nested objects.
-/

set_option autoImplicit false

namespace ParseEmbedded.Push

open Json SimpleJson

/-- A text without quotes and backslashes that closes the braces that it opens, and no others. -/
structure Nested (bytes : List Byte) : Prop where
  noQuote : Byte.quote ∉ bytes
  noBackslash : Byte.backslash ∉ bytes
  returns : ∀ d, braces.Returns ⟨.text, d⟩ bytes

theorem Nested.nil : Nested [] := ⟨List.not_mem_nil, List.not_mem_nil, fun _ => .nil _⟩

theorem Nested.append {first second : List Byte} (one : Nested first) (two : Nested second) :
    Nested (first ++ second) where
  noQuote member := (List.mem_append.mp member).elim one.noQuote two.noQuote
  noBackslash member := (List.mem_append.mp member).elim one.noBackslash two.noBackslash
  returns d := (one.returns d).append (two.returns d)

/-- An empty object, with inert bytes behind it. -/
theorem Nested.emptyObject {behind : List Byte} (inert : ∀ b ∈ behind, IsInert b) :
    Nested (Byte.openBrace :: Byte.closeBrace :: behind) where
  noQuote member := by
    rcases List.mem_cons.mp member with same | member
    · exact absurd same (by decide)
    rcases List.mem_cons.mp member with same | member
    · exact absurd same (by decide)
    exact (inert _ member).1 rfl
  noBackslash member := by
    rcases List.mem_cons.mp member with same | member
    · exact absurd same (by decide)
    rcases List.mem_cons.mp member with same | member
    · exact absurd same (by decide)
    exact (inert _ member).2.1 rfl
  returns _ := (Weight.Returns.braces (.nil _)).append (.of_inert inert)

theorem Nested.replicate {bytes : List Byte} (one : Nested bytes) (count : Nat) :
    Nested (List.replicate count bytes).flatten := by
  induction count with
  | zero => exact .nil
  | succ count ih => exact one.append ih

/-- In a string nothing of the text counts. -/
theorem after_string {bytes : List Byte} (d : Int) (noQuote : Byte.quote ∉ bytes)
    (noBackslash : Byte.backslash ∉ bytes) :
    braces.after ⟨.string, d⟩ bytes = ⟨.string, d⟩ := by
  induction bytes with
  | nil => rfl
  | cons b bytes ih =>
      obtain ⟨quote, noQuote⟩ := List.ne_and_not_mem_of_not_mem_cons noQuote
      obtain ⟨backslash, noBackslash⟩ := List.ne_and_not_mem_of_not_mem_cons noBackslash
      have stays : braces.advance ⟨.string, d⟩ b = ⟨.string, d⟩ := by
        simp [Weight.advance, quote.symm, backslash.symm]
      rw [Weight.after_cons, stays]
      exact ih noQuote noBackslash

/-- **Wherever it is read**, a nested text closes no brace that has been opened before. -/
theorem Nested.above {bytes read : List Byte} (nested : Nested bytes) (isPrefix : read <+: bytes)
    (p : Position) : p.depth ≤ (braces.after p read).depth := by
  have noQuote : Byte.quote ∉ read := fun member => nested.noQuote (isPrefix.subset member)
  have noBackslash : Byte.backslash ∉ read := fun member =>
    nested.noBackslash (isPrefix.subset member)
  obtain ⟨mode, depth⟩ := p
  cases mode with
  | text => exact (nested.returns depth).above read isPrefix
  | string =>
      have stays := after_string depth noQuote noBackslash
      exact Int.le_of_eq (congrArg Position.depth stays).symm
  | escape =>
      cases read with
      | nil => exact Int.le_refl _
      | cons b read =>
          have stays := after_string depth (fun member => noQuote (List.mem_cons_of_mem b member))
            fun member => noBackslash (List.mem_cons_of_mem b member)
          rw [Weight.after_cons, Weight.advance_escape]
          exact Int.le_of_eq (congrArg Position.depth stays).symm

/-- A brace that is open stays open behind a nested text. -/
theorem keepsOpen_append {inString : Bool} {level : Int} {bytes more : List Byte}
    (keeps : KeepsOpen inString level bytes) (nested : Nested more) :
    KeepsOpen inString level (bytes ++ more) := by
  intro read isPrefix
  rcases prefix_append_split isPrefix with short | ⟨rest, rfl, isRest⟩
  · exact keeps read short
  · rw [Weight.after_append]
    exact Int.le_trans (keeps bytes List.prefix_rfl) (nested.above isRest _)

/-- **An object that is cut off does not end in a nested text.** -/
theorem completeMessage_cut_off {o : Object} {bytes more : List Byte} (isPrefix : bytes <+: o.text)
    (nonempty : bytes ≠ []) (proper : bytes ≠ o.text) (nested : Nested more) :
    completeMessage (bytes ++ more) = none := by
  obtain ⟨rest, rfl⟩ := Cut.cons_of_ne_nil ⟨bytes, o, isPrefix, proper⟩ nonempty
  have keeps : KeepsOpen false 1 rest := fun read isRead => by
    have read' : Byte.openBrace :: read <+: Byte.openBrace :: rest :=
      List.cons_prefix_cons.mpr ⟨rfl, isRead⟩
    refine braces.object_prefix 0 o (read'.trans isPrefix) (List.cons_ne_nil _ _) fun whole => ?_
    exact proper (isPrefix.eq_of_length_le (whole ▸ read'.length_le))
  have noEnd : (findJsonEndParams (Byte.openBrace :: (rest ++ more))
      ((rest ++ more).length + 1) false 0 0).stop = none := by
    have stays := findJsonEnd_open (rest ++ more) false 1 1 (keepsOpen_append keeps nested)
    rw [findJsonEnd_openBrace (by simp)]
    rwa [Nat.add_comm] at stays
  have length : (getPushJson (Byte.openBrace :: (rest ++ more))
      (Byte.openBrace :: (rest ++ more)).length).length = -1 := by
    rw [getPushJson_eq, findJsonBeginning_openBrace (by simp), List.length_cons]
    simp only [BeginningScan.stop, Bool.false_eq_true, if_false, Option.map_some, List.drop_zero,
      Nat.sub_zero, noEnd]
  rw [List.cons_append, completeMessage]
  exact if_pos length

end ParseEmbedded.Push
