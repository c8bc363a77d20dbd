import ParseEmbedded.Push.Stream
import ParseEmbedded.SimpleJson.Incremental

/-!
# Scanning again after every chunk

The bytes of a message arrive in chunks, and the receiver calls `getPushJson` on all it has after
each of them, in a buffer whose rest holds whatever was there before. The scans do not get in each
other's way: the first that finds a message finds the one that a single scan of all the bytes
would have found (`rescan_eq`), and a receiver that drops the messages it has found ends up with
the messages of the whole stream (`Receiver.run_found`).
-/

set_option autoImplicit false

namespace ParseEmbedded.Push

open SimpleJson

/-! ## One message -/

/-- One scan of a receiver: its buffer, with all that lies behind the received bytes. -/
structure Rescan where
  buffer : List Byte
  received : Nat
  deriving DecidableEq, Repr

/-- The buffer of the scan holds the first bytes of a stream. -/
def Rescan.Of (scan : Rescan) (bytes : List Byte) : Prop :=
  scan.received ≤ bytes.length ∧ scan.buffer.take scan.received = bytes.take scan.received

instance (scan : Rescan) (bytes : List Byte) : Decidable (scan.Of bytes) :=
  inferInstanceAs (Decidable (_ ∧ _))

/-- `while (length == -1)`: one scan after each chunk, up to the first that finds a message. -/
def rescan : List Rescan → Option (Int × Int)
  | [] => none
  | scan :: later =>
      if (boundaries scan.buffer scan.received).2 = -1 then rescan later
      else some (boundaries scan.buffer scan.received)

/-- A length is positive or minus one. -/
theorem boundaries_length (bytes : List Byte) :
    (boundaries bytes bytes.length).2 = -1 ∨ 0 < (boundaries bytes bytes.length).2 := by
  rcases getPushJson_completeMessage bytes with ⟨-, length⟩ | ⟨m, -, isIn, -, length⟩
  · exact .inl length
  · have := isIn.two_le
    change _ ∨ 0 < (getPushJson bytes bytes.length).length
    rw [length]
    exact .inr (by omega)

theorem Rescan.Of.boundaries_eq {scan : Rescan} {bytes : List Byte} (of : scan.Of bytes) :
    boundaries scan.buffer scan.received = boundaries bytes scan.received :=
  boundaries_agree of.2

/-- What a scan on the way finds is what the scan of all bytes finds. -/
theorem Rescan.Of.complete {scan : Rescan} {bytes : List Byte} (of : scan.Of bytes)
    (found : (boundaries scan.buffer scan.received).2 ≠ -1) :
    boundaries scan.buffer scan.received = boundaries bytes bytes.length := by
  have short : (bytes.take scan.received).length = scan.received := List.length_take_of_le of.1
  have alone : boundaries scan.buffer scan.received =
      boundaries (bytes.take scan.received) scan.received :=
    boundaries_agree (by rw [of.2, List.take_take, Nat.min_self])
  have positive : 0 < (boundaries bytes scan.received).2 := by
    rw [← of.boundaries_eq]
    rw [alone] at found ⊢
    have length := boundaries_length (bytes.take scan.received)
    rw [short] at length
    exact length.resolve_left found
  rw [of.boundaries_eq]
  exact ((getPushJson_grow bytes of.1).complete positive).symm

theorem rescan_some {scans : List Rescan} {bytes : List Byte} (all : ∀ scan ∈ scans, scan.Of bytes)
    {found : Int × Int} (finds : rescan scans = some found) :
    found = boundaries bytes bytes.length ∧ found.2 ≠ -1 := by
  induction scans with
  | nil => cases finds
  | cons scan later ih =>
      rw [rescan] at finds
      split at finds
      · exact ih (fun scan member => all scan (List.mem_cons_of_mem _ member)) finds
      · rename_i found
        obtain rfl := Option.some.inj finds
        exact ⟨(all scan (List.mem_cons_self ..)).complete found, found⟩

theorem rescan_none {scans : List Rescan} (none : rescan scans = none) :
    ∀ scan ∈ scans, (boundaries scan.buffer scan.received).2 = -1 := by
  induction scans with
  | nil => simp
  | cons scan later ih =>
      rw [rescan] at none
      split at none
      · rename_i nothing
        exact List.forall_mem_cons.mpr ⟨nothing, ih none⟩
      · cases none

/-- **Scanning again after every chunk finds what one scan of all bytes finds.** -/
theorem rescan_eq {scans : List Rescan} {bytes : List Byte} (all : ∀ scan ∈ scans, scan.Of bytes)
    (last : ∃ scan ∈ scans, scan.received = bytes.length) :
    rescan scans =
      if (boundaries bytes bytes.length).2 = -1 then none
      else some (boundaries bytes bytes.length) := by
  cases finds : rescan scans with
  | some found =>
      obtain ⟨rfl, complete⟩ := rescan_some all finds
      rw [if_neg complete]
  | none =>
      obtain ⟨scan, member, received⟩ := last
      have nothing := rescan_none finds scan member
      rw [(all scan member).boundaries_eq, received] at nothing
      rw [if_pos nothing]

/-! ## A stream of messages -/

theorem completeMessage_eq (bytes : List Byte) :
    completeMessage bytes =
      if (boundaries bytes bytes.length).2 = -1 then none
      else some ⟨(boundaries bytes bytes.length).1.toNat,
        (boundaries bytes bytes.length).2.toNat⟩ := rfl

/-- A message that has been found is still there when more bytes have arrived. -/
theorem completeMessage_append {bytes : List Byte} {m : Message}
    (complete : completeMessage bytes = some m) (more : List Byte) :
    completeMessage (bytes ++ more) = some m := by
  have of : (Rescan.mk bytes bytes.length).Of (bytes ++ more) := ⟨by simp, by simp⟩
  have found : (boundaries bytes bytes.length).2 ≠ -1 := by
    intro none
    rw [completeMessage_eq, if_pos none] at complete
    cases complete
  have same : boundaries bytes bytes.length = _ := of.complete found
  rw [completeMessage_eq, same] at complete
  rw [completeMessage_eq]
  exact complete

/-- The messages of a block of bytes, by where they stand in the stream it is taken from: at most
`fuel` of them. -/
def spansIn : Nat → Nat → List Byte → List Message
  | 0, _, _ => []
  | fuel + 1, offset, bytes =>
      match completeMessage bytes with
      | none => []
      | some m =>
          ⟨offset + m.start, m.length⟩ ::
            spansIn fuel (offset + (m.start + m.length)) (bytes.drop (m.start + m.length))

/-- The messages of a block of bytes that starts at an offset. -/
def spans (offset : Nat) (bytes : List Byte) : List Message := spansIn bytes.length offset bytes

theorem spansIn_none {bytes : List Byte} (none : completeMessage bytes = none)
    (fuel offset : Nat) : spansIn fuel offset bytes = [] := by
  cases fuel with
  | zero => rfl
  | succ fuel => rw [spansIn, none]

/-- A message is not empty, so what follows it is shorter. -/
theorem drop_message_lt {bytes : List Byte} {m : Message}
    (complete : completeMessage bytes = some m) :
    (bytes.drop (m.start + m.length)).length < bytes.length := by
  have isIn := isIn_of_completeMessage complete
  have := isIn.two_le
  have := isIn.inside
  rw [List.length_drop]
  omega

/-- There are no more messages than bytes. -/
theorem spansIn_eq (fuel : Nat) : ∀ {fuel' offset : Nat} {bytes : List Byte},
    bytes.length ≤ fuel → bytes.length ≤ fuel' →
      spansIn fuel offset bytes = spansIn fuel' offset bytes := by
  induction fuel with
  | zero =>
      intro fuel' offset bytes short _
      obtain rfl := List.length_eq_zero_iff.mp (Nat.le_zero.mp short)
      rw [spansIn_none rfl, spansIn_none rfl]
  | succ fuel ih =>
      intro fuel' offset bytes short short'
      cases complete : completeMessage bytes with
      | none => rw [spansIn_none complete, spansIn_none complete]
      | some m =>
          have dropped := drop_message_lt complete
          cases fuel' with
          | zero => omega
          | succ fuel' =>
              rw [spansIn, spansIn, complete]
              exact congrArg (List.cons _) (ih (by omega) (by omega))

theorem spans_none {bytes : List Byte} (none : completeMessage bytes = none) (offset : Nat) :
    spans offset bytes = [] := spansIn_none none _ offset

theorem spans_some {bytes : List Byte} {m : Message} (complete : completeMessage bytes = some m)
    (offset : Nat) :
    spans offset bytes =
      ⟨offset + m.start, m.length⟩ ::
        spans (offset + (m.start + m.length)) (bytes.drop (m.start + m.length)) := by
  have dropped := drop_message_lt complete
  rw [spans, spansIn_eq bytes.length (Nat.le_refl _) (Nat.le_succ _), spansIn, complete]
  exact congrArg (List.cons _) (spansIn_eq _ (by omega) (Nat.le_refl _))

/-- A receiver of a stream: how many bytes it has dropped, those it still holds, and the messages
it has found. -/
structure Receiver where
  dropped : Nat
  unread : List Byte
  found : List Message
  deriving DecidableEq, Repr

namespace Receiver

section Run

/-! What lies behind the received bytes may be anything, at every scan. -/

variable (stale : Receiver → List Byte)

/-- The scans after a chunk, up to one that finds no message: at most `fuel` find one. -/
def takeMessages : Nat → Receiver → Receiver
  | 0, r => r
  | fuel + 1, r =>
      let (start, length) := boundaries (r.unread ++ stale r) r.unread.length
      if length = -1 then r
      else
        takeMessages fuel
          { dropped := r.dropped + (start.toNat + length.toNat)
            unread := r.unread.drop (start.toNat + length.toNat)
            found := r.found ++ [⟨r.dropped + start.toNat, length.toNat⟩] }

/-- A chunk arrives. -/
def receive (r : Receiver) (chunk : List Byte) : Receiver :=
  takeMessages stale (r.unread ++ chunk).length { r with unread := r.unread ++ chunk }

/-- The chunks of a stream arrive. -/
def run (chunks : List (List Byte)) : Receiver := chunks.foldl (receive stale) ⟨0, [], []⟩

/-- The receiver has what a scan of all bytes would find, and no message is left unread. -/
structure UpTo (r : Receiver) (bytes : List Byte) : Prop where
  ahead : ∀ more, spans 0 (bytes ++ more) = r.found ++ spans r.dropped (r.unread ++ more)
  none : completeMessage r.unread = none

/-- **The scans after a chunk take the messages that have arrived.** -/
theorem takeMessages_spans (fuel : Nat) : ∀ {r : Receiver}, r.unread.length ≤ fuel →
    completeMessage (takeMessages stale fuel r).unread = none ∧
      ∀ more, r.found ++ spans r.dropped (r.unread ++ more) =
        (takeMessages stale fuel r).found ++
          spans (takeMessages stale fuel r).dropped
            ((takeMessages stale fuel r).unread ++ more) := by
  induction fuel with
  | zero =>
      intro r short
      have empty : r.unread = [] := List.length_eq_zero_iff.mp (Nat.le_zero.mp short)
      refine ⟨?_, fun more => rfl⟩
      rw [takeMessages, empty]
      rfl
  | succ fuel ih =>
      intro r short
      have agree : boundaries (r.unread ++ stale r) r.unread.length =
          boundaries r.unread r.unread.length := boundaries_agree (by simp)
      have message := completeMessage_eq r.unread
      rw [takeMessages, agree]
      generalize boundaries r.unread r.unread.length = found at message ⊢
      obtain ⟨start, length⟩ := found
      dsimp only at message ⊢
      by_cases nothing : length = -1
      · rw [if_pos nothing] at message ⊢
        exact ⟨message, fun more => rfl⟩
      · rw [if_neg nothing] at message ⊢
        have isIn := isIn_of_completeMessage message
        have dropped : (r.unread.drop (start.toNat + length.toNat)).length < r.unread.length :=
          drop_message_lt message
        have shorter : (Receiver.mk (r.dropped + (start.toNat + length.toNat))
            (r.unread.drop (start.toNat + length.toNat))
            (r.found ++ [⟨r.dropped + start.toNat, length.toNat⟩])).unread.length ≤ fuel :=
          Nat.le_of_lt_succ (Nat.lt_of_lt_of_le dropped short)
        obtain ⟨none, ahead⟩ := ih shorter
        refine ⟨none, fun more => ?_⟩
        rw [← ahead more, spans_some (completeMessage_append message more),
          List.drop_append_of_le_length isIn.inside, List.append_assoc]
        rfl

/-- A chunk keeps the receiver up to date. -/
theorem UpTo.receive {r : Receiver} {bytes : List Byte} (upTo : r.UpTo bytes)
    (chunk : List Byte) : (r.receive stale chunk).UpTo (bytes ++ chunk) := by
  obtain ⟨none, ahead⟩ := takeMessages_spans stale (r.unread ++ chunk).length
    (Nat.le_refl (Receiver.unread { r with unread := r.unread ++ chunk }).length)
  refine ⟨fun more => ?_, none⟩
  rw [List.append_assoc, upTo.ahead, ← List.append_assoc]
  exact ahead more

theorem run_upTo (chunks : List (List Byte)) : (run stale chunks).UpTo chunks.flatten := by
  suffices follows : ∀ {r : Receiver} {bytes : List Byte}, r.UpTo bytes →
      (chunks.foldl (Receiver.receive stale) r).UpTo (bytes ++ chunks.flatten) by
    have begins : (Receiver.mk 0 [] []).UpTo [] := ⟨fun more => rfl, rfl⟩
    exact follows begins
  induction chunks with
  | nil =>
      intro r bytes upTo
      rw [List.flatten_nil, List.append_nil]
      exact upTo
  | cons chunk chunks ih =>
      intro r bytes upTo
      rw [List.flatten_cons, ← List.append_assoc]
      exact ih (upTo.receive stale chunk)

/-- **A receiver finds the messages of the stream**, wherever the chunks are cut and whatever lies
behind them in the buffer. -/
theorem run_found (chunks : List (List Byte)) :
    (run stale chunks).found = spans 0 chunks.flatten := by
  obtain ⟨ahead, none⟩ := run_upTo stale chunks
  have all := ahead []
  rw [List.append_nil, List.append_nil, spans_none none, List.append_nil] at all
  exact all.symm

end Run

end Receiver

/-! ## The scanner is incremental -/

/-- **`getPushJson` is incremental.** Its two results depend on the first bytes only; a message
stays when more bytes arrive, an open one ends behind them, and where nothing began something may
begin behind them. So scanning again after every chunk finds what one scan of all bytes finds,
message by message. -/
theorem getPushJson_incremental :
    (∀ (b b' : List Byte) (n m : Nat), n ≤ m → b.take n = b'.take n →
      ((getPushJson b n).start = (getPushJson b' n).start ∧
        (getPushJson b n).length = (getPushJson b' n).length) ∧
      (0 < (getPushJson b n).length →
        (getPushJson b m).start = (getPushJson b n).start ∧
          (getPushJson b m).length = (getPushJson b n).length) ∧
      (0 ≤ (getPushJson b n).start → (getPushJson b n).length = -1 →
        (getPushJson b m).start = (getPushJson b n).start ∧
          ((getPushJson b m).length = -1 ∨
            (n : Int) < (getPushJson b m).start + (getPushJson b m).length)) ∧
      ((getPushJson b n).start = -1 →
        (getPushJson b m).start = -1 ∨ (n : Int) ≤ (getPushJson b m).start)) ∧
    (∀ (scans : List Rescan) (bytes : List Byte), (∀ scan ∈ scans, scan.Of bytes) →
      (∃ scan ∈ scans, scan.received = bytes.length) →
      rescan scans =
        if (boundaries bytes bytes.length).2 = -1 then none
        else some (boundaries bytes bytes.length)) ∧
    ∀ (stale : Receiver → List Byte) (chunks : List (List Byte)),
      (Receiver.run stale chunks).found = spans 0 chunks.flatten := by
  refine ⟨fun b b' n m le agree => ?_, fun scans bytes => rescan_eq, Receiver.run_found⟩
  have same := Prod.ext_iff.mp (boundaries_agree agree)
  obtain ⟨complete, cut, nothing⟩ := getPushJson_grow b le
  exact ⟨same, fun found => Prod.ext_iff.mp (complete found), cut, nothing⟩

/-- An object that is cut off in front of its last brace, and the whole of it in another buffer. -/
theorem getPushJson_incremental_example :
    ((getPushJson (ascii "\x7b\x7dx") 1).start = (getPushJson (ascii "\x7b??") 1).start ∧
      (getPushJson (ascii "\x7b\x7dx") 1).length = (getPushJson (ascii "\x7b??") 1).length) ∧
    rescan [⟨ascii "\x7b??", 1⟩, ⟨ascii "\x7b\x7d\x7d", 2⟩] = some (0, 2) ∧
    (getPushJson (ascii "\x7b\x7d") 2).start = (getPushJson (ascii "\x7b\x7d") 1).start := by
  have first : (ascii "\x7b\x7dx").take 1 = (ascii "\x7b??").take 1 := by decide +kernel
  have all : ∀ scan ∈ [Rescan.mk (ascii "\x7b??") 1, ⟨ascii "\x7b\x7d\x7d", 2⟩],
      scan.Of (ascii "\x7b\x7d") := by
    decide +kernel
  refine ⟨(getPushJson_incremental.1 _ _ 1 1 (Nat.le_refl 1) first).1, ?_, ?_⟩
  · exact (getPushJson_incremental.2.1 _ (ascii "\x7b\x7d") all (by decide +kernel)).trans
      (by decide +kernel)
  · exact ((getPushJson_incremental.1 _ _ 1 2 (by decide) rfl).2.2.1 (by decide +kernel)
      (by decide +kernel)).1

end ParseEmbedded.Push
