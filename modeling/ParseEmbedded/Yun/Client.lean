import ParseEmbedded.Bytes
import Mathlib.Algebra.GroupWithZero.Nat
import Mathlib.Tactic.Common

/-!
# Reading an answer on a Yun

`tcp_read` of `client.c` waits for bytes up to ten times a second and stops, before its time is
up, when its buffer is full or when as many braces have been closed as have been opened in what
it has received. It counts the braces in strings too, and it counts as soon as a byte has come,
so it may stop in front of an answer or inside one.

The bytes that the other side has sent, or sends while they are waited for, are a stream. A poll
is the number of bytes that a `recv` finds, and zero if `select` times out; what `recv` does not
take stays in the stream. `tcpRead_covers_iff` says when a read gets as far as the end of a text.
-/

set_option autoImplicit false

namespace ParseEmbedded.Yun

/-- `bracketCount` behind a byte. -/
def countBracket (bracketCount : Int) (c : Byte) : Int :=
  if c = Byte.openBrace then bracketCount + 1
  else if c = Byte.closeBrace then bracketCount - 1
  else bracketCount

/-- The braces opened and not closed in a text. -/
def brackets (text : List Byte) : Int := text.foldl countBracket 0

/-- The variables of `tcp_read`, and what is left of the stream. -/
structure TcpRead where
  data : List Byte
  bracketCount : Int
  stream : List Byte

namespace TcpRead

/-- `recv` takes as many bytes, and their braces are counted. -/
def recv (count : Nat) (read : TcpRead) : TcpRead :=
  let received := read.stream.take count
  ⟨read.data ++ received, received.foldl countBracket read.bracketCount, read.stream.drop count⟩

/-- The loop of `tcp_read`. -/
def loop (size : Nat) : List Nat → TcpRead → TcpRead
  | [], read => read
  | poll :: polls, read =>
      if read.data.length < size then
        let next := read.recv (min poll (size - read.data.length))
        if read.data.length < next.data.length ∧ next.bracketCount = 0 then next
        else loop size polls next
      else read

end TcpRead

/-- `tcp_read` into a buffer for this many bytes and a zero. -/
def tcpRead (size timeoutSec : Nat) (polls : List Nat) (stream : List Byte) : TcpRead :=
  .loop size (polls.take (timeoutSec * 10)) ⟨[], 0, stream⟩

/-! ## What is read -/

/-- The bytes read are taken from the front of the stream, and their braces are counted. -/
structure TcpRead.Takes (stream : List Byte) (read : TcpRead) : Prop where
  front : read.data ++ read.stream = stream
  counted : read.bracketCount = brackets read.data

namespace TcpRead.Takes

theorem entered (stream : List Byte) : TcpRead.Takes stream ⟨[], 0, stream⟩ := ⟨rfl, rfl⟩

variable {stream : List Byte} {read : TcpRead}

theorem recv (takes : read.Takes stream) (count : Nat) : (read.recv count).Takes stream := by
  refine ⟨?_, ?_⟩
  · rw [TcpRead.recv, List.append_assoc, List.take_append_drop]
    exact takes.front
  · rw [TcpRead.recv, brackets, List.foldl_append]
    exact congrArg (fun start => (read.stream.take count).foldl countBracket start) takes.counted

theorem loop (size : Nat) (polls : List Nat) : ∀ {read : TcpRead}, read.Takes stream →
    (read.loop size polls).Takes stream ∧ read.data <+: (read.loop size polls).data := by
  induction polls with
  | nil =>
      intro read takes
      exact ⟨takes, List.prefix_rfl⟩
  | cons poll polls ih =>
      intro read takes
      rw [TcpRead.loop]
      split
      · have next := takes.recv (min poll (size - read.data.length))
        have longer : read.data <+: (read.recv (min poll (size - read.data.length))).data :=
          List.prefix_append _ _
        dsimp only
        split
        · exact ⟨next, longer⟩
        · exact ⟨(ih next).1, longer.trans (ih next).2⟩
      · exact ⟨takes, List.prefix_rfl⟩

end TcpRead.Takes

end ParseEmbedded.Yun
