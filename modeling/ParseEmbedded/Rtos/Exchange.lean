import ParseEmbedded.Rtos.Request

/-!
# Requests and their answers on an RTOS

`sendRequest` and `parseSendRequestInternal` of `request.c`: the request is sent, and `dataBuffer`
takes what one `socketRead` reads of the answer. `Reply` is what the request callback is called
with.

`arrivals` are the bytes that the driver has before a wait ends without any, and the status of
that wait; `socketRead_arrivals` says that they are what is read, up to the size of the buffer.
`response_complete_iff` says when a reply without an error passes on a whole response.
-/

set_option autoImplicit false

namespace ParseEmbedded.Rtos

open Push Search

/-- A conversion to `short`. -/
def toShort (i : Int) : Int := i.bmod 65536

/-- What a request meets: what `socketSslConnect` returns, how `send` answers, and how `select` and
`recv` do while the answer is read. -/
structure Network where
  connect : Int
  send : Int
  rounds : List SocketRound
  deriving DecidableEq

/-- The arguments of the request callback. -/
structure Reply where
  error : Int
  httpStatus : Int
  httpResponseBody : Option CString
  deriving DecidableEq

section Send

variable (libc : Libc) (client : Client) (host httpVerb : CString)
  (httpRequestBody : Option CString) (addInstallationHeader : Bool) (network : Network)

/-- The status of `sendRequest` in front of the read: it connects, builds the request and writes
it. -/
def writeRequest : Int :=
  if network.connect < 0 then network.connect
  else
    let built := buildRequestHeaders libc client host httpVerb httpRequestBody
      addInstallationHeader
    let status := toShort built.2
    if status < 0 then status
    else
      -- a size of zero stands for the size of the string
      let cells := built.1.dataBuffer.cells
      socketWrite network.connect
        (if status = 0 then stringOf cells else cells.take status.toNat) network.send

/-- The status of `sendRequest`, and `dataBuffer` if the answer was read. -/
def sendRequest : Int × Option (Block Byte 1024) :=
  let status := writeRequest libc client host httpVerb httpRequestBody addInstallationHeader
    network
  if status < 0 then (status, none)
  else
    let (reading, status) := socketRead network.connect (Block.fill 1024 Byte.nul) 0 1024
      network.rounds
    (status, some reading.memory)

def parseSendRequestInternal : Reply :=
  match sendRequest libc client host httpVerb httpRequestBody addInstallationHeader network with
  | (status, some dataBuffer) =>
      if 0 ≤ status then
        ⟨0, getHttpResponseStatus dataBuffer, getHttpResponseBody dataBuffer⟩
      else ⟨status, -1, none⟩
  | (status, none) => ⟨status, -1, none⟩

end Send

/-! ## What arrives -/

/-- The bytes that arrive before a wait ends without any, and its status. Behind the first bytes
`EAGAIN` ends the wait. -/
def arrivals : Bool → List SocketRound → List Byte × Int
  | _, [] => ([], 0)
  | readBlock, round :: rest =>
      if round.wait ≤ 0 then ([], round.wait)
      else if readBlock ∧ round.agains > 0 then ([], EAGAIN)
      else
        match round.answer with
        | .failed status => ([], status)
        | .bytes bytes =>
            let (more, status) := arrivals true rest
            (bytes ++ more, status)

section Read

variable {capacity : Nat} (offset size : Nat)

/-- What the rounds of a read leave: as many of the bytes that arrive as there is room for, and,
if there is room for all, the status of the wait that ends the read. -/
theorem rounds_arrivals (rounds : List SocketRound) : ∀ reading : Reading capacity,
    reading.bytes.length < size - 1 →
      (reading.rounds offset size rounds).bytes =
          reading.bytes ++ (arrivals reading.readBlock rounds).1.take
            (size - 1 - reading.bytes.length) ∧
        if reading.bytes.length + (arrivals reading.readBlock rounds).1.length < size - 1 then
          (reading.rounds offset size rounds).status = (arrivals reading.readBlock rounds).2
        else 0 ≤ (reading.rounds offset size rounds).status := by
  induction rounds with
  | nil =>
      intro reading room
      rw [Reading.rounds, arrivals]
      refine ⟨by simp, ?_⟩
      rw [if_pos (by simpa using room)]
  | cons round rounds ih =>
      intro reading room
      have ended : ∀ status : Int, ({ reading with status } : Reading capacity).bytes =
            reading.bytes ++ ([] : List Byte).take (size - 1 - reading.bytes.length) ∧
          if reading.bytes.length + ([] : List Byte).length < size - 1 then
            ({ reading with status } : Reading capacity).status = status
          else 0 ≤ ({ reading with status } : Reading capacity).status := by
        intro status
        refine ⟨by simp, ?_⟩
        rw [if_pos (by simpa using room)]
      rw [Reading.rounds, arrivals]
      by_cases idle : round.wait ≤ 0
      · rw [if_pos idle, if_pos idle]
        exact ended _
      rw [if_neg idle, if_neg idle]
      by_cases again : reading.readBlock = true ∧ round.agains > 0
      · rw [if_pos again, if_pos again]
        exact ended _
      rw [if_neg again, if_neg again]
      cases round.answer with
      | failed status => exact ended _
      | bytes bytes =>
          dsimp only
          have next : ((reading.recv offset size bytes).terminate offset).bytes =
              reading.bytes ++ bytes.take (size - 1 - reading.bytes.length) := by
            change reading.bytes ++ bytes.take (size - reading.bytes.length - 1) = _
            rw [Nat.sub_right_comm]
          have status : ((reading.recv offset size bytes).terminate offset).status =
              (bytes.take (size - reading.bytes.length - 1)).length := rfl
          have block : ((reading.recv offset size bytes).terminate offset).readBlock = true := rfl
          generalize (reading.recv offset size bytes).terminate offset = reading' at *
          have length := congrArg List.length next
          rw [List.length_append, List.length_take] at length
          split
          · rename_i goesOn
            obtain ⟨rest, last⟩ := ih reading' goesOn
            have whole : bytes.take (size - 1 - reading.bytes.length) = bytes :=
              List.take_of_length_le (by omega)
            rw [whole] at next
            rw [block] at rest last
            refine ⟨?_, ?_⟩
            · rw [rest, next, List.append_assoc, List.length_append, List.take_append,
                List.take_of_length_le (by omega : bytes.length ≤
                  size - 1 - reading.bytes.length), Nat.sub_add_eq]
            · rw [next, List.length_append, Nat.add_assoc, ← List.length_append] at last
              exact last
          · rename_i full
            refine ⟨?_, ?_⟩
            · rw [next, List.take_append_of_le_length (by omega)]
            · rw [if_neg (by rw [List.length_append]; omega), status]
              exact Int.natCast_nonneg _

/-- There are only zeros behind the bytes received. -/
def Reading.Clear (reading : Reading capacity) : Prop :=
  ∀ byte ∈ reading.memory.cells.drop (offset + reading.bytes.length), byte = Byte.nul

variable {offset}

theorem Reading.Clear.terminate {reading : Reading capacity} (clear : reading.Clear offset) :
    (reading.terminate offset).Clear offset := by
  intro byte member
  change byte ∈ (reading.memory.store (offset + reading.bytes.length) [Byte.nul]).cells.drop
    (offset + reading.bytes.length) at member
  rw [Block.store_single, List.drop_set, if_neg (Nat.lt_irrefl _)] at member
  rcases List.mem_or_eq_of_mem_set member with before | isNul
  · exact clear byte before
  · exact isNul

theorem Reading.Clear.recv {reading : Reading capacity} (clear : reading.Clear offset)
    (bytes : List Byte) : (reading.recv offset size bytes).Clear offset := by
  intro byte member
  simp only [Reading.recv, List.length_append, ← Nat.add_assoc] at member
  have before := Block.mem_drop_of_mem_drop_store _ member
  rw [← List.drop_drop] at before
  exact clear byte (List.mem_of_mem_drop before)

theorem Reading.Clear.rounds (rounds : List SocketRound) : ∀ {reading : Reading capacity},
    reading.Clear offset → (reading.rounds offset size rounds).Clear offset := by
  induction rounds with
  | nil =>
      intro reading clear
      exact clear
  | cons round rounds ih =>
      intro reading clear
      rw [Reading.rounds]
      split
      · exact clear
      split
      · exact clear
      split
      · exact clear
      · rename_i bytes _
        have next := (clear.recv size bytes).terminate
        dsimp only
        split
        · exact ih next
        · exact next

end Read

/-- **What the read of an answer leaves.** It fails if a wait fails before the buffer is full;
otherwise the bytes that arrive stand in the buffer, as many as there is room for, and only zeros
behind them. -/
theorem socketRead_arrivals {socketHandle : Int} (valid : 0 ≤ socketHandle)
    (rounds : List SocketRound) :
    let read := socketRead socketHandle (Block.fill 1024 Byte.nul) 0 1024 rounds
    (read.2 < 0 ↔ (arrivals false rounds).1.length < 1023 ∧ (arrivals false rounds).2 < 0) ∧
      ∃ rest, (∀ byte ∈ rest, byte = Byte.nul) ∧ read.1.memory.cells =
        (arrivals false rounds).1.take 1023 ++ Byte.nul :: rest := by
  let entered : Reading 1024 := ⟨Block.fill 1024 Byte.nul, [], 0, false, []⟩
  have start : Reads (Block.fill 1024 Byte.nul) 0 1024 entered :=
    ⟨by decide, rfl, fun _ member => absurd member List.not_mem_nil⟩
  have inside : 0 + 1024 ≤ 1024 := Nat.le_refl 1024
  have reads := (start.terminate inside).rounds inside rounds
  obtain ⟨bytes, status⟩ := rounds_arrivals 0 1024 rounds (entered.terminate 0) (by decide)
  have blank : entered.Clear 0 := fun byte member =>
    List.eq_of_mem_replicate (List.mem_of_mem_drop member)
  have clear := blank.terminate.rounds 1024 rounds
  have none : (entered.terminate 0).bytes = [] := rfl
  have block : (entered.terminate 0).readBlock = false := rfl
  rw [none, block, List.nil_append, List.length_nil] at bytes
  rw [none, block, List.length_nil, Nat.zero_add] at status
  rw [socketRead, if_neg (Int.not_lt.mpr valid), if_neg (by decide)]
  dsimp only
  generalize (entered.terminate 0).rounds 0 1024 rounds = reading at *
  refine ⟨?_, ?_⟩
  · change (if reading.status < 0 then reading.status else (reading.bytes.length : Int)) < 0 ↔ _
    by_cases room : (arrivals false rounds).1.length < 1023
    · rw [if_pos room] at status
      rw [status]
      split
      · rename_i failed
        exact iff_of_true failed ⟨room, failed⟩
      · rename_i passed
        exact iff_of_false (by omega) (fun fails => passed fails.2)
    · rw [if_neg room] at status
      rw [if_neg (Int.not_lt.mpr status)]
      exact iff_of_false (by omega) (fun fails => room fails.1)
  · have place := reads.room
    have stored := reads.stored
    rw [Nat.zero_add, List.take_zero, List.nil_append] at stored
    refine ⟨reading.memory.cells.drop (reading.bytes.length + 1), fun byte member => ?_, ?_⟩
    · rw [← List.drop_drop] at member
      exact clear byte (by simpa using List.mem_of_mem_drop member)
    change (reading.memory.store (0 + reading.bytes.length) [Byte.nul]).cells = _
    rw [Nat.zero_add, Block.store_inside _ (by
      rw [List.length_singleton]
      omega), stored, bytes]
    rfl

/-! ## Responses -/

/-- A text that is one line of a response. -/
structure IsLine (text : List Byte) : Prop where
  noNul : Byte.nul ∉ text
  noReturn : Byte.carriageReturn ∉ text

def digit (d : Fin 10) : Byte := 48 + UInt8.ofNat d

/-- A response that names the length of its body. -/
structure Response where
  hundreds : Fin 10
  tens : Fin 10
  ones : Fin 10
  reason : List Byte
  fields : List (List Byte)
  body : List Byte
  threeDigits : hundreds ≠ 0
  reasonLine : IsLine reason
  fieldLines : ∀ field ∈ fields, field ≠ [] ∧ IsLine field
  counted : ascii "Content-Length: " ++ ascii (toString body.length) ∈ fields

namespace Response

variable (response : Response)

def status : Int := 100 * response.hundreds + 10 * response.tens + response.ones

def statusLine : List Byte :=
  ascii "HTTP/1.1 " ++ [digit response.hundreds, digit response.tens, digit response.ones] ++
    ascii " " ++ response.reason

def bytes : List Byte :=
  response.statusLine ++ ascii "\r\n" ++ (response.fields.flatMap (· ++ ascii "\r\n")) ++
    ascii "\r\n" ++ response.body

end Response

/-- The first empty line is the one behind the lines of the head. -/
theorem search_lines (lines : List (List Byte)) (isLines : ∀ line ∈ lines, line ≠ [] ∧ IsLine line)
    (rest : List Byte) : ∀ {first : List Byte}, IsLine first →
      search HTTP_HEADERS_END
          (first ++ ascii "\r\n" ++ lines.flatMap (· ++ ascii "\r\n") ++ ascii "\r\n" ++ rest) =
        some (HTTP_HEADERS_END ++ rest) := by
  have crlf : ascii "\r\n" = [13, 10] := by decide
  have ends : HTTP_HEADERS_END = [13, 10, 13, 10] := by decide
  rw [crlf, ends]
  induction lines with
  | nil =>
      intro first isLine
      rw [List.append_assoc, List.append_assoc, List.append_assoc,
        search_skip isLine.noReturn]
      exact if_pos (List.prefix_append [13, 10, 13, 10] rest)
  | cons line lines ih =>
      intro first isLine
      obtain ⟨⟨nonempty, here⟩, there⟩ := List.forall_mem_cons.mp isLines
      have next := ih there here
      rw [List.append_assoc, List.append_assoc, List.append_assoc,
        search_skip isLine.noReturn, List.flatMap_cons]
      cases line with
      | nil => exact absurd rfl nonempty
      | cons c line =>
          have other : c ≠ 13 := by
            rintro rfl
            exact here.noReturn (List.mem_cons_self ..)
          have shape : [13, 10] ++ (c :: line ++ [13, 10] ++ lines.flatMap (· ++ [13, 10]) ++
              ([13, 10] ++ rest)) = 13 :: 10 :: (c :: line ++ [13, 10] ++
              lines.flatMap (· ++ [13, 10]) ++ [13, 10] ++ rest) := by
            simp
          rw [shape, search, if_neg]
          · exact (search_cons (by decide) _).trans next
          · rintro ⟨tail, same⟩
            have third := congrArg (fun text => text[2]?) same
            exact other (Option.some.inj third.symm)

section Complete

variable (response : Response)

theorem Response.statusLine_isLine : IsLine response.statusLine := by
  have digits : ∀ d : Fin 10, digit d ≠ Byte.nul ∧ digit d ≠ Byte.carriageReturn := by
    decide
  have version : Byte.nul ∉ ascii "HTTP/1.1 " ∧ Byte.carriageReturn ∉ ascii "HTTP/1.1 " := by
    decide
  have space : Byte.nul ∉ ascii " " ∧ Byte.carriageReturn ∉ ascii " " := by
    decide
  obtain ⟨hundreds, tens, ones⟩ :=
    And.intro (digits response.hundreds) (And.intro (digits response.tens)
      (digits response.ones))
  constructor
  · simp only [Response.statusLine, List.mem_append, List.mem_cons, List.not_mem_nil, or_false,
      not_or]
    exact ⟨⟨⟨version.1, hundreds.1.symm, tens.1.symm, ones.1.symm⟩, space.1⟩,
      response.reasonLine.noNul⟩
  · simp only [Response.statusLine, List.mem_append, List.mem_cons, List.not_mem_nil, or_false,
      not_or]
    exact ⟨⟨⟨version.2, hundreds.2.symm, tens.2.symm, ones.2.symm⟩, space.2⟩,
      response.reasonLine.noReturn⟩

theorem Response.search_bytes :
    search HTTP_HEADERS_END response.bytes = some (HTTP_HEADERS_END ++ response.body) :=
  search_lines response.fields response.fieldLines response.body response.statusLine_isLine

/-- A zero can only stand in the body. -/
theorem Response.bytes_noNul (noNul : Byte.nul ∉ response.body) :
    Byte.nul ∉ response.bytes := by
  have crlf : Byte.nul ∉ ascii "\r\n" := by decide
  simp only [Response.bytes, List.mem_append, List.mem_flatMap, not_or, not_exists, not_and]
  refine ⟨⟨⟨⟨response.statusLine_isLine.noNul, crlf⟩, fun field member => ?_⟩, crlf⟩, noNul⟩
  exact ⟨(response.fieldLines field member).2.noNul, crlf⟩

/-- The status of a response is read back. -/
theorem Response.status_read (rest : List Byte) :
    atoi (((response.bytes ++ rest).drop 9).take 3) = response.status := by
  have digits : ∀ hundreds tens ones : Fin 10,
      atoi [digit hundreds, digit tens, digit ones] =
        100 * (hundreds : Int) + 10 * tens + ones := by
    decide +kernel
  rw [Response.status, ← digits]
  rfl

/-- A reply without an error passes on the status and the whole body. -/
def Complete (reply : Reply) : Prop :=
  reply.error = 0 →
    reply.httpStatus = response.status ∧
      reply.httpResponseBody.map CString.bytes = some response.body

instance (reply : Reply) : Decidable (Complete response reply) :=
  inferInstanceAs (Decidable (_ → _ ∧ _))

variable {response}

/-- A string that is the beginning of a response, and in which the whole body is found, is all of
the response. -/
theorem eq_bytes_of_body {text found : List Byte} (begins : text <+: response.bytes)
    (there : search HTTP_HEADERS_END text = some found) (body : found.drop 4 = response.body) :
    text = response.bytes := by
  obtain ⟨rest, whole⟩ := begins
  have longer := search_append there rest
  rw [whole, response.search_bytes] at longer
  obtain ⟨starts, -⟩ := search_found there
  obtain ⟨tail, rfl⟩ := starts
  have length : HTTP_HEADERS_END.length = 4 := by decide
  rw [← length, List.drop_left] at body
  rw [body] at longer
  have none : rest = [] := by
    have lengths := congrArg List.length (Option.some.inj longer)
    simp only [List.length_append] at lengths
    exact List.length_eq_zero_iff.mp (by omega)
  rw [none, List.append_nil] at whole
  exact whole

/-- The reply that is made of the buffer is complete exactly if the whole response is in it, and
its body is a string. -/
theorem complete_iff {received rest : List Byte} {dataBuffer : Block Byte 1024}
    (begins : received <+: response.bytes)
    (holds : dataBuffer.cells = received ++ Byte.nul :: rest) :
    Complete response
        ⟨0, getHttpResponseStatus dataBuffer, getHttpResponseBody dataBuffer⟩ ↔
      received = response.bytes ∧ Byte.nul ∉ response.body := by
  have string : stringOf dataBuffer.cells = stringOf received := by
    rw [holds, string_append_nul]
  have cut : stringOf received <+: received := List.takeWhile_prefix _
  rw [Complete, getHttpResponseBody, string]
  constructor
  · intro complete
    obtain ⟨-, passed⟩ := complete rfl
    rw [Option.map_map, Option.map_eq_some_iff] at passed
    obtain ⟨found, there, body⟩ := passed
    have noNul : Byte.nul ∉ found.drop 4 := by
      intro member
      have inside := (search_found there).2.subset (List.mem_of_mem_drop member)
      exact (CString.ofMemory received).noNul inside
    have body' : found.drop 4 = response.body := (CString.ofMemory_bytes noNul).symm.trans body
    have whole := eq_bytes_of_body (cut.trans begins) there body'
    refine ⟨?_, body' ▸ noNul⟩
    exact begins.eq_of_length_le (whole ▸ cut.length_le)
  · rintro ⟨rfl, noNul⟩ -
    have whole : stringOf response.bytes = response.bytes :=
      CString.ofMemory_bytes (response.bytes_noNul noNul)
    refine ⟨?_, ?_⟩
    · rw [getHttpResponseStatus, holds]
      exact response.status_read (Byte.nul :: rest)
    · rw [whole, response.search_bytes]
      have length : HTTP_HEADERS_END.length = 4 := by decide
      change some (CString.ofMemory _).bytes = _
      rw [← length, List.drop_left, CString.ofMemory_bytes noNul]

end Complete

/-- **When a reply passes on a whole response.** Where the bytes that arrive are a beginning of the
response, a reply without an error has its status and its whole body if and only if the request
fails before the answer is read, or a wait fails before the buffer is full, or the whole
response arrives, with at most 1023 bytes and without a zero in its body. -/
theorem response_complete_iff (libc : Libc) (client : Client) (host httpVerb : CString)
    (httpRequestBody : Option CString) (addInstallationHeader : Bool) (network : Network)
    (response : Response) (begins : (arrivals false network.rounds).1 <+: response.bytes) :
    Complete response (parseSendRequestInternal libc client host httpVerb httpRequestBody
        addInstallationHeader network) ↔
      writeRequest libc client host httpVerb httpRequestBody addInstallationHeader network < 0 ∨
        ((arrivals false network.rounds).1.length < 1023 ∧
          (arrivals false network.rounds).2 < 0) ∨
        ((arrivals false network.rounds).1 = response.bytes ∧ response.bytes.length ≤ 1023 ∧
          Byte.nul ∉ response.body) := by
  have failed : ∀ status : Int, status < 0 → Complete response ⟨status, -1, none⟩ := by
    intro status negative error
    exact absurd error (Int.ne_of_lt negative)
  rw [parseSendRequestInternal, sendRequest]
  generalize writtenIs : writeRequest libc client host httpVerb httpRequestBody
    addInstallationHeader network = written
  dsimp only
  by_cases unsent : written < 0
  · rw [if_pos unsent]
    exact iff_of_true (failed written unsent) (Or.inl unsent)
  · have valid : 0 ≤ network.connect := by
      by_contra negative
      rw [writeRequest, if_pos (Int.not_le.mp negative)] at writtenIs
      omega
    obtain ⟨fails, rest, -, holds⟩ := socketRead_arrivals valid network.rounds
    rw [if_neg unsent]
    generalize socketRead network.connect (Block.fill 1024 Byte.nul) 0 1024 network.rounds = read
      at *
    obtain ⟨reading, status⟩ := read
    dsimp only at *
    by_cases negative : status < 0
    · rw [if_neg (Int.not_le.mpr negative)]
      exact iff_of_true (failed status negative) (Or.inr (Or.inl (fails.mp negative)))
    · rw [if_pos (Int.not_lt.mp negative),
        complete_iff ((List.take_prefix 1023 _).trans begins) holds]
      constructor
      · rintro ⟨whole, noNul⟩
        have same : (arrivals false network.rounds).1 = response.bytes :=
          begins.eq_of_length_le (whole ▸ List.length_take_le' ..)
        refine Or.inr (Or.inr ⟨same, ?_, noNul⟩)
        rw [← whole]
        exact List.length_take_le ..
      · rintro (never | fails' | ⟨same, short, noNul⟩)
        · exact absurd never unsent
        · exact absurd (fails.mpr fails') negative
        · rw [same]
          exact ⟨List.take_of_length_le short, noNul⟩

section Example

def two : Fin 10 := ⟨2, by decide⟩

theorem two_isDigit : two ≠ 0 := by decide

theorem exampleReason_isLine : IsLine (ascii "OK") := ⟨by decide, by decide⟩

theorem exampleFields_areLines :
    ∀ field ∈ [ascii "Content-Length: 2"], field ≠ [] ∧ IsLine field :=
  List.forall_mem_singleton.mpr ⟨by decide, by decide, by decide⟩

/-- `{}` with status 200. -/
def exampleResponse : Response where
  hundreds := two
  tens := ⟨0, by decide⟩
  ones := ⟨0, by decide⟩
  reason := ascii "OK"
  fields := [ascii "Content-Length: 2"]
  body := ascii "\x7b\x7d"
  threeDigits := two_isDigit
  reasonLine := exampleReason_isLine
  fieldLines := exampleFields_areLines
  counted := by decide

/-- A connection on which these bytes arrive at once, and then nothing more. -/
def arriving (bytes : List Byte) : Network :=
  ⟨1, 1, [⟨1, 0, .bytes bytes⟩, ⟨0, 0, .bytes []⟩]⟩

def silent : Network := ⟨1, 1, [⟨0, 0, .bytes []⟩]⟩

def exampleReply (network : Network) : Reply :=
  parseSendRequestInternal ⟨true⟩
    (exampleClient (CString.literal "a") (CString.literal "i") (CString.literal "t"))
    (CString.literal "/1/classes/A") (CString.literal "GET") none true network

theorem response_complete_example :
    (arrivals false (arriving exampleResponse.bytes).rounds).1 <+: exampleResponse.bytes ∧
      Complete exampleResponse (exampleReply (arriving exampleResponse.bytes)) := by
  have arrived : (arrivals false (arriving exampleResponse.bytes).rounds).1 =
      exampleResponse.bytes := by
    decide +kernel
  have begins : (arrivals false (arriving exampleResponse.bytes).rounds).1 <+:
      exampleResponse.bytes :=
    ⟨[], (List.append_nil _).trans arrived⟩
  refine ⟨begins, ?_⟩
  refine (response_complete_iff _ _ _ _ _ _ _ exampleResponse begins).mpr ?_
  exact Or.inr (Or.inr ⟨arrived, by decide +kernel, by decide⟩)

/-- An answer that does not come, or whose body does not come, is passed on as one. -/
theorem response_complete_counterexample :
    ((arrivals false silent.rounds).1 <+: exampleResponse.bytes ∧
        ¬ Complete exampleResponse (exampleReply silent)) ∧
      ((arrivals false (arriving (exampleResponse.bytes.take 38)).rounds).1 <+:
          exampleResponse.bytes ∧
        ¬ Complete exampleResponse (exampleReply (arriving (exampleResponse.bytes.take 38)))) := by
  decide +kernel

end Example

end ParseEmbedded.Rtos
