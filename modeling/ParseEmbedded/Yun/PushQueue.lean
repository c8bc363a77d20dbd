import Mathlib.Logic.Function.Basic
import ParseEmbedded.Library.LinkedList
import ParseEmbedded.Library.Runs
import ParseEmbedded.Rtos.Client

/-!
# The push queue of a Yun

`enqueuePush`, `newPushHandler` and `arduinoPushFetchHandler` of `parse_push.c`. The queue is a
linked list in memory behind a sentinel, with a pointer to the sentinel and one to the last node. An
access of a cell that is not allocated, or that holds something else, is a `Fault`, and so is a
`free` of a block that is not allocated. The addresses that `malloc` returns are an input.

`Holds` says that a state represents a list of texts. An enqueued push is put behind the list, and a
fetch takes the first text out and prints it, which is all there is to a queue
(`enqueuePush_holds`, `fetch_holds`); the induction over a run is `run_fifo`.
-/

set_option autoImplicit false

namespace ParseEmbedded.Yun

open Runs LinkedList SimpleJson
open Rtos (Stray lookUp strncpy zeros)

/-! ## Memory -/

abbrev Address := Nat

/-- A block of memory: a `ParsePush`, or an array of bytes. -/
inductive Cell where
  | node (push_data next : Option Address)
  | bytes (bytes : List Byte)
  deriving DecidableEq, Repr

abbrev Memory := Address → Option Cell

/-- What must not be done with a pointer. -/
inductive Fault where
  | noNode (pointer : Address)
  | noBytes (pointer : Option Address)
  | notAllocated (pointer : Address)
  deriving DecidableEq, Repr

namespace Memory

variable (memory : Memory)

/-- The fields of `*pointer`. -/
def node (pointer : Address) : Except Fault (Option Address × Option Address) :=
  match memory pointer with
  | some (.node push_data next) => .ok (push_data, next)
  | _ => .error (.noNode pointer)

/-- The string at a pointer. -/
def string (pointer : Option Address) : Except Fault CString :=
  match pointer.bind memory with
  | some (.bytes bytes) => .ok (CString.ofMemory bytes)
  | _ => .error (.noBytes pointer)

def write (pointer : Address) (cell : Cell) : Memory :=
  Function.update memory pointer (some cell)

/-- `free`, which does nothing with a null pointer. -/
def free (pointer : Option Address) : Except Fault Memory :=
  match pointer with
  | none => .ok memory
  | some pointer =>
      if memory pointer = none then .error (.notAllocated pointer)
      else .ok (Function.update memory pointer none)

/-- The pointer to the next node. -/
def next (pointer : Address) : Option Address :=
  match memory pointer with
  | some (.node _ next) => next
  | _ => none

end Memory

/-! ## The source -/

/-- The memory, with the globals `head` and `tail`. -/
structure PushQueue where
  memory : Memory
  head : Address
  tail : Address

/-- `enqueuePush`, where `malloc` returns these blocks for a node and for a copy of the push. The
push is the string in `pushBuf`, which has 2048 bytes, so that the `int` `nextSize` holds its
length. -/
def enqueuePush (queue : PushQueue) (push : CString) (node push_data : Address) :
    Except Fault PushQueue := do
  let nextSize := push.length
  let last ← queue.memory.node queue.tail
  let memory := queue.memory.write node (.node none none)
  let memory := memory.write queue.tail (.node last.1 (some node))
  let tail := node
  let bytes := strncpy (zeros nextSize) push nextSize
  let memory := memory.write push_data (.bytes bytes)
  let memory := memory.write tail (.node (some push_data) none)
  .ok ⟨memory, queue.head, tail⟩

/-- What a call of `arduinoPushFetchHandler` does: what it prints, and the blocks it frees. -/
structure Fetch where
  queue : PushQueue
  printed : Option CString
  freed : List Address

/-- `arduinoPushFetchHandler`, where these bytes are read. -/
def arduinoPushFetchHandler (commandLine : Bool) (queue : PushQueue) (input : List Byte) :
    Except Fault Fetch :=
  if commandLine then .ok ⟨queue, none, []⟩
  else if input.headD Byte.nul = 110 then do
    let sentinel ← queue.memory.node queue.head
    match sentinel.2 with
    | none => .ok ⟨queue, none, []⟩
    | some tmp =>
        let first ← queue.memory.node tmp
        let printed ← queue.memory.string first.1
        let memory := queue.memory.write queue.head (.node sentinel.1 first.2)
        let tail := if first.2 = none then queue.head else queue.tail
        let memory ← memory.free first.1
        let memory ← memory.free (some tmp)
        .ok ⟨⟨memory, queue.head, tail⟩, some printed, first.1.toList ++ [tmp]⟩
  else .ok ⟨queue, none, []⟩

/-- The text that `newPushHandler` leaves in `pushBuf`. -/
def pushBuf (stray : Stray) (buffer : Option CString) : CString :=
  match buffer with
  | none => CString.ofMemory (zeros 2047)
  | some buffer =>
      CString.ofMemory (lookUp stray buffer (CString.literal "data") (zeros 2047) 2048).2

/-- `newPushHandler`: the push is printed at once, or it is put into the queue. -/
def newPushHandler (commandLine : Bool) (stray : Stray) (queue : PushQueue)
    (buffer : Option CString) (node push_data : Address) :
    Except Fault (PushQueue × Option CString) :=
  if commandLine then .ok (queue, if buffer = none then none else some (pushBuf stray buffer))
  else do
    let queue ← enqueuePush queue (pushBuf stray buffer) node push_data
    .ok (queue, none)

/-- `main`: the queue with its sentinel, which stands on the stack. -/
def initialQueue (memory : Memory) (queue : Address) : PushQueue :=
  ⟨memory.write queue (.node none none), queue, queue⟩

/-! ## Runs -/

inductive QueueCall where
  | enqueuePush (push : CString) (node push_data : Address)
  | fetch (input : List Byte)

/-- What a call prints, and the blocks it frees. -/
structure QueueOutput where
  printed : Option CString
  freed : List Address

abbrev QueueTransition := Runs.Transition PushQueue QueueCall (Except Fault QueueOutput)

/-- A call as a step, where no push is printed at once. -/
def queueStep (queue : PushQueue) : QueueCall → PushQueue × Except Fault QueueOutput
  | .enqueuePush push node push_data =>
      match enqueuePush queue push node push_data with
      | .ok queue => (queue, .ok ⟨none, []⟩)
      | .error fault => (queue, .error fault)
  | .fetch input =>
      match arduinoPushFetchHandler false queue input with
      | .ok fetch => (fetch.queue, .ok ⟨fetch.printed, fetch.freed⟩)
      | .error fault => (queue, .error fault)

/-- `malloc` succeeds: it returns two blocks that are not allocated. -/
def Allocates (t : QueueTransition) : Prop :=
  ∀ push node push_data, t.input = .enqueuePush push node push_data →
    t.before.memory node = none ∧ t.before.memory push_data = none ∧ node ≠ push_data

/-- The pushes that are enqueued. -/
def enqueued (calls : List QueueCall) : List CString :=
  calls.filterMap fun call =>
    match call with
    | .enqueuePush push _ _ => some push
    | .fetch _ => none

/-- The pushes that are printed. -/
def printedPushes (transitions : List QueueTransition) : List CString :=
  transitions.filterMap fun t =>
    match t.output with
    | .ok output => output.printed
    | .error _ => none

/-! ## What a queue holds -/

/-- A node of the list with its block of bytes and the push in it. -/
structure QueueNode where
  address : Address
  push_data : Address
  push : CString

/-- **The queue holds these nodes**: they are the nodes behind the sentinel, `tail` points to the
last one, and each has a full copy of its push, in blocks of its own. -/
structure Holds (queue : PushQueue) (nodes : List QueueNode) : Prop where
  linked : Linked queue.memory.next queue.head (nodes.map QueueNode.address)
  tail : queue.tail = (nodes.map QueueNode.address).getLastD queue.head
  sentinel : ∃ push_data, queue.memory queue.head =
    some (.node push_data (queue.memory.next queue.head))
  filled : ∀ n ∈ nodes, queue.memory n.address =
      some (.node (some n.push_data) (queue.memory.next n.address)) ∧
    queue.memory n.push_data = some (.bytes (n.push.bytes ++ [Byte.nul]))
  distinct : (queue.head :: nodes.flatMap fun n => [n.address, n.push_data]).Nodup

/-! ## Reading what was written -/

section Memory

variable {memory : Memory} {a p : Address}

theorem Memory.next_of_node {push_data next : Option Address}
    (there : memory p = some (.node push_data next)) : memory.next p = next := by
  rw [Memory.next, there]

theorem Memory.node_of_node {push_data next : Option Address}
    (there : memory p = some (.node push_data next)) :
    memory.node p = .ok (push_data, next) := by
  rw [Memory.node, there]

theorem Memory.next_congr {memory' : Memory} (same : memory' a = memory a) :
    Memory.next memory' a = memory.next a := by
  rw [Memory.next, Memory.next, same]

theorem Memory.write_self (memory : Memory) (p : Address) (cell : Cell) :
    memory.write p cell p = some cell := Function.update_self ..

theorem Memory.write_of_ne (other : a ≠ p) (cell : Cell) : memory.write p cell a = memory a :=
  Function.update_of_ne other ..

theorem Memory.free_allocated (allocated : memory p ≠ none) :
    memory.free (some p) = .ok (Function.update memory p none) := if_neg allocated

theorem Memory.string_of_bytes {push : CString}
    (there : memory p = some (.bytes (push.bytes ++ [Byte.nul]))) :
    memory.string (some p) = .ok push := by
  have same : CString.ofMemory (push.bytes ++ [Byte.nul]) = push :=
    CString.ext_bytes (CString.ofMemory_append_nul push.noNul [])
  rw [Memory.string, Option.bind_some, there]
  exact congrArg Except.ok same

end Memory

/-- The copy of a push is the push with a zero behind it. -/
theorem strncpy_push (push : CString) :
    strncpy (zeros push.length) push push.length = push.bytes ++ [Byte.nul] := by
  have copied : (push.bytes ++ List.replicate push.length Byte.nul).take push.length =
      push.bytes := List.take_left
  rw [strncpy, copied, overwrite, zeros, List.drop_replicate]
  have one : push.length + 1 - push.bytes.length = 1 := Nat.add_sub_cancel_left ..
  rw [one]
  rfl

section Holds

variable {queue : PushQueue} {nodes rest : List QueueNode} {n : QueueNode}

/-- The last node, or the sentinel, points to nothing. -/
theorem Holds.last (holds : Holds queue nodes) :
    ∃ push_data, queue.memory queue.tail = some (.node push_data none) := by
  have null := holds.linked.last
  rw [← holds.tail] at null
  rcases List.mem_cons.mp (List.getLastD_mem_cons (l := nodes.map QueueNode.address)
    (a := queue.head)) with isHead | member
  · rw [← holds.tail] at isHead
    obtain ⟨push_data, sentinel⟩ := holds.sentinel
    rw [isHead] at null ⊢
    exact ⟨push_data, null ▸ sentinel⟩
  · rw [← holds.tail] at member
    obtain ⟨n, inNodes, same⟩ := List.mem_map.mp member
    have filled := (holds.filled n inNodes).1
    rw [same, null] at filled
    exact ⟨_, filled⟩

/-- Every block of the queue is allocated. -/
theorem Holds.allocated (holds : Holds queue nodes) :
    ∀ a ∈ queue.head :: nodes.flatMap (fun n => [n.address, n.push_data]),
      queue.memory a ≠ none := by
  intro a member
  rcases List.mem_cons.mp member with rfl | member
  · obtain ⟨push_data, sentinel⟩ := holds.sentinel
    rw [sentinel]
    exact Option.some_ne_none _
  · obtain ⟨n, inNodes, here⟩ := List.mem_flatMap.mp member
    obtain ⟨node, bytes⟩ := holds.filled n inNodes
    rcases List.mem_cons.mp here with rfl | here
    · rw [node]
      exact Option.some_ne_none _
    · rw [List.mem_singleton.mp here, bytes]
      exact Option.some_ne_none _

theorem mem_blocks_address (inNodes : n ∈ nodes) :
    n.address ∈ nodes.flatMap fun n => [n.address, n.push_data] :=
  List.mem_flatMap.mpr ⟨n, inNodes, List.mem_cons_self ..⟩

theorem mem_blocks_push_data (inNodes : n ∈ nodes) :
    n.push_data ∈ nodes.flatMap fun n => [n.address, n.push_data] :=
  List.mem_flatMap.mpr ⟨n, inNodes, List.mem_cons_of_mem _ (List.mem_singleton_self _)⟩

theorem addresses_sublist (nodes : List QueueNode) :
    (nodes.map QueueNode.address).Sublist (nodes.flatMap fun n => [n.address, n.push_data]) := by
  induction nodes with
  | nil => exact .slnil
  | cons n nodes ih => exact (ih.cons n.push_data).cons_cons n.address

/-- **An enqueued push is put behind the list.** -/
theorem enqueuePush_holds (holds : Holds queue nodes) (push : CString) {node push_data : Address}
    (nodeFree : queue.memory node = none) (dataFree : queue.memory push_data = none)
    (apart : node ≠ push_data) :
    ∃ after, enqueuePush queue push node push_data = .ok after ∧ after.head = queue.head ∧
      Holds after (nodes ++ [⟨node, push_data, push⟩]) := by
  obtain ⟨lastData, last⟩ := holds.last
  have allocated := holds.allocated
  have isAllocated : ∀ {a : Address}, queue.memory a ≠ none → a ≠ node ∧ a ≠ push_data := by
    intro a there
    refine ⟨?_, ?_⟩
    · rintro rfl
      exact there nodeFree
    · rintro rfl
      exact there dataFree
  have tailApart := isAllocated (a := queue.tail) (last ▸ Option.some_ne_none _)
  -- the memory behind the call, cell by cell
  obtain ⟨memory, done, atNode, atData, atTail, others⟩ : ∃ memory : Memory,
      enqueuePush queue push node push_data = .ok ⟨memory, queue.head, node⟩ ∧
        memory node = some (.node (some push_data) none) ∧
        memory push_data = some (.bytes (push.bytes ++ [Byte.nul])) ∧
        memory queue.tail = some (.node lastData (some node)) ∧
        ∀ a, a ≠ node → a ≠ push_data → a ≠ queue.tail → memory a = queue.memory a := by
    refine ⟨_, by rw [enqueuePush, Memory.node_of_node last]; rfl, ?_, ?_, ?_, ?_⟩
    · exact Memory.write_self ..
    · rw [Memory.write_of_ne apart.symm, Memory.write_self, strncpy_push]
    · rw [Memory.write_of_ne tailApart.1, Memory.write_of_ne tailApart.2, Memory.write_self]
    · intro a notNode notData notTail
      rw [Memory.write_of_ne notNode, Memory.write_of_ne notData, Memory.write_of_ne notTail,
        Memory.write_of_ne notNode]
  have keeps : ∀ {a : Address} {data : Option Address},
      queue.memory a = some (.node data (queue.memory.next a)) →
        memory a = some (.node data (memory.next a)) := by
    intro a data there
    by_cases isTail : a = queue.tail
    · subst isTail
      obtain ⟨rfl, -⟩ := Cell.node.inj (Option.some.inj (last.symm.trans there))
      rw [Memory.next_of_node atTail, atTail]
    · obtain ⟨notNode, notData⟩ := isAllocated (there ▸ Option.some_ne_none _)
      have same := others a notNode notData isTail
      rw [Memory.next_congr same, same, there]
  refine ⟨⟨memory, queue.head, node⟩, done, rfl, ?_, ?_, ?_, ?_, ?_⟩
  · rw [List.map_append]
    refine Linked.extend _ holds.linked ?_ ?_ (Memory.next_of_node atNode) ?_
    · exact holds.distinct.sublist ((addresses_sublist nodes).cons_cons queue.head)
    · rw [← holds.tail, Memory.next_of_node atTail]
    · intro a member notLast
      rw [← holds.tail] at notLast
      obtain ⟨notNode, notData⟩ := isAllocated
        (allocated a (((addresses_sublist nodes).cons_cons queue.head).subset member))
      exact Memory.next_congr (others a notNode notData notLast)
  · rw [List.map_append]
    exact List.getLastD_concat.symm
  · obtain ⟨data, sentinel⟩ := holds.sentinel
    exact ⟨data, keeps sentinel⟩
  · intro n member
    rcases List.mem_append.mp member with earlier | new
    · obtain ⟨isNode, bytes⟩ := holds.filled n earlier
      refine ⟨keeps isNode, ?_⟩
      obtain ⟨notNode, notData⟩ := isAllocated (a := n.push_data)
        (bytes ▸ Option.some_ne_none _)
      have notTail : n.push_data ≠ queue.tail := by
        intro same
        rw [same, last] at bytes
        cases bytes
      exact (others _ notNode notData notTail).trans bytes
    · rw [List.mem_singleton.mp new]
      exact ⟨atNode.trans (by rw [Memory.next_of_node atNode]), atData⟩
  · rw [List.flatMap_append, ← List.cons_append]
    refine List.nodup_append.mpr ⟨holds.distinct, by simpa using apart, ?_⟩
    rintro a earlier b new rfl
    have there := isAllocated (allocated a earlier)
    rcases List.mem_cons.mp new with rfl | new
    · exact there.1 rfl
    · exact there.2 (List.mem_singleton.mp new)

/-- A fetch of an empty queue does nothing. -/
theorem fetch_empty (holds : Holds queue []) (input : List Byte) :
    arduinoPushFetchHandler false queue input = .ok ⟨queue, none, []⟩ := by
  obtain ⟨push_data, sentinel⟩ := holds.sentinel
  have null : queue.memory.next queue.head = none := holds.linked
  rw [null] at sentinel
  rw [arduinoPushFetchHandler, Memory.node_of_node sentinel]
  exact ite_self _

/-- **A fetch takes the first push out** and prints it, and frees its two blocks. -/
theorem fetch_holds (holds : Holds queue (n :: rest)) {input : List Byte}
    (asked : input.headD Byte.nul = 110) :
    ∃ after, arduinoPushFetchHandler false queue input =
        .ok ⟨after, some n.push, [n.push_data, n.address]⟩ ∧ after.head = queue.head ∧
      Holds after rest ∧ after.memory n.push_data = none ∧ after.memory n.address = none := by
  obtain ⟨sentinelData, sentinel⟩ := holds.sentinel
  obtain ⟨isNode, bytes⟩ := holds.filled n (List.mem_cons_self ..)
  obtain ⟨atFirst, behind⟩ := holds.linked
  rw [atFirst] at sentinel
  have distinct := holds.distinct
  rw [List.flatMap_cons, List.cons_append, List.cons_append, List.nil_append] at distinct
  obtain ⟨headApart, distinct⟩ := List.nodup_cons.mp distinct
  obtain ⟨nodeApart, distinct⟩ := List.nodup_cons.mp distinct
  obtain ⟨dataApart, distinct⟩ := List.nodup_cons.mp distinct
  have headNode : queue.head ≠ n.address := fun same =>
    headApart (same ▸ List.mem_cons_self ..)
  have headData : queue.head ≠ n.push_data := fun same =>
    headApart (same ▸ List.mem_cons_of_mem _ (List.mem_cons_self ..))
  have nodeData : n.address ≠ n.push_data := fun same =>
    nodeApart (same ▸ List.mem_cons_self ..)
  -- the blocks of the other nodes are not touched
  have others : ∀ a ∈ rest.flatMap (fun n => [n.address, n.push_data]),
      a ≠ queue.head ∧ a ≠ n.address ∧ a ≠ n.push_data := by
    intro a member
    refine ⟨?_, ?_, ?_⟩
    · rintro rfl
      exact headApart (List.mem_cons_of_mem _ (List.mem_cons_of_mem _ member))
    · rintro rfl
      exact nodeApart (List.mem_cons_of_mem _ member)
    · rintro rfl
      exact dataApart member
  obtain ⟨memory, done, freedData, freedNode, atHead, same⟩ : ∃ memory : Memory,
      arduinoPushFetchHandler false queue input =
          .ok ⟨⟨memory, queue.head,
            if queue.memory.next n.address = none then queue.head else queue.tail⟩,
            some n.push, [n.push_data, n.address]⟩ ∧
        memory n.push_data = none ∧ memory n.address = none ∧
        memory queue.head = some (.node sentinelData (queue.memory.next n.address)) ∧
        ∀ a, a ≠ queue.head → a ≠ n.address → a ≠ n.push_data → memory a = queue.memory a := by
    have dataThere : queue.memory.write queue.head
        (.node sentinelData (queue.memory.next n.address)) n.push_data ≠ none := by
      rw [Memory.write_of_ne headData.symm, bytes]
      exact Option.some_ne_none _
    have nodeThere : Function.update (queue.memory.write queue.head
        (.node sentinelData (queue.memory.next n.address))) n.push_data none n.address ≠ none := by
      rw [Function.update_of_ne nodeData, Memory.write_of_ne headNode.symm, isNode]
      exact Option.some_ne_none _
    refine ⟨Function.update (Function.update (queue.memory.write queue.head
      (.node sentinelData (queue.memory.next n.address))) n.push_data none) n.address none,
      ?_, ?_, Function.update_self .., ?_, ?_⟩
    · rw [arduinoPushFetchHandler, if_neg Bool.false_ne_true, if_pos asked,
        Memory.node_of_node sentinel]
      change (queue.memory.node n.address >>= _) = _
      rw [Memory.node_of_node isNode]
      change (queue.memory.string (some n.push_data) >>= _) = _
      rw [Memory.string_of_bytes bytes]
      change (Memory.free _ (some n.push_data) >>= _) = _
      rw [Memory.free_allocated dataThere]
      change (Memory.free _ (some n.address) >>= _) = _
      rw [Memory.free_allocated nodeThere]
      rfl
    · rw [Function.update_of_ne nodeData.symm, Function.update_self]
    · rw [Function.update_of_ne headNode, Function.update_of_ne headData, Memory.write_self]
    · intro a notHead notNode notData
      rw [Function.update_of_ne notNode, Function.update_of_ne notData,
        Memory.write_of_ne notHead]
  refine ⟨_, done, rfl, ⟨?_, ?_, ?_, ?_, ?_⟩, freedData, freedNode⟩
  · refine Linked.unlink (q := n.address) ⟨atFirst, behind⟩ (Memory.next_of_node atHead) ?_
    intro a member
    obtain ⟨notHead, notNode, notData⟩ := others a ((addresses_sublist rest).subset member)
    exact Memory.next_congr (same a notHead notNode notData)
  · -- the tail is the sentinel again exactly if no node is left
    cases rest with
    | nil =>
        have null : queue.memory.next n.address = none := behind
        exact if_pos null
    | cons m rest =>
        have more : queue.memory.next n.address ≠ none := by
          rw [behind.1]
          exact Option.some_ne_none _
        refine (if_neg more).trans (holds.tail.trans ?_)
        rw [List.map_cons, List.map_cons, List.getLastD_cons, List.getLastD_cons,
          List.getLastD_cons]
  · exact ⟨sentinelData, atHead.trans (by rw [Memory.next_of_node atHead])⟩
  · intro m member
    obtain ⟨isNode, bytes⟩ := holds.filled m (List.mem_cons_of_mem _ member)
    obtain ⟨notHead, notNode, notData⟩ := others m.address (mem_blocks_address member)
    have kept := same m.address notHead notNode notData
    obtain ⟨notHead, notNode, notData⟩ := others m.push_data (mem_blocks_push_data member)
    refine ⟨?_, (same m.push_data notHead notNode notData).trans bytes⟩
    exact kept.trans (isNode.trans (by rw [Memory.next_congr kept]))
  · refine List.nodup_cons.mpr ⟨fun member => (others _ member).1 rfl, distinct⟩

/-- A fetch that is not asked for a push does nothing. -/
theorem fetch_other {input : List Byte} (other : input.headD Byte.nul ≠ 110) :
    arduinoPushFetchHandler false queue input = .ok ⟨queue, none, []⟩ := by
  rw [arduinoPushFetchHandler, if_neg Bool.false_ne_true, if_neg other]

/-- At first the queue holds nothing. -/
theorem initialQueue_holds (memory : Memory) (sentinel : Address) :
    Holds (initialQueue memory sentinel) [] := by
  have there := Memory.write_self memory sentinel (.node none none)
  have null : (memory.write sentinel (.node none none)).next sentinel = none :=
    Memory.next_of_node there
  exact ⟨null, rfl, ⟨none, there.trans (by rw [initialQueue, null])⟩,
    fun _ member => absurd member List.not_mem_nil, List.nodup_cons.mpr ⟨List.not_mem_nil, .nil⟩⟩

end Holds

/-- Where no push is printed at once, a notification is enqueued. -/
theorem newPushHandler_enqueues (stray : Stray) (queue : PushQueue) (buffer : Option CString)
    (node push_data : Address) :
    newPushHandler false stray queue buffer node push_data =
      (enqueuePush queue (pushBuf stray buffer) node push_data).map fun queue => (queue, none) := by
  rw [newPushHandler, if_neg Bool.false_ne_true]
  cases enqueuePush queue (pushBuf stray buffer) node push_data with
  | ok queue => rfl
  | error fault => rfl

/-! ## Along a run -/

/-- The call keeps to its pointers: it meets no fault, and what it frees was allocated, is freed
once, and is in the queue no more. -/
def FreesOnce (t : QueueTransition) : Prop :=
  ∃ output, t.output = .ok output ∧ output.freed.Nodup ∧
    ∀ a ∈ output.freed, t.before.memory a ≠ none ∧ t.after.memory a = none

/-- What a step does to the texts: a push that is enqueued comes last, one that is printed was the
first. -/
theorem step_fifo {queue : PushQueue} {nodes : List QueueNode} (holds : Holds queue nodes)
    (call : QueueCall) (allocates : Allocates (fire queueStep queue call)) :
    FreesOnce (fire queueStep queue call) ∧ (queueStep queue call).1.head = queue.head ∧
      ∃ after, Holds (queueStep queue call).1 after ∧
        printedPushes [fire queueStep queue call] ++ after.map QueueNode.push =
          nodes.map QueueNode.push ++ enqueued [call] := by
  cases call with
  | enqueuePush push node push_data =>
      obtain ⟨nodeFree, dataFree, apart⟩ := allocates push node push_data rfl
      obtain ⟨after, done, sameHead, holds⟩ :=
        enqueuePush_holds holds push nodeFree dataFree apart
      have step : queueStep queue (.enqueuePush push node push_data) =
          (after, .ok ⟨none, []⟩) := by
        rw [queueStep, done]
      rw [fire, step]
      refine ⟨⟨_, rfl, .nil, fun _ member => absurd member List.not_mem_nil⟩, sameHead, _, holds,
        ?_⟩
      rw [List.map_append]
      rfl
  | fetch input =>
      have idle : arduinoPushFetchHandler false queue input = .ok ⟨queue, none, []⟩ →
          FreesOnce (fire queueStep queue (.fetch input)) ∧
            (queueStep queue (.fetch input)).1.head = queue.head ∧
              ∃ after, Holds (queueStep queue (.fetch input)).1 after ∧
                printedPushes [fire queueStep queue (.fetch input)] ++ after.map QueueNode.push =
                  nodes.map QueueNode.push ++ enqueued [.fetch input] := by
        intro done
        have step : queueStep queue (.fetch input) = (queue, .ok ⟨none, []⟩) := by
          rw [queueStep, done]
        rw [fire, step]
        exact ⟨⟨_, rfl, .nil, fun _ member => absurd member List.not_mem_nil⟩, rfl, nodes, holds,
          (List.append_nil _).symm⟩
      by_cases asked : input.headD Byte.nul = 110
      · cases nodes with
        | nil => exact idle (fetch_empty holds input)
        | cons n rest =>
            obtain ⟨after, done, sameHead, left, freedData, freedNode⟩ := fetch_holds holds asked
            have step : queueStep queue (.fetch input) =
                (after, .ok ⟨some n.push, [n.push_data, n.address]⟩) := by
              rw [queueStep, done]
            rw [fire, step]
            obtain ⟨isNode, bytes⟩ := holds.filled n (List.mem_cons_self ..)
            have distinct : [n.push_data, n.address].Nodup := by
              have apart : n.push_data ≠ n.address := by
                intro same
                rw [same, isNode] at bytes
                cases bytes
              simpa using apart
            refine ⟨⟨_, rfl, distinct, fun a member => ?_⟩, sameHead, rest, left, ?_⟩
            · rcases List.mem_cons.mp member with rfl | member
              · exact ⟨bytes ▸ Option.some_ne_none _, freedData⟩
              · rw [List.mem_singleton.mp member]
                exact ⟨isNode ▸ Option.some_ne_none _, freedNode⟩
            · exact (List.append_nil _).symm
      · exact idle (fetch_other asked)

/-- **Along a run** the pushes that are printed and those that the queue holds in the end are those
that it held at first and those that are enqueued, in their order. -/
theorem run_fifo (calls : List QueueCall) : ∀ {queue : PushQueue} {nodes : List QueueNode},
    Holds queue nodes → (∀ t ∈ run queueStep queue calls, Allocates t) →
      (∀ t ∈ run queueStep queue calls, FreesOnce t) ∧
        (final queueStep queue calls).head = queue.head ∧
          ∃ after, Holds (final queueStep queue calls) after ∧
            printedPushes (run queueStep queue calls) ++ after.map QueueNode.push =
              nodes.map QueueNode.push ++ enqueued calls := by
  induction calls with
  | nil =>
      intro queue nodes holds _
      exact ⟨fun _ member => absurd member List.not_mem_nil, rfl, nodes, holds,
        (List.append_nil _).symm⟩
  | cons call calls ih =>
      intro queue nodes holds allocates
      obtain ⟨here, there⟩ := List.forall_mem_cons.mp allocates
      obtain ⟨frees, sameHead, middle, next, order⟩ := step_fifo holds call here
      obtain ⟨allFree, allHead, after, last, orders⟩ := ih next there
      refine ⟨List.forall_mem_cons.mpr ⟨frees, allFree⟩, allHead.trans sameHead, after, last, ?_⟩
      have printed : printedPushes (run queueStep queue (call :: calls)) =
          printedPushes [fire queueStep queue call] ++
            printedPushes (run queueStep (queueStep queue call).1 calls) :=
        List.filterMap_append (l := [fire queueStep queue call])
      have pushes : enqueued (call :: calls) = enqueued [call] ++ enqueued calls :=
        List.filterMap_append (l := [call])
      rw [printed, pushes, List.append_assoc, orders, ← List.append_assoc, order,
        List.append_assoc]

/-- **The push queue is a queue.** Along every run of calls from the sentinel alone, in which
`malloc` returns blocks that are not allocated, no call meets a fault, and every block is allocated
when it is freed. Behind the run the nodes that can be reached from `head` hold full copies of
pushes, `tail` is the last of them, and what has been printed so far, followed by what the list
holds, is what has been enqueued, in its order. -/
theorem push_queue_fifo (memory : Memory) (sentinel : Address) (calls : List QueueCall)
    (allocates : ∀ t ∈ run queueStep (initialQueue memory sentinel) calls, Allocates t) :
    (∀ t ∈ run queueStep (initialQueue memory sentinel) calls, FreesOnce t) ∧
      (final queueStep (initialQueue memory sentinel) calls).head = sentinel ∧
        ∃ nodes, Holds (final queueStep (initialQueue memory sentinel) calls) nodes ∧
          printedPushes (run queueStep (initialQueue memory sentinel) calls) ++
              nodes.map QueueNode.push = enqueued calls :=
  run_fifo calls (initialQueue_holds memory sentinel) allocates

/-- Two pushes one after the other, the second one in the blocks of the first. -/
def exampleCalls : List QueueCall :=
  [.enqueuePush (CString.literal "a") 1 2, .fetch (ascii "n"),
    .enqueuePush (CString.literal "b") 1 2, .fetch (ascii "n"), .fetch (ascii "n")]

theorem push_queue_fifo_example :
    printedPushes (run queueStep (initialQueue (fun _ => none) 0) exampleCalls) =
      [CString.literal "a", CString.literal "b"] ∧
    (∀ t ∈ run queueStep (initialQueue (fun _ => none) 0) exampleCalls, FreesOnce t) := by
  have allocates : ∀ t ∈ run queueStep (initialQueue (fun _ => none) 0) exampleCalls,
      Allocates t := by
    simp only [exampleCalls, run_cons, run_nil, List.forall_mem_cons]
    refine ⟨?_, ?_, ?_, ?_, ?_, fun _ member => absurd member List.not_mem_nil⟩
    · rintro push node push_data ⟨⟩
      exact ⟨rfl, rfl, by decide⟩
    · rintro push node push_data ⟨⟩
    · rintro push node push_data ⟨⟩
      exact ⟨rfl, rfl, by decide⟩
    · rintro push node push_data ⟨⟩
    · rintro push node push_data ⟨⟩
  refine ⟨by decide, (push_queue_fifo (fun _ => none) 0 exampleCalls allocates).1⟩

end ParseEmbedded.Yun
