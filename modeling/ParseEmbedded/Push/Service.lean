import ParseEmbedded.Library.Origin
import ParseEmbedded.Library.Runs
import ParseEmbedded.Push.Buffer
import Mathlib.Logic.Function.Basic

/-!
# Many clients and one receive buffer

The receive buffer is a static variable: all clients share it, and neither starting nor stopping
a service empties it. A `Service` is what a platform does with its clients and that buffer, and
a `World` the state of the whole: the buffer, every client, and two records that the code does
not keep, what each client has received on its current connection and how many of the unread
bytes, at their end, came from there.

`isolated_of_apart` says when clients are kept apart: a call that completes a message has to find
no beginning of a message among the bytes that other connections have left in front.
-/

set_option autoImplicit false

namespace ParseEmbedded.Push

open SimpleJson Runs Origin

/-! ## The services of a platform -/

/-- What starting does: whether there is a new connection, and whether the bytes of the buffer
have been overwritten. -/
structure Started (capacity : Nat) (Client : Type) where
  buffer : PushBuffer capacity
  client : Client
  connected : Bool
  overwritten : Bool
  delivered : List (List Byte)

/-- What processing does: the bytes received, and the strings passed to the callback with error
zero. -/
structure Processed (capacity : Nat) (Client : Type) where
  buffer : PushBuffer capacity
  client : Client
  received : List Byte
  delivered : List (List Byte)

/-- A platform, with the inputs of starting and of processing. `hears` says of a call whether
its connection has bytes. -/
structure Service where
  capacity : Nat
  Client : Type
  Start : Type
  Input : Type
  setPushCallback : Client → Bool → Client
  start : PushBuffer capacity → Client → Start → Started capacity Client
  stop : Client → Client
  hears : PushBuffer capacity → Client → Input → Bool
  process : PushBuffer capacity → Client → Input → Processed capacity Client

/-! ## The world -/

/-- The buffer, the clients, and the two records. -/
structure World (S : Service) (κ : Type) where
  buffer : PushBuffer S.capacity
  clients : κ → S.Client
  received : κ → List Byte
  own : κ → Nat

inductive Action (S : Service) (κ : Type) where
  | setPushCallback (client : κ) (callback : Bool)
  | start (client : κ) (around : S.Start)
  | stop (client : κ)
  | process (client : κ) (input : S.Input)

def Action.client {S : Service} {κ : Type} : Action S κ → κ
  | .setPushCallback client _ => client
  | .start client _ => client
  | .stop client => client
  | .process client _ => client

variable {S : Service} {κ : Type} [DecidableEq κ]

/-- Nothing has been received. -/
def World.begin (data : Block Byte S.capacity) (clients : κ → S.Client) : World S κ :=
  ⟨⟨data, 0⟩, clients, fun _ => [], fun _ => 0⟩

def World.setClient (w : World S κ) (client : κ) (value : S.Client) : World S κ :=
  { w with clients := Function.update w.clients client value }

/-- The connection of this client is gone: its bytes in the buffer are not those of its current
connection any more. -/
def World.disconnect (w : World S κ) (client : κ) : World S κ :=
  { w with
    received := Function.update w.received client []
    own := Function.update w.own client 0 }

def World.start (w : World S κ) (client : κ) (around : S.Start) : World S κ × List (List Byte) :=
  let done := S.start w.buffer (w.clients client) around
  let next : World S κ :=
    { w.setClient client done.client with
      buffer := done.buffer
      own := if done.overwritten then fun _ => 0 else w.own }
  (if done.connected then next.disconnect client else next, done.delivered)

/-- Bytes that arrive for a client stand behind those of all others. -/
def World.arrived (w : World S κ) (client : κ) (bytes : List Byte) : κ → Nat :=
  if bytes = [] then w.own
  else fun other => if other = client then w.own client + bytes.length else 0

def World.process (w : World S κ) (client : κ) (input : S.Input) :
    World S κ × List (List Byte) :=
  let done := S.process w.buffer (w.clients client) input
  ({ w.setClient client done.client with
     buffer := done.buffer
     received := Function.update w.received client (w.received client ++ done.received)
     own := fun other =>
       min (w.arrived client done.received other) done.buffer.unread.length },
    done.delivered)

/-- One call of one client. The output is the strings passed to its callback with error zero. -/
def World.step (w : World S κ) : Action S κ → World S κ × List (List Byte)
  | .setPushCallback client callback =>
      (w.setClient client (S.setPushCallback (w.clients client) callback), [])
  | .start client around => w.start client around
  | .stop client => ((w.setClient client (S.stop (w.clients client))).disconnect client, [])
  | .process client input => w.process client input

/-- A call of a run, with the worlds around it. -/
abbrev Step (S : Service) (κ : Type) :=
  Runs.Transition (World S κ) (Action S κ) (List (List Byte))

/-! ## Isolation -/

/-- Every string passed to the client's callback with error zero is a piece of what its current
connection has received. -/
def Isolated (t : Step S κ) : Prop :=
  ∀ text ∈ t.output, text <:+: t.after.received t.input.client

/-- Every byte of these strings is a byte that the connection has received. -/
def OwnBytes (t : Step S κ) : Prop :=
  ∀ text ∈ t.output, text ⊆ t.after.received t.input.client

omit [DecidableEq κ] in
theorem Isolated.ownBytes {t : Step S κ} (isolated : Isolated t) : OwnBytes t :=
  fun text member => (isolated text member).subset

/-- No message begins in these bytes. -/
def NothingBegins (bytes : List Byte) : Prop := (getPushJson bytes bytes.length).start = -1

instance (bytes : List Byte) : Decidable (NothingBegins bytes) :=
  inferInstanceAs (Decidable (_ = _))

/-- The message that a call of this client finds in the unread bytes and those it receives. -/
def World.completed (w : World S κ) (client : κ) (input : S.Input) : Option Message :=
  completeMessage
    (w.buffer.unread ++ (S.process w.buffer (w.clients client) input).received)

/-- If the call reads bytes and completes a message, no message begins in what the buffer holds
in front of the bytes of its connection. -/
def Apart (t : Step S κ) : Prop :=
  ∀ client input, t.input = .process client input →
    S.hears t.before.buffer (t.before.clients client) input = true →
      t.before.completed client input ≠ none →
        NothingBegins (t.before.buffer.unread.rdrop (t.before.own client))

/-! ## What is asked of a platform -/

/-- What a call does to the unread bytes, and what it hands on. -/
structure Handles (before : PushBuffer S.capacity) (client : S.Client) (input : S.Input)
    (done : Processed S.capacity S.Client) : Prop where
  unread : ∃ index count, done.buffer.unread =
    ((before.unread ++ done.received).set index Byte.nul).drop count
  deaf : S.hears before client input = false → done.received = [] ∧ done.delivered = []
  delivered : ∀ text ∈ done.delivered, ∃ m,
    completeMessage (before.unread ++ done.received) = some m ∧
      text = m.text (before.unread ++ done.received)

/-- A platform that works with its buffer as the two platforms do, with the invariant of it. -/
structure Service.Lawful (S : Service) (Inv : PushBuffer S.capacity → Prop) : Prop where
  begins : ∀ data, Inv ⟨data, 0⟩
  start_inv : ∀ buffer client around, Inv buffer → Inv (S.start buffer client around).buffer
  start_unread : ∀ buffer client around, (S.start buffer client around).overwritten = false →
    (S.start buffer client around).buffer.unread = buffer.unread
  start_delivered : ∀ buffer client around, (S.start buffer client around).delivered = []
  process_inv : ∀ buffer client input, Inv buffer → Inv (S.process buffer client input).buffer
  handles : ∀ buffer client input, Inv buffer →
    Handles buffer client input (S.process buffer client input)

/-! ## The records are right -/

/-- The bytes counted for each client came from its current connection. -/
structure World.Owned (w : World S κ) (client : κ) : Prop where
  fits : w.own client ≤ w.buffer.unread.length
  stems : Stems Byte.nul (w.received client) (w.buffer.unread.rtake (w.own client))

omit [DecidableEq κ] in
theorem World.Owned.of_none {w : World S κ} {client : κ} (none : w.own client = 0) :
    w.Owned client := by
  refine ⟨by omega, ?_⟩
  rw [none, List.rtake_zero]
  exact .nil _

theorem World.Owned.setClient {w : World S κ} {other : κ} (owned : w.Owned other) (client : κ)
    (value : S.Client) : (w.setClient client value).Owned other :=
  ⟨owned.fits, owned.stems⟩

theorem World.Owned.disconnect {w : World S κ} {other : κ} (owned : w.Owned other) (client : κ) :
    (w.disconnect client).Owned other := by
  by_cases same : other = client
  · subst same
    exact .of_none (Function.update_self ..)
  · refine ⟨?_, ?_⟩
    · simp only [World.disconnect, Function.update_of_ne same]
      exact owned.fits
    · simp only [World.disconnect, Function.update_of_ne same]
      exact owned.stems

theorem World.owned_start {Inv : PushBuffer S.capacity → Prop} (lawful : S.Lawful Inv)
    {w : World S κ} (owned : ∀ other, w.Owned other) (client : κ) (around : S.Start) :
    ∀ other, (w.start client around).1.Owned other := by
  intro other
  have unread := lawful.start_unread w.buffer (w.clients client) around
  rw [start]
  generalize S.start w.buffer (w.clients client) around = done at unread
  have next : World.Owned { w.setClient client done.client with
      buffer := done.buffer
      own := if done.overwritten then fun _ => 0 else w.own } other := by
    cases overwritten : done.overwritten with
    | true => exact .of_none rfl
    | false =>
        have same := unread overwritten
        refine ⟨?_, ?_⟩
        · simp only [same]
          exact (owned other).fits
        · simp only [same]
          exact (owned other).stems
  dsimp only
  split
  · exact next.disconnect client
  · exact next

/-- The bytes counted once bytes have arrived. -/
theorem World.stems_arrived {w : World S κ} (owned : ∀ other, w.Owned other) (client : κ)
    (bytes : List Byte) (other : κ) :
    Stems Byte.nul (Function.update w.received client (w.received client ++ bytes) other)
      ((w.buffer.unread ++ bytes).rtake (w.arrived client bytes other)) := by
  by_cases none : bytes = []
  · rw [arrived, if_pos none, none, List.append_nil, List.append_nil, Function.update_eq_self]
    exact (owned other).stems
  rw [arrived, if_neg none]
  by_cases same : other = client
  · subst same
    rw [if_pos rfl, Function.update_self, rtake_append (owned other).fits]
    exact (owned other).stems.append bytes
  · rw [if_neg same, List.rtake_zero]
    exact .nil _

theorem World.owned_process {Inv : PushBuffer S.capacity → Prop} (lawful : S.Lawful Inv)
    {w : World S κ} (inv : Inv w.buffer) (owned : ∀ other, w.Owned other) (client : κ)
    (input : S.Input) : ∀ other, (w.process client input).1.Owned other := by
  intro other
  have handles := lawful.handles w.buffer (w.clients client) input inv
  rw [process]
  generalize S.process w.buffer (w.clients client) input = done at handles
  obtain ⟨index, count, unread⟩ := handles.unread
  refine ⟨Nat.min_le_right .., ?_⟩
  simp only [unread]
  exact (stems_arrived owned client done.received other).rtake_drop_set index count

/-- **In every world of a run the records are right.** -/
theorem World.owned_step {Inv : PushBuffer S.capacity → Prop} (lawful : S.Lawful Inv)
    (w : World S κ) (action : Action S κ) (inv : Inv w.buffer ∧ ∀ other, w.Owned other) :
    Inv (w.step action).1.buffer ∧ ∀ other, (w.step action).1.Owned other := by
  cases action with
  | setPushCallback client callback =>
      exact ⟨inv.1, fun other => (inv.2 other).setClient client _⟩
  | start client around =>
      refine ⟨?_, World.owned_start lawful inv.2 client around⟩
      have kept := lawful.start_inv w.buffer (w.clients client) around inv.1
      rw [step, World.start]
      dsimp only
      split <;> exact kept
  | stop client =>
      exact ⟨inv.1, fun other => ((inv.2 other).setClient client _).disconnect client⟩
  | process client input =>
      exact ⟨lawful.process_inv w.buffer (w.clients client) input inv.1,
        World.owned_process lawful inv.1 inv.2 client input⟩

/-! ## One call -/

/-- What a message is made of that starts behind the bytes of others. -/
theorem text_behind {front back : List Byte} {m : Message} (behind : front.length ≤ m.start) :
    m.text (front ++ back) <:+: back := by
  have start : m.start = front.length + (m.start - front.length) := by omega
  rw [Message.text, start, ← List.drop_drop, List.drop_left]
  exact (List.take_prefix _ _).isInfix.trans (List.drop_suffix _ _).isInfix

theorem start_behind {front back : List Byte} {m : Message} (nothing : NothingBegins front)
    (complete : completeMessage (front ++ back) = some m) : front.length ≤ m.start := by
  rcases getPushJson_completeMessage (front ++ back) with ⟨none, -⟩ | ⟨m', found, -, start, -⟩
  · rw [none] at complete
    cases complete
  · rw [found] at complete
    cases complete
    have behind := getPushJson_start_ge nothing (show 0 ≤ (getPushJson (front ++ back) _).start by
      rw [start]
      exact Int.natCast_nonneg _)
    omega

/-- **A call that finds its connection apart hands on bytes of this connection only.** -/
theorem isolated_of_apart {Inv : PushBuffer S.capacity → Prop} (lawful : S.Lawful Inv)
    {w : World S κ} (inv : Inv w.buffer) (owned : ∀ other, w.Owned other) (action : Action S κ)
    (apart : Apart (fire World.step w action)) : Isolated (fire World.step w action) := by
  intro text member
  cases action with
  | setPushCallback client callback => cases member
  | start client around =>
      have silent := lawful.start_delivered w.buffer (w.clients client) around
      change text ∈ (S.start w.buffer (w.clients client) around).delivered at member
      rw [silent] at member
      cases member
  | stop client => cases member
  | process client input =>
      have handles := lawful.handles w.buffer (w.clients client) input inv
      have stems := World.stems_arrived owned client
        (S.process w.buffer (w.clients client) input).received client
      have begins := apart client input rfl
      rw [fire, World.completed] at begins
      change text ∈ (S.process w.buffer (w.clients client) input).delivered at member
      change text <:+: Function.update w.received client (w.received client ++
        (S.process w.buffer (w.clients client) input).received) client
      generalize S.process w.buffer (w.clients client) input = done
        at handles stems begins member ⊢
      have heard : S.hears w.buffer (w.clients client) input = true := by
        by_contra deaf
        rw [(handles.deaf (Bool.not_eq_true _ ▸ deaf)).2] at member
        cases member
      obtain ⟨m, complete, rfl⟩ := handles.delivered text member
      have nothing := begins heard (complete ▸ Option.some_ne_none m)
      have noNul := (isIn_of_completeMessage complete).noNul
      have split : w.buffer.unread ++ done.received = w.buffer.unread.rdrop (w.own client) ++
          (w.buffer.unread.rtake (w.own client) ++ done.received) := by
        rw [← List.append_assoc, rdrop_append_rtake]
      have own : Stems Byte.nul (w.received client ++ done.received)
          (w.buffer.unread.rtake (w.own client) ++ done.received) :=
        (owned client).stems.append done.received
      rw [Function.update_self]
      rw [split] at complete noNul ⊢
      exact own.piece (text_behind (start_behind nothing complete)) noNul

/-- **In every run each call that finds its connection apart is isolated.** -/
theorem run_isolated {Inv : PushBuffer S.capacity → Prop} (lawful : S.Lawful Inv)
    (data : Block Byte S.capacity) (clients : κ → S.Client) (actions : List (Action S κ)) :
    ∀ t ∈ run World.step (World.begin data clients) actions, Apart t → Isolated t :=
  run_forall World.step (fun w => Inv w.buffer ∧ ∀ other, w.Owned other)
    (fun t => Apart t → Isolated t) (World.owned_step lawful)
    (fun _ action inv => isolated_of_apart lawful inv.1 inv.2 action) actions
    ⟨lawful.begins data, fun _ => .of_none rfl⟩

end ParseEmbedded.Push
