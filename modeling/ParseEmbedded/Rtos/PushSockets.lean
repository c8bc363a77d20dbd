import ParseEmbedded.Rtos.PushBuffer
import ParseEmbedded.Rtos.RequestSockets

/-!
# The sockets of the push service on an RTOS

The client has one field for the socket of the push service, and the functions of `push.c` test it
in three ways: `parseStartPushService` not at all, `parseRunPushLoop` against -1, and
`parseProcessNextPushNotification` for a value above 0. `push_socket_iff` relates the field to the
sockets that are open in every run of the three functions.

The service is started where the field is not -1, the value that `parseInitialize` and
`parseStopPushService` store. A ping that fails is a part of a call of
`parseProcessNextPushNotification`.
-/

set_option autoImplicit false

namespace ParseEmbedded.Rtos

open Push Handles Runs

/-! ## The service -/

/-- The client, its receive buffer and the push sockets that are open. -/
structure SocketService where
  client : ParseClientInternal
  buffer : PushDataBuffer
  opened : Finset Int

/-- A call of the service, with what it meets. `getInstallation` has made sure of the identifier
of the client. -/
inductive ServiceCall where
  | start (installationId : CString) (dialing : Dialing) (send : Int)
  | stop
  | process (reads : List (List SocketRound)) (isPingTime : Bool) (send : Int)

def Event.use : Event → Option (Use Int)
  | .socketClose socketHandle => some (.closed socketHandle)
  | _ => none

/-- The socket of each `socketRead` of the receive loop. -/
def receiveReads (socketHandle : Int) : List (List SocketRound) → Loop → List Int
  | [], loop => if loop.goesOn then [socketHandle] else []
  | rounds :: reads, loop =>
      if loop.goesOn then
        let (reading, len) := loop.socketRead socketHandle rounds
        socketHandle ::
          if len > 0 then receiveReads socketHandle reads (loop.look reading len) else []
      else []

/-- The socket of each `socketRead` of a call. -/
def socketReads (buffer : PushDataBuffer) (call : Call) : List Int :=
  if call.client.socketHandle > 0 then
    receiveReads call.client.socketHandle call.reads (.begin buffer)
  else []

/-- A call, and the sockets it reads from. -/
def serviceStep (s : SocketService) : ServiceCall → SocketService × List Int
  | .start installationId dialing send =>
      let connected := socketSslConnect dialing
      let started := parseStartPushService s.buffer s.client ⟨installationId, connected.1, send⟩
      (⟨started.2.client, started.1,
        live (live s.opened connected.2) (started.2.events.filterMap Event.use)⟩, [])
  | .stop =>
      let (client, events) := parseStopPushService s.client
      ({ s with client, opened := live s.opened (events.filterMap Event.use) }, [])
  | .process reads isPingTime send =>
      let call : Call := ⟨s.client, reads, isPingTime, send⟩
      let served := parseProcessNextPushNotification s.buffer call
      (⟨served.2.client, served.1, live s.opened (served.2.events.filterMap Event.use)⟩,
        socketReads s.buffer call)

abbrev ServiceTransition := Runs.Transition SocketService ServiceCall (List Int)

def SocketService.Started (s : SocketService) : Prop := s.client.socketHandle ≠ -1

instance (s : SocketService) : Decidable s.Started := inferInstanceAs (Decidable (_ ≠ _))

/-- The socket of the client is the one that is open. -/
def SocketService.Exact (s : SocketService) : Prop :=
  s.opened = if s.Started then {s.client.socketHandle} else ∅

instance (s : SocketService) : Decidable s.Exact := inferInstanceAs (Decidable (_ = _))

/-- The driver gives out no socket that is open. -/
def GivesFresh (t : ServiceTransition) : Prop :=
  match t.input with
  | .start _ dialing _ => ∀ handle, .opened handle ∈ (socketSslConnect dialing).2 →
      handle ∉ t.before.opened
  | _ => True

/-- What the service promises of a call. Starting it again changes nothing, besides what
`getInstallation` does. -/
structure Lifecycle (t : ServiceTransition) : Prop where
  exact : t.after.Exact
  start : ∀ installationId dialing send, t.input = .start installationId dialing send →
    t.before.Started →
      t.after = { t.before with client := { t.before.client with installationId } }
  reads : ∀ reads isPingTime send, t.input = .process reads isPingTime send → t.before.Started →
    t.output ≠ [] ∧ ∀ handle ∈ t.output, handle = t.before.client.socketHandle

/-- The service is not started again, unless the new socket cannot be used and the handshake is in
the buffer already; and while it is started its socket is not 0 and its fill count not -1. -/
def KeepsOneSocket (t : ServiceTransition) : Prop :=
  match t.input with
  | .start installationId dialing send => t.before.Started →
      (socketSslConnect dialing).1 < 0 ∨
        (send < 0 ∧ buildHandshake t.before.buffer { t.before.client with installationId } =
          t.before.buffer)
  | .stop => True
  | .process _ _ _ => t.before.Started →
      t.before.client.socketHandle ≠ 0 ∧ 0 ≤ t.before.buffer.used

/-- What holds in between. -/
structure SocketService.Sound (s : SocketService) : Prop where
  exact : s.Exact
  handle : -1 ≤ s.client.socketHandle
  bounded : Bounded s.buffer

/-! ## What a call does -/

theorem handshake_ne_nil (client : ParseClientInternal) : handshake client ≠ [] := by
  rw [handshake, snprintf]
  exact fun empty => absurd (List.take_eq_nil_iff.mp empty) (by simp [ascii])

theorem call_uses (client : ParseClientInternal) (error : Int) (message : Option CString) :
    (client.call error message).filterMap Event.use = [] := by
  rw [ParseClientInternal.call]
  split
  · rfl
  · rfl

theorem rememberTime_uses (client : ParseClientInternal) (message : CString) :
    (rememberTime client message).1.socketHandle = client.socketHandle ∧
      (rememberTime client message).2.filterMap Event.use = [] := by
  rw [rememberTime]
  split
  · refine ⟨rfl, ?_⟩
    dsimp only
    split
    · rfl
    · rfl
  · exact ⟨rfl, rfl⟩

/-- A ping keeps the socket, or closes it and stops the service. -/
theorem sendPing_uses (client : ParseClientInternal) (isPingTime : Bool) (send : Int) :
    ((sendPing client isPingTime send).1.socketHandle = client.socketHandle ∧
        (sendPing client isPingTime send).2.filterMap Event.use = []) ∨
      ((sendPing client isPingTime send).1.socketHandle = -1 ∧
        (sendPing client isPingTime send).2.filterMap Event.use =
          [.closed client.socketHandle]) := by
  rw [sendPing]
  split
  · dsimp only
    split
    · split
      · refine Or.inr ⟨rfl, ?_⟩
        rw [List.filterMap_cons_none rfl, List.filterMap_append, call_uses]
        rfl
      · exact Or.inl ⟨rfl, rfl⟩
    · exact Or.inl ⟨rfl, rfl⟩
  · exact Or.inl ⟨rfl, rfl⟩

/-- So does a call that processes what has been received. -/
theorem process_uses (buffer : PushDataBuffer) (call : Call) :
    let out := (parseProcessNextPushNotification buffer call).2
    (out.client.socketHandle = call.client.socketHandle ∧ out.events.filterMap Event.use = []) ∨
      (out.client.socketHandle = -1 ∧
        out.events.filterMap Event.use = [.closed call.client.socketHandle]) := by
  have nothing : ∀ loop, let out := (processNothing call loop).2
      (out.client.socketHandle = call.client.socketHandle ∧
          out.events.filterMap Event.use = []) ∨
        (out.client.socketHandle = -1 ∧
          out.events.filterMap Event.use = [.closed call.client.socketHandle]) :=
    fun loop => sendPing_uses call.client call.isPingTime call.send
  rw [parseProcessNextPushNotification]
  split
  · rw [processReceived]
    split
    · exact Or.inl ⟨rfl, rfl⟩
    split
    · split
      · rename_i index _ _
        obtain ⟨same, saved⟩ := rememberTime_uses call.client
          (((receiveLoop call.client.socketHandle call.reads (.begin buffer)).buffer.terminate
            (index + (receiveLoop call.client.socketHandle call.reads
              (.begin buffer)).length.toNat)).string index)
        refine Or.inl ⟨same, ?_⟩
        rw [processMessage]
        dsimp only
        rw [List.filterMap_append, saved, List.nil_append]
        split
        · rfl
        · exact call_uses _ _ _
      · exact nothing _
    · exact nothing _
  · exact Or.inl ⟨rfl, rfl⟩

/-- Only the socket of the client is read from. -/
theorem receiveReads_own (socketHandle : Int) (reads : List (List SocketRound)) :
    ∀ loop, ∀ handle ∈ receiveReads socketHandle reads loop, handle = socketHandle := by
  induction reads with
  | nil =>
      intro loop handle member
      rw [receiveReads] at member
      split at member
      · exact List.mem_singleton.mp member
      · exact absurd member List.not_mem_nil
  | cons rounds reads ih =>
      intro loop handle member
      rw [receiveReads] at member
      split at member
      · generalize loop.socketRead socketHandle rounds = read at member
        rcases List.mem_cons.mp member with rfl | member
        · rfl
        by_cases some : read.2 > 0
        · rw [if_pos some] at member
          exact ih _ handle member
        · rw [if_neg some] at member
          exact absurd member List.not_mem_nil
      · exact absurd member List.not_mem_nil

/-- The loop reads at all if its condition holds at first. -/
theorem receiveReads_ne_nil (socketHandle : Int) (reads : List (List SocketRound)) (loop : Loop) :
    receiveReads socketHandle reads loop ≠ [] ↔ loop.goesOn = true := by
  cases reads with
  | nil =>
      rw [receiveReads]
      split <;> simp_all
  | cons rounds reads =>
      rw [receiveReads]
      split <;> simp_all

/-- A call reads if its socket is above 0 and the fill count is not -1. -/
theorem socketReads_ne_nil {buffer : PushDataBuffer} (bounded : Bounded buffer) (call : Call) :
    socketReads buffer call ≠ [] ↔ 0 < call.client.socketHandle ∧ 0 ≤ buffer.used := by
  rw [socketReads]
  split
  · rename_i isOpen
    rw [receiveReads_ne_nil, Loop.goesOn_iff bounded.1 bounded.2]
    exact ⟨fun goesOn => ⟨isOpen, goesOn.2⟩, fun reads => ⟨rfl, reads.2⟩⟩
  · rename_i isClosed
    exact iff_of_false (fun h => h rfl) fun reads => isClosed reads.1

/-! ## One call -/

theorem serviceStep_process (s : SocketService) (reads : List (List SocketRound))
    (isPingTime : Bool) (send : Int) :
    let served := parseProcessNextPushNotification s.buffer ⟨s.client, reads, isPingTime, send⟩
    (serviceStep s (.process reads isPingTime send)).1 =
      ⟨served.2.client, served.1, live s.opened (served.2.events.filterMap Event.use)⟩ := rfl

/-- The three outcomes of starting the service. -/
theorem start_uses (buffer : PushDataBuffer) (client : ParseClientInternal)
    (around : Surroundings) :
    let started := parseStartPushService buffer client around
    let client := { client with installationId := around.installationId }
    (started.2.client, started.1, started.2.events.filterMap Event.use) =
      if around.socketHandle < 0 then (client, buffer, [])
      else if around.send < 0 then
        (client, buildHandshake buffer client, [.closed around.socketHandle])
      else
        ({ client with socketHandle := around.socketHandle }, buildHandshake buffer client,
          []) := by
  rw [parseStartPushService]
  dsimp only
  by_cases failed : around.socketHandle < 0
  · rw [if_neg (Int.not_le.mpr failed), if_pos failed]
    dsimp only
    rw [call_uses]
  have written : socketWrite around.socketHandle
      (handshake { client with installationId := around.installationId }) around.send =
        around.send := by
    rw [socketWrite, if_neg failed, if_pos (List.length_pos_iff.mpr (handshake_ne_nil _))]
  rw [if_pos (Int.not_lt.mp failed), if_neg failed, written]
  by_cases unsent : around.send < 0
  · rw [if_pos unsent, if_pos unsent]
    dsimp only
    rw [List.filterMap_cons_none rfl, List.filterMap_cons, call_uses]
    rfl
  · rw [if_neg unsent, if_neg unsent]
    rfl

theorem serviceStep_start (s : SocketService) (installationId : CString) (dialing : Dialing)
    (send : Int) :
    let started := parseStartPushService s.buffer s.client
      ⟨installationId, (socketSslConnect dialing).1, send⟩
    (serviceStep s (.start installationId dialing send)).1 =
      ⟨started.2.client, started.1, live (live s.opened (socketSslConnect dialing).2)
        (started.2.events.filterMap Event.use)⟩ := rfl

section Step

variable {s : SocketService} (sound : s.Sound)

include sound

/-- A fresh socket that is closed at once makes no difference. -/
theorem live_failed {dialing : Dialing}
    (fresh : ∀ handle, .opened handle ∈ (socketSslConnect dialing).2 → handle ∉ s.opened)
    (failed : (socketSslConnect dialing).1 < 0) :
    live s.opened (socketSslConnect dialing).2 = s.opened := by
  have noHandle : -1 ∉ s.opened := by
    rw [sound.exact]
    split
    · rename_i started
      exact fun member => started (Finset.mem_singleton.mp member).symm
    · exact Finset.notMem_empty (-1)
  rcases socketSslConnect_uses dialing with ⟨connected, -⟩ | ⟨-, closes | ⟨handle, -, closes⟩⟩
  · exact absurd failed (Int.not_lt.mpr connected)
  · rw [closes]
    exact Finset.erase_eq_of_notMem noHandle
  · rw [closes] at fresh ⊢
    exact Finset.erase_insert (fresh handle (List.mem_cons_self ..))

theorem erase_own : s.opened.erase s.client.socketHandle = ∅ := by
  rw [sound.exact]
  split
  · exact Finset.erase_singleton _
  · rfl

theorem stop_step : Lifecycle (fire serviceStep s .stop) ∧ (serviceStep s .stop).1.Sound := by
  have isExact : (serviceStep s .stop).1.Exact := erase_own sound
  refine ⟨⟨isExact, ?_, ?_⟩, isExact, Int.le_refl (-1), sound.bounded⟩
  · intro _ _ _ same
    cases same
  · intro _ _ _ same
    cases same

theorem process_step (reads : List (List SocketRound)) (isPingTime : Bool) (send : Int) :
    (KeepsOneSocket (fire serviceStep s (.process reads isPingTime send)) ↔
        Lifecycle (fire serviceStep s (.process reads isPingTime send))) ∧
      (serviceStep s (.process reads isPingTime send)).1.Sound := by
  have after : (serviceStep s (.process reads isPingTime send)).1.Sound := by
    have bounded := (process_served sound.bounded ⟨s.client, reads, isPingTime, send⟩).1.bounded
      sound.bounded
    have uses := process_uses s.buffer ⟨s.client, reads, isPingTime, send⟩
    rw [serviceStep_process]
    generalize parseProcessNextPushNotification s.buffer ⟨s.client, reads, isPingTime, send⟩ =
      served at uses bounded ⊢
    rcases uses with ⟨same, none⟩ | ⟨off, closes⟩
    · refine ⟨?_, same.symm ▸ sound.handle, bounded⟩
      change live _ _ = if served.2.client.socketHandle ≠ -1 then {served.2.client.socketHandle}
        else ∅
      rw [none, same]
      exact sound.exact
    · refine ⟨?_, off.symm ▸ Int.le_refl (-1), bounded⟩
      change live _ _ = if served.2.client.socketHandle ≠ -1 then {served.2.client.socketHandle}
        else ∅
      rw [closes, off]
      exact erase_own sound
  refine ⟨?_, after⟩
  have reading := socketReads_ne_nil sound.bounded ⟨s.client, reads, isPingTime, send⟩
  have handle := sound.handle
  constructor
  · intro keeps
    refine ⟨after.exact, fun _ _ _ same => ?_, fun _ _ _ same started => ?_⟩
    · cases same
    cases same
    obtain ⟨nonzero, used⟩ := keeps started
    change s.client.socketHandle ≠ -1 at started
    refine ⟨reading.mpr ⟨?_, used⟩, fun handle member => ?_⟩
    · change 0 < s.client.socketHandle
      change s.client.socketHandle ≠ 0 at nonzero
      omega
    · change handle ∈ socketReads s.buffer _ at member
      rw [socketReads] at member
      split at member
      · exact receiveReads_own _ _ _ handle member
      · exact absurd member List.not_mem_nil
  · intro lifecycle started
    obtain ⟨isOpen, used⟩ := reading.mp (lifecycle.reads _ _ _ rfl started).1
    exact ⟨Int.ne_of_gt isOpen, used⟩

theorem start_step (installationId : CString) (dialing : Dialing) (send : Int)
    (fresh : GivesFresh (fire serviceStep s (.start installationId dialing send))) :
    (KeepsOneSocket (fire serviceStep s (.start installationId dialing send)) ↔
        Lifecycle (fire serviceStep s (.start installationId dialing send))) ∧
      (KeepsOneSocket (fire serviceStep s (.start installationId dialing send)) →
        (serviceStep s (.start installationId dialing send)).1.Sound) := by
  change ∀ handle, .opened handle ∈ (socketSslConnect dialing).2 → handle ∉ s.opened at fresh
  have stays := live_failed sound fresh
  have opens : 0 ≤ (socketSslConnect dialing).1 →
      (socketSslConnect dialing).2 = [.opened (socketSslConnect dialing).1] := by
    intro connected
    rcases socketSslConnect_uses dialing with ⟨-, opens⟩ | ⟨failed, -⟩
    · exact opens
    · exact absurd failed (Int.not_lt.mpr connected)
  have next := start_uses s.buffer s.client
    ⟨installationId, (socketSslConnect dialing).1, send⟩
  have outcome := serviceStep_start s installationId dialing send
  dsimp only at next outcome
  generalize parseStartPushService s.buffer s.client
    ⟨installationId, (socketSslConnect dialing).1, send⟩ = started at next outcome
  have lifecycle : Lifecycle (fire serviceStep s (.start installationId dialing send)) ↔
      (serviceStep s (.start installationId dialing send)).1.Exact ∧
        (s.Started → (serviceStep s (.start installationId dialing send)).1 =
          { s with client := { s.client with installationId } }) := by
    constructor
    · intro cycle
      exact ⟨cycle.exact, cycle.start _ _ _ rfl⟩
    · rintro ⟨isExact, nothing⟩
      refine ⟨isExact, fun _ _ _ same => ?_, fun _ _ _ same => ?_⟩
      · cases same
        exact nothing
      · cases same
  rw [lifecycle]
  change ((s.Started → (socketSslConnect dialing).1 < 0 ∨ (send < 0 ∧
      buildHandshake s.buffer { s.client with installationId } = s.buffer)) ↔ _) ∧
    ((s.Started → (socketSslConnect dialing).1 < 0 ∨ (send < 0 ∧
      buildHandshake s.buffer { s.client with installationId } = s.buffer)) → _)
  rw [outcome]
  have bounded := sound.bounded
  generalize (socketSslConnect dialing).1 = socketHandle at *
  by_cases failed : socketHandle < 0
  · rw [if_pos failed] at next
    obtain ⟨client, rest⟩ := Prod.mk.inj next
    obtain ⟨buffer, uses⟩ := Prod.mk.inj rest
    rw [client, buffer, uses, live_nil, stays failed]
    exact ⟨iff_of_true (fun _ => Or.inl failed) ⟨sound.exact, fun _ => rfl⟩,
      fun _ => ⟨sound.exact, sound.handle, sound.bounded⟩⟩
  rw [if_neg failed] at next
  have connected := Int.not_lt.mp failed
  rw [opens connected] at fresh ⊢
  have isFresh := fresh socketHandle (List.mem_cons_self ..)
  have other : ∀ {P : Prop}, (s.Started → socketHandle < 0 ∨ P) ↔ (s.Started → P) :=
    fun {P} => forall_congr' fun _ => or_iff_right failed
  rw [other]
  by_cases unsent : send < 0
  · -- the new socket is closed again, and the handshake is in the buffer
    rw [if_pos unsent] at next
    obtain ⟨client, rest⟩ := Prod.mk.inj next
    obtain ⟨buffer, uses⟩ := Prod.mk.inj rest
    have same : live (live s.opened [.opened socketHandle]) [.closed socketHandle] = s.opened :=
      Finset.erase_insert isFresh
    rw [client, buffer, uses, same]
    have after :
        (⟨{ s.client with installationId },
          buildHandshake s.buffer { s.client with installationId },
          s.opened⟩ : SocketService).Sound :=
      ⟨sound.exact, sound.handle, bounded⟩
    refine ⟨⟨fun keeps => ⟨after.exact, fun isStarted => ?_⟩, fun cycle isStarted => ?_⟩,
      fun _ => after⟩
    · rw [(keeps isStarted).2]
    · exact ⟨unsent, congrArg SocketService.buffer (cycle.2 isStarted)⟩
  · rw [if_neg unsent] at next
    obtain ⟨client, rest⟩ := Prod.mk.inj next
    obtain ⟨buffer, uses⟩ := Prod.mk.inj rest
    rw [client, buffer, uses, live_nil]
    have valid : socketHandle ≠ -1 := fun same => absurd connected (same ▸ by decide)
    by_cases isStarted : s.Started
    · -- two sockets are open
      have one : s.opened = {s.client.socketHandle} := sound.exact.trans (if_pos isStarted)
      refine ⟨iff_of_false (fun keeps => unsent (keeps isStarted).1) fun cycle => ?_,
        fun keeps => absurd (keeps isStarted).1 unsent⟩
      have both : insert socketHandle s.opened = {socketHandle} :=
        cycle.1.trans (if_pos valid)
      have old : s.client.socketHandle ∈ ({socketHandle} : Finset Int) := by
        rw [← both, one]
        exact Finset.mem_insert_of_mem (Finset.mem_singleton_self _)
      rw [one] at isFresh
      exact isFresh (Finset.mem_singleton.mpr (Finset.mem_singleton.mp old).symm)
    · have none : s.opened = ∅ := sound.exact.trans (if_neg isStarted)
      have isExact : (⟨{ s.client with installationId, socketHandle },
          buildHandshake s.buffer { s.client with installationId },
          live s.opened [.opened socketHandle]⟩ : SocketService).Exact := by
        refine Eq.trans ?_ (if_pos valid).symm
        rw [none]
        rfl
      exact ⟨iff_of_true (fun h => absurd h isStarted) ⟨isExact, fun h => absurd h isStarted⟩,
        fun _ => ⟨isExact, Int.le_trans (by decide) connected, bounded⟩⟩

end Step

/-! ## Runs -/

/-- **When the push service keeps one socket.** Where the driver gives out no socket that is open,
every call of a run leaves the socket of the client open and no other one, starting the service
again changes nothing, and while it is started its socket is read from, if and only if every call
of the run meets the condition. -/
theorem push_socket_iff {client : ParseClientInternal} (closed : client.socketHandle = -1)
    (data : Block Byte 1024) (calls : List ServiceCall)
    (fresh : ∀ t ∈ run serviceStep ⟨client, unfilled data, ∅⟩ calls, GivesFresh t) :
    (∀ t ∈ run serviceStep ⟨client, unfilled data, ∅⟩ calls, KeepsOneSocket t) ↔
      ∀ t ∈ run serviceStep ⟨client, unfilled data, ∅⟩ calls, Lifecycle t := by
  have init : (⟨client, unfilled data, ∅⟩ : SocketService).Sound :=
    ⟨(if_neg (not_not.mpr closed)).symm, closed ▸ Int.le_refl (-1), unfilled_bounded data⟩
  refine run_forall_iff_promised serviceStep SocketService.Sound GivesFresh KeepsOneSocket
    Lifecycle
    (fun s call sound fresh => ?_) (fun s call sound fresh keeps => ?_) calls init fresh
  · cases call with
    | start installationId dialing send =>
        exact (start_step sound installationId dialing send fresh).1
    | stop => exact iff_of_true trivial (stop_step sound).1
    | process reads isPingTime send => exact (process_step sound reads isPingTime send).1
  · cases call with
    | start installationId dialing send =>
        exact (start_step sound installationId dialing send fresh).2 keeps
    | stop => exact (stop_step sound).2
    | process reads isPingTime send => exact (process_step sound reads isPingTime send).2

section Example

def stoppedClient : ParseClientInternal := { openClient with socketHandle := -1 }

def exampleService : SocketService := ⟨stoppedClient, unfilled (Block.fill 1024 Byte.nul), ∅⟩

def startingOver (socketHandle : Int) : ServiceCall :=
  .start (CString.literal "id") (reachedOver socketHandle) 1

theorem startingOver_fresh {s : SocketService} {socketHandle : Int} (valid : 0 ≤ socketHandle)
    (fresh : socketHandle ∉ s.opened) :
    GivesFresh (fire serviceStep s (startingOver socketHandle)) := by
  intro handle opened
  have uses : (socketSslConnect (reachedOver socketHandle)).2 = [.opened socketHandle] := by
    simp [socketSslConnect, reachedOver, Dialing.prepare, proceed, valid]
  rw [uses] at opened
  obtain rfl : handle = socketHandle := by simpa using opened
  exact fresh

/-- The last socket of this client has been closed by its pings. -/
def failingService : SocketService :=
  ⟨{ stoppedClient with nFailedPing := 21 }, unfilled (Block.fill 1024 Byte.nul), ∅⟩

/-- The service receives a message, a ping fails again and closes its socket, and it is started on
another one and stopped. -/
def twiceCalls : List ServiceCall :=
  [startingOver 1, .process [[⟨1, 0, .bytes (ascii "\x7b\"a\":1\x7d\n")⟩]] false 0,
    .process [] true (-1), startingOver 2, .stop]

theorem push_socket_example :
    (∀ t ∈ run serviceStep failingService twiceCalls, GivesFresh t) ∧
      ∀ t ∈ run serviceStep failingService twiceCalls, Lifecycle t := by
  have fresh : ∀ t ∈ run serviceStep failingService twiceCalls, GivesFresh t := by
    simp only [twiceCalls, run_cons, run_nil, List.forall_mem_cons]
    exact ⟨startingOver_fresh (by decide) (by decide), trivial, trivial,
      startingOver_fresh (by decide) (by decide +kernel), trivial,
      fun t member => absurd member List.not_mem_nil⟩
  refine ⟨fresh, (push_socket_iff rfl _ _ fresh).mp ?_⟩
  simp only [twiceCalls, run_cons, run_nil, List.forall_mem_cons]
  refine ⟨fun isStarted => absurd rfl isStarted, fun _ => ?_, fun _ => ?_, fun isStarted => ?_,
    trivial, fun t member => absurd member List.not_mem_nil⟩
  · decide +kernel
  · decide +kernel
  · exact absurd isStarted (by decide +kernel)

/-- The service is started twice: the first socket stays open. -/
def startedTwice : ServiceTransition :=
  fire serviceStep (final serviceStep exampleService [startingOver 1]) (startingOver 2)

/-- The service runs on socket 0, and does not read from it. -/
def startedOnZero : ServiceTransition :=
  fire serviceStep (final serviceStep exampleService [startingOver 0]) (.process [] false 0)

theorem push_socket_counterexample :
    (∃ calls, startedTwice ∈ run serviceStep exampleService calls) ∧ GivesFresh startedTwice ∧
      ¬ Lifecycle startedTwice ∧
      (∃ calls, startedOnZero ∈ run serviceStep exampleService calls) ∧
      GivesFresh startedOnZero ∧ ¬ Lifecycle startedOnZero := by
  refine ⟨⟨_, fire_final_mem _ _ _ _⟩, ?_, ?_, ⟨_, fire_final_mem _ _ _ _⟩, trivial, ?_⟩
  · exact startingOver_fresh (by decide) (by decide +kernel)
  · intro cycle
    exact absurd cycle.exact (by decide +kernel)
  · intro cycle
    have silent : startedOnZero.output = [] := by decide +kernel
    have isStarted : startedOnZero.before.Started := by decide +kernel
    exact (cycle.reads _ _ _ rfl isStarted).1 silent

end Example

end ParseEmbedded.Rtos
