import ParseEmbedded.Push.Service
import ParseEmbedded.Rtos.PushBuffer
import ParseEmbedded.Unix.PushStep

/-!
# Isolation of push connections

The two implementations as services (`Unix.service`, `Rtos.service`). A call on one connection
reads behind what the calls on other connections have left in the buffer, so a message can be
made of the bytes of several connections. `push_isolated` says when it is not: when no message
begins in what others have left, as long as the call completes one.
-/

set_option autoImplicit false

namespace ParseEmbedded

open SimpleJson Push Runs

/-! ## Unix -/

namespace Unix

/-- The Unix implementation. A call takes the answers of its connection and the time. -/
def service (word : WordSize) : Service where
  capacity := 2048
  Client := ParseClientInternal
  Start := Surroundings
  Input := List RecvAnswer × Nat
  setPushCallback := parseSetPushCallback
  start buffer client around :=
    let done := parseStartPushService client around
    { buffer
      client := done.client
      connected := client.pushCurlHandle = none ∧ done.client.pushCurlHandle ≠ none
      overwritten := false
      delivered := done.events.filterMap Event.delivered }
  stop client := (parseStopPushService client).1
  hears _ client input := Call.hears ⟨client, input.1, input.2⟩
  process buffer client input :=
    let done := parseProcessNextPushNotification word buffer ⟨client, input.1, input.2⟩
    ⟨done.1, done.2.client, done.2.received, done.2.delivered⟩

/-- Starting passes nothing to the callback. -/
theorem start_delivered (client : ParseClientInternal) (around : Surroundings) :
    (parseStartPushService client around).events.filterMap Event.delivered = [] := by
  have created : (parseCreateInstallationIdIfNeeded client around).2.filterMap
      Event.delivered = [] := by
    rw [parseCreateInstallationIdIfNeeded]
    split <;> rfl
  rw [parseStartPushService]
  split
  · rfl
  dsimp only
  split
  · exact created
  split
  · exact created
  split
  · exact created
  split
  · exact created
  split
  · exact created
  · rw [List.filterMap_append, created]
    rfl

theorem service_lawful (word : WordSize) : (service word).Lawful Bounded where
  begins := unfilled_bounded
  start_inv := fun _ _ _ inv => inv
  start_unread := fun _ _ _ _ => rfl
  start_delivered := fun _ => start_delivered
  process_inv := fun buffer client input inv =>
    (process_served word inv ⟨client, input.1, input.2⟩).bounded inv
  handles := by
    intro buffer client input inv
    have served := process_served word inv ⟨client, input.1, input.2⟩
    have silent : ∀ {out : Processed}, out.handed = [] → out.delivered = [] := by
      intro out nothing
      refine List.eq_nil_iff_forall_not_mem.mpr fun text member => ?_
      have handed := out.handed_of_delivered member
      rw [nothing] at handed
      cases handed
    refine ⟨?_, fun deaf => ⟨received_of_deaf word buffer deaf, ?_⟩, ?_⟩
    · cases served with
      | kept incomplete unread =>
          refine ⟨(buffered (fire (pushStep word) buffer ⟨client, input.1, input.2⟩)).length, 0, ?_⟩
          exact unread.trans (List.set_eq_of_length_le (Nat.le_refl _)).symm
      | dropped incomplete nonneg nothing full used =>
          refine ⟨0, (buffered (fire (pushStep word) buffer
            ⟨client, input.1, input.2⟩)).length, ?_⟩
          refine (PushBuffer.unread_of_nonpos (Int.le_of_eq used)).trans ?_
          exact (List.drop_of_length_le (Nat.le_of_eq List.length_set)).symm
      | served m complete nonneg unread => exact ⟨_, _, unread⟩
    · cases served with
      | kept incomplete unread used upper stuck handed => exact silent handed
      | dropped incomplete nonneg nothing full used handed => exact silent handed
      | served m complete =>
          have deaf : Call.hears ⟨client, input.1, input.2⟩ = false := deaf
          rw [completion, if_neg (by simp [fire, deaf])] at complete
          cases complete
    · intro text member
      have handed := Processed.handed_of_delivered member
      cases served with
      | kept incomplete unread used upper stuck nothing =>
          exact absurd handed (nothing ▸ List.not_mem_nil)
      | dropped incomplete nonneg _ full used nothing =>
          exact absurd handed (nothing ▸ List.not_mem_nil)
      | served m complete nonneg unread used upper is =>
          exact ⟨m, completeMessage_of_completion complete, is text handed⟩

end Unix

/-! ## RTOS -/

namespace Rtos

/-- The inputs of a call besides its client. -/
structure Input where
  reads : List (List SocketRound)
  isPingTime : Bool
  send : Int

def Input.call (input : Input) (client : ParseClientInternal) : Call :=
  ⟨client, input.reads, input.isPingTime, input.send⟩

/-- The RTOS implementation. Starting overwrites the buffer once it has a socket. -/
def service : Service where
  capacity := 1024
  Client := ParseClientInternal
  Start := Surroundings
  Input := Input
  setPushCallback := parseSetPushCallback
  start buffer client around :=
    let done := parseStartPushService buffer client around
    { buffer := done.1
      client := done.2.client
      connected := done.2.result ≥ 0
      overwritten := around.socketHandle ≥ 0
      delivered := done.2.delivered }
  stop client := (parseStopPushService client).1
  hears buffer client input := Rtos.hears buffer (input.call client)
  process buffer client input :=
    let done := parseProcessNextPushNotification buffer (input.call client)
    ⟨done.1, done.2.client, done.2.received, done.2.delivered⟩

theorem service_lawful : service.Lawful Bounded where
  begins := unfilled_bounded
  start_inv := fun buffer client around inv => by
    have used := (start_guarded buffer client around).1
    exact ⟨used ▸ inv.1, used ▸ inv.2⟩
  start_unread := by
    intro buffer client around kept
    exact congrArg PushBuffer.unread (start_failed buffer client (of_decide_eq_false kept))
  start_delivered := start_delivered
  process_inv := fun buffer client input inv =>
    (process_served inv (input.call client)).1.bounded inv
  handles := by
    intro buffer client input inv
    obtain ⟨served, -⟩ := process_served inv (input.call client)
    cases served with
    | kept unread used upper incomplete silent delivered =>
        refine ⟨⟨_, 0, unread.trans (List.set_eq_of_length_le (Nat.le_refl _)).symm⟩, ?_, ?_⟩
        · exact fun deaf => ⟨silent deaf, delivered⟩
        · intro text member
          change text ∈ (parseProcessNextPushNotification buffer (input.call client)).2.delivered
            at member
          rw [delivered] at member
          cases member
    | served m heard nonneg complete unread used upper delivered =>
        refine ⟨⟨_, _, unread⟩, ?_, ?_⟩
        · exact fun deaf => absurd (heard.symm.trans deaf) (by decide)
        · exact fun text member => ⟨m, complete, delivered text member⟩

end Rtos

/-! ## Both implementations -/

inductive Implementation where
  | unix (word : WordSize)
  | rtos
  deriving DecidableEq

def Implementation.service : Implementation → Service
  | .unix word => Unix.service word
  | .rtos => Rtos.service

/-- **When push connections are isolated.** -/
theorem push_isolated (implementation : Implementation) {κ : Type} [DecidableEq κ]
    (data : Block Byte implementation.service.capacity)
    (clients : κ → implementation.service.Client)
    (actions : List (Action implementation.service κ)) (t : Step implementation.service κ)
    (member : t ∈ run World.step (World.begin data clients) actions) (apart : Apart t) :
    Isolated t := by
  cases implementation with
  | unix word =>
      exact run_isolated (Unix.service_lawful word) data clients actions t member apart
  | rtos => exact run_isolated Rtos.service_lawful data clients actions t member apart

/-- Half a message, and the other half. -/
def firstHalf : List Byte := ascii "\x7b\"a\":"

def secondHalf : List Byte := ascii "1\x7d\n"

/-- A read that has bytes. -/
def Rtos.Input.hearing (bytes : List Byte) : Rtos.Input where
  reads := [[⟨1, 0, .bytes bytes⟩]]
  isPingTime := false
  send := 0

/-- A client whose service has not been started, and a start that opens this connection. -/
def Unix.closedClient : Unix.ParseClientInternal :=
  { Unix.openClient with pushCurlHandle := none }

def Unix.connecting (connection : Unix.Connection) : Unix.Surroundings where
  storedId := CString.literal "id"
  uuid := CString.literal "uuid"
  curl := some connection
  connectOnly := Unix.CURLE_OK
  useSsl := Unix.CURLE_OK
  url := Unix.CURLE_OK
  perform := Unix.CURLE_OK
  seconds := 0

def Rtos.closedClient : Rtos.ParseClientInternal := { Rtos.openClient with socketHandle := -1 }

def Rtos.connecting (socketHandle : Int) : Rtos.Surroundings :=
  ⟨CString.literal "id", socketHandle, 0⟩

/-- Two services are started. The first connection has a line ending, the second one half a
message, and then the first one has no bytes. -/
def interleaved {S : Service} (connecting : Bool → S.Start) (hearing : List Byte → S.Input) :
    List (Action S Bool) :=
  [.start false (connecting false), .start true (connecting true),
    .process false (hearing (ascii "\r\n")), .process true (hearing firstHalf),
    .process false (hearing [])]

/-- The other half arrives on the second connection as well. -/
def Unix.secondHalfStep : Step (Unix.service .bits64) Bool :=
  fire World.step
    (final World.step (World.begin (Block.fill 2048 0) fun _ => Unix.closedClient)
      (interleaved (fun second => Unix.connecting (if second then 2 else 1))
        fun bytes => ([.ok bytes], 0)))
    (.process true ([.ok secondHalf], 0))

def Rtos.secondHalfStep : Step Rtos.service Bool :=
  fire World.step
    (final World.step (World.begin (Block.fill 1024 0) fun _ => Rtos.closedClient)
      (interleaved (fun second => Rtos.connecting (if second then 2 else 1)) Rtos.Input.hearing))
    (.process true (.hearing secondHalf))

theorem Unix.secondHalfStep_apart : Apart Unix.secondHalfStep := by
  intro client input same _ _
  cases same
  decide +kernel

theorem Rtos.secondHalfStep_apart : Apart Rtos.secondHalfStep := by
  intro client input same _ _
  cases same
  decide +kernel

/-- The message is passed on although there is a line ending of the first connection in front. -/
theorem push_isolated_halves :
    Isolated Unix.secondHalfStep ∧ Unix.secondHalfStep.output = [ascii "\x7b\"a\":1\x7d"] ∧
      Isolated Rtos.secondHalfStep ∧ Rtos.secondHalfStep.output = [ascii "\x7b\"a\":1\x7d"] :=
  ⟨push_isolated (.unix .bits64) (Block.fill 2048 0) (fun _ => Unix.closedClient) _
      Unix.secondHalfStep (fire_final_mem ..) Unix.secondHalfStep_apart, by decide +kernel,
    push_isolated .rtos (Block.fill 1024 0) (fun _ => Rtos.closedClient) _
      Rtos.secondHalfStep (fire_final_mem ..) Rtos.secondHalfStep_apart, by decide +kernel⟩

/-- Two services are started, and half a message arrives on the first connection. -/
def Unix.halfway : List (Action (Unix.service .bits64) Bool) :=
  [.start false (Unix.connecting 1), .start true (Unix.connecting 2),
    .process false ([.ok firstHalf], 0)]

def Rtos.halfway : List (Action Rtos.service Bool) :=
  [.start false (Rtos.connecting 1), .start true (Rtos.connecting 2),
    .process false (.hearing firstHalf)]

/-- The other half arrives on the second connection: both halves are passed to the second
callback. -/
theorem push_isolated_counterexample :
    (¬ ∀ (word : WordSize) (κ : Type) [DecidableEq κ] (data : Block Byte 2048)
      (clients : κ → Unix.ParseClientInternal) (actions : List (Action (Unix.service word) κ)),
      ∀ t ∈ run World.step (World.begin data clients) actions, OwnBytes t) ∧
    (¬ ∀ (κ : Type) [DecidableEq κ] (data : Block Byte 1024)
      (clients : κ → Rtos.ParseClientInternal) (actions : List (Action Rtos.service κ)),
      ∀ t ∈ run World.step (World.begin data clients) actions, OwnBytes t) := by
  constructor
  · intro own
    have bytes := own .bits64 Bool (Block.fill 2048 0) (fun _ => Unix.closedClient)
      (Unix.halfway ++ [.process true ([.ok secondHalf], 0)]) _ (fire_final_mem _ _ _ _)
      (ascii "\x7b\"a\":1\x7d") (by decide +kernel)
      (show Byte.openBrace ∈ ascii "\x7b\"a\":1\x7d" by decide)
    revert bytes
    decide +kernel
  · intro own
    have bytes := own Bool (Block.fill 1024 0) (fun _ => Rtos.closedClient)
      (Rtos.halfway ++ [.process true (.hearing secondHalf)]) _ (fire_final_mem _ _ _ _)
      (ascii "\x7b\"a\":1\x7d") (by decide +kernel)
      (show Byte.openBrace ∈ ascii "\x7b\"a\":1\x7d" by decide)
    revert bytes
    decide +kernel

end ParseEmbedded
