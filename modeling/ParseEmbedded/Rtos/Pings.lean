import ParseEmbedded.Library.Runs
import ParseEmbedded.Rtos.Push

/-!
# Pings that fail

The client counts the pings in a row that have failed, and `sendPing` closes the push socket when
one fails after 21 others. A successful ping and `parseStopPushService` set the count back to zero,
but neither does the forced close, nor `parseStartPushService`. So a new connection begins with the
count that the old one has left (`carried`), and is closed too soon unless that was zero or a ping
succeeds on it (`ping_closes_iff`).
-/

set_option autoImplicit false

namespace ParseEmbedded.Rtos

open Runs

/-! ## Runs of the three functions -/

/-- The client and its buffer, with the history of the current connection: the count it began with,
and how its pings went, the last one first. -/
structure PingService where
  client : ParseClientInternal
  buffer : PushDataBuffer
  carried : Int
  attempts : List Bool

/-- There is a push socket. -/
def PingService.Connected (s : PingService) : Prop := 0 ≤ s.client.socketHandle

instance PingService.decidableConnected (s : PingService) : Decidable s.Connected :=
  inferInstanceAs (Decidable (_ ≤ _))

/-- A call, with what it meets. -/
inductive PingCall where
  | start (around : Surroundings)
  | stop
  | sendPing (isPingTime : Bool) (send : Int)

/-- The ping goes out. -/
def PingService.Succeeds (s : PingService) (send : Int) : Prop :=
  0 ≤ socketWrite s.client.socketHandle ping send

instance PingService.decidableSucceeds (s : PingService) (send : Int) :
    Decidable (s.Succeeds send) :=
  inferInstanceAs (Decidable (_ ≤ _))

/-- The attempts behind a call of `sendPing`. -/
def PingService.attempted (s : PingService) (isPingTime : Bool) (send : Int) : List Bool :=
  if isPingTime ∧ s.Connected then decide (s.Succeeds send) :: s.attempts else s.attempts

theorem PingService.attempted_succeeds {s : PingService} {send : Int} (connected : s.Connected)
    (works : s.Succeeds send) : s.attempted true send = true :: s.attempts := by
  simp [attempted, connected, works]

theorem PingService.attempted_fails {s : PingService} {send : Int} (connected : s.Connected)
    (fails : ¬ s.Succeeds send) : s.attempted true send = false :: s.attempts := by
  simp [attempted, connected, fails]

/-- A call, and what it does outside the client. A connection begins where `parseStartPushService`
returns no error. -/
def pingStep (s : PingService) : PingCall → PingService × List Event
  | .start around =>
      let started := parseStartPushService s.buffer s.client around
      if started.2.result < 0 then
        ({ s with client := started.2.client, buffer := started.1 }, started.2.events)
      else
        (⟨started.2.client, started.1, s.client.nFailedPing, []⟩, started.2.events)
  | .stop =>
      let stopped := parseStopPushService s.client
      (⟨stopped.1, s.buffer, 0, []⟩, stopped.2)
  | .sendPing isPingTime send =>
      let pinged := sendPing s.client isPingTime send
      ({ s with client := pinged.1, attempts := s.attempted isPingTime send }, pinged.2)

abbrev PingTransition := Runs.Transition PingService PingCall (List Event)

/-- A client that has just been made, before any connection. -/
def PingService.begin (client : ParseClientInternal) (buffer : PushDataBuffer) : PingService :=
  ⟨{ client with socketHandle := -1, nFailedPing := 0 }, buffer, 0, []⟩

/-- The last 22 attempts have all failed. -/
def LastFailed (attempts : List Bool) : Prop :=
  22 ≤ attempts.length ∧ true ∉ attempts.take 22

instance (attempts : List Bool) : Decidable (LastFailed attempts) :=
  inferInstanceAs (Decidable (_ ∧ _))

/-- A call of `sendPing` closes the push socket only when the last 22 attempts on the connection
have failed, this one among them, and a ping that goes out sets the count back. -/
def ClosesRightly (t : PingTransition) : Prop :=
  ∀ isPingTime send, t.input = .sendPing isPingTime send →
    (t.before.Connected → .socketClose t.before.client.socketHandle ∈ t.output →
      LastFailed t.after.attempts) ∧
    (isPingTime = true → t.before.Succeeds send → t.after.client.nFailedPing = 0)

/-- Where a ping fails after more than 20 others have been counted, none of these was on an earlier
connection: the connection began with no count, or a ping has succeeded on it. -/
def CountsOwn (t : PingTransition) : Prop :=
  ∀ send, t.input = .sendPing true send → t.before.Connected → ¬ t.before.Succeeds send →
    20 < t.before.client.nFailedPing → t.before.carried = 0 ∨ true ∈ t.before.attempts

/-! ## The count -/

/-- How many attempts have failed since the last that succeeded. -/
def failedInRow (attempts : List Bool) : Nat := (attempts.takeWhile (· = false)).length

@[simp] theorem failedInRow_true (attempts : List Bool) : failedInRow (true :: attempts) = 0 := by
  simp [failedInRow]

@[simp] theorem failedInRow_false (attempts : List Bool) :
    failedInRow (false :: attempts) = failedInRow attempts + 1 := by
  simp [failedInRow]

/-- Attempts that have failed in a row are the last ones. -/
theorem lastFailed_of_failedInRow {attempts : List Bool} (failed : 22 ≤ failedInRow attempts) :
    LastFailed attempts := by
  obtain ⟨rest, same⟩ := List.takeWhile_prefix (p := (· = false)) (l := attempts)
  rw [failedInRow] at failed
  refine ⟨?_, ?_⟩
  · rw [← same, List.length_append]
    omega
  · rw [← same, List.take_append_of_le_length failed]
    intro member
    exact absurd (List.mem_takeWhile_imp (List.mem_of_mem_take member)) (by decide)

theorem failedInRow_of_notMem {attempts : List Bool} (none : true ∉ attempts) :
    failedInRow attempts = attempts.length := by
  induction attempts with
  | nil => rfl
  | cons attempt attempts ih =>
      rw [List.mem_cons, not_or] at none
      cases attempt with
      | true => exact absurd rfl none.1
      | false => rw [failedInRow_false, ih none.2, List.length_cons]

/-- **What the count is.** It has the failures of the current connection in it, and until a ping
succeeds also those that were there when the connection began. -/
structure PingService.Counted (s : PingService) : Prop where
  nonneg : 0 ≤ s.client.nFailedPing
  bounded : s.client.nFailedPing ≤ 21
  carried : 0 ≤ s.carried
  succeeded : s.Connected → true ∈ s.attempts → s.client.nFailedPing = failedInRow s.attempts
  failed : s.Connected → true ∉ s.attempts →
    s.client.nFailedPing = s.carried + s.attempts.length

theorem PingService.begin_counted (client : ParseClientInternal) (buffer : PushDataBuffer) :
    (PingService.begin client buffer).Counted where
  nonneg := Int.le_refl 0
  bounded := (by decide : (0 : Int) ≤ 21)
  carried := Int.le_refl 0
  succeeded _ member := absurd member List.not_mem_nil
  failed _ _ := rfl

/-- What `parseStartPushService` does to the two fields. -/
theorem start_fields (buffer : PushDataBuffer) (client : ParseClientInternal)
    (around : Surroundings) :
    (parseStartPushService buffer client around).2.client.nFailedPing = client.nFailedPing ∧
      ((parseStartPushService buffer client around).2.result < 0 →
        (parseStartPushService buffer client around).2.client.socketHandle =
          client.socketHandle) := by
  rw [parseStartPushService]
  dsimp only
  split
  · split
    · exact ⟨rfl, fun _ => rfl⟩
    · rename_i works
      exact ⟨rfl, fun fails => absurd fails works⟩
  · exact ⟨rfl, fun _ => rfl⟩

/-- **What a call of `sendPing` does**: nothing, or it sends a ping that succeeds, that fails and
is counted, or that fails and closes the socket. -/
inductive Pinged (client : ParseClientInternal) (send : Int) :
    Bool → ParseClientInternal × List Event → Prop where
  | nothing : Pinged client send false (client, [])
  | succeeded (works : 0 ≤ socketWrite client.socketHandle ping send) (events : List Event)
      (keeps : .socketClose client.socketHandle ∉ events) :
      Pinged client send true ({ client with nFailedPing := 0 }, events)
  | counted (fails : socketWrite client.socketHandle ping send < 0)
      (few : client.nFailedPing ≤ 20) (events : List Event)
      (keeps : .socketClose client.socketHandle ∉ events) :
      Pinged client send true ({ client with nFailedPing := client.nFailedPing + 1 }, events)
  | closed (fails : socketWrite client.socketHandle ping send < 0)
      (many : 20 < client.nFailedPing) (events : List Event)
      (closes : .socketClose client.socketHandle ∈ events) :
      Pinged client send true ({ client with socketHandle := -1 }, events)

theorem sendPing_pinged (client : ParseClientInternal) (isPingTime : Bool) (send : Int) :
    Pinged client send isPingTime (sendPing client isPingTime send) := by
  rw [sendPing]
  cases isPingTime with
  | false => exact .nothing
  | true =>
      rw [if_pos rfl]
      by_cases fails : socketWrite client.socketHandle ping send < 0
      · rw [if_pos fails]
        by_cases many : client.nFailedPing > 20
        · rw [if_pos many]
          exact .closed fails many _ (by simp)
        · rw [if_neg many]
          exact .counted fails (Int.not_lt.mp many) _ (by simp)
      · rw [if_neg fails]
        exact .succeeded (Int.not_lt.mp fails) _ (by simp)

/-- **The step of the count.** Every call keeps it right. -/
theorem PingService.Counted.step {s : PingService} (counted : s.Counted) (call : PingCall) :
    (pingStep s call).1.Counted := by
  cases call with
  | start around =>
      obtain ⟨count, handle⟩ := start_fields s.buffer s.client around
      rw [pingStep]
      split
      · rename_i fails
        have connected : ∀ {buffer}, (PingService.mk
            (parseStartPushService s.buffer s.client around).2.client buffer s.carried
            s.attempts).Connected → s.Connected := by
          intro buffer connected
          rw [Connected, handle fails] at connected
          exact connected
        refine ⟨?_, ?_, counted.carried, fun isConnected member => ?_,
          fun isConnected member => ?_⟩
        · rw [count]
          exact counted.nonneg
        · rw [count]
          exact counted.bounded
        · rw [count]
          exact counted.succeeded (connected isConnected) member
        · rw [count]
          exact counted.failed (connected isConnected) member
      · refine ⟨?_, ?_, counted.nonneg, fun _ member => absurd member List.not_mem_nil,
          fun _ _ => ?_⟩
        · rw [count]
          exact counted.nonneg
        · rw [count]
          exact counted.bounded
        · rw [count]
          exact (Int.add_zero _).symm
  | stop =>
      refine ⟨Int.le_refl 0, ?_, Int.le_refl 0, fun connected => ?_, fun connected => ?_⟩
      · exact (by decide : (0 : Int) ≤ 21)
      · exact absurd connected (by decide : ¬ (0 : Int) ≤ -1)
      · exact absurd connected (by decide : ¬ (0 : Int) ≤ -1)
  | sendPing isPingTime send =>
      have pinged := sendPing_pinged s.client isPingTime send
      have nonneg := counted.nonneg
      have bounded := counted.bounded
      rw [pingStep]
      dsimp only
      generalize sendPing s.client isPingTime send = result at pinged ⊢
      cases pinged with
      | nothing =>
          have same : s.attempted false send = s.attempts := if_neg fun time => by cases time.1
          rw [same]
          exact ⟨nonneg, bounded, counted.carried, counted.succeeded, counted.failed⟩
      | succeeded works events keeps =>
          refine ⟨Int.le_refl 0, (by decide : (0 : Int) ≤ 21), counted.carried,
            fun connected _ => ?_, fun connected none => ?_⟩
          · have attempted := PingService.attempted_succeeds (s := s) connected works
            change (0 : Int) = failedInRow (s.attempted true send)
            rw [attempted, failedInRow_true]
            rfl
          · have attempted := PingService.attempted_succeeds (s := s) connected works
            change true ∉ s.attempted true send at none
            rw [attempted] at none
            exact absurd (List.mem_cons_self ..) none
      | counted fails few events keeps =>
          have attempted : s.Connected → s.attempted true send = false :: s.attempts :=
            fun connected => PingService.attempted_fails (s := s) connected (Int.not_le.mpr fails)
          refine ⟨?_, ?_, counted.carried, fun connected member => ?_, fun connected none => ?_⟩
          · change 0 ≤ s.client.nFailedPing + 1
            omega
          · change s.client.nFailedPing + 1 ≤ 21
            omega
          · change true ∈ s.attempted true send at member
            rw [attempted connected] at member
            have earlier := (List.mem_cons.mp member).resolve_left (by decide)
            have same := counted.succeeded connected earlier
            change s.client.nFailedPing + 1 = failedInRow (s.attempted true send)
            rw [attempted connected, failedInRow_false]
            omega
          · change true ∉ s.attempted true send at none
            rw [attempted connected] at none
            have same := counted.failed connected fun member => none (List.mem_cons_of_mem _ member)
            change s.client.nFailedPing + 1 = s.carried + (s.attempted true send).length
            rw [attempted connected, List.length_cons]
            omega
      | closed fails many events closes =>
          exact ⟨nonneg, bounded, counted.carried,
            fun connected => absurd connected (by decide : ¬ (0 : Int) ≤ -1),
            fun connected => absurd connected (by decide : ¬ (0 : Int) ≤ -1)⟩

/-! ## Closing the socket -/

/-- **One step.** A call of `sendPing` closes rightly exactly when the failures it has counted are
those of the current connection. -/
theorem PingService.Counted.closesRightly_iff {s : PingService} (counted : s.Counted)
    (call : PingCall) :
    CountsOwn (Runs.fire pingStep s call) ↔ ClosesRightly (Runs.fire pingStep s call) := by
  constructor
  · intro own isPingTime send same
    have same : call = .sendPing isPingTime send := same
    subst same
    have pinged := sendPing_pinged s.client isPingTime send
    refine ⟨fun connected closes => ?_, fun time works => ?_⟩
    · change s.Connected at connected
      change .socketClose s.client.socketHandle ∈ (sendPing s.client isPingTime send).2 at closes
      change LastFailed (s.attempted isPingTime send)
      generalize sendPing s.client isPingTime send = result at pinged closes
      cases pinged with
      | nothing => exact absurd closes List.not_mem_nil
      | succeeded works events keeps => exact absurd closes keeps
      | counted fails few events keeps => exact absurd closes keeps
      | closed fails many events _ =>
          have fails : ¬ s.Succeeds send := Int.not_le.mpr fails
          apply lastFailed_of_failedInRow
          rw [attempted_fails connected fails, failedInRow_false]
          -- all that is counted has failed on this connection, one after the other
          have inRow : s.client.nFailedPing = failedInRow s.attempts := by
            by_cases member : true ∈ s.attempts
            · exact counted.succeeded connected member
            · have carried := (own send rfl connected fails many).resolve_right member
              rw [failedInRow_of_notMem member, counted.failed connected member]
              change s.carried = 0 at carried
              omega
          omega
    · change (sendPing s.client isPingTime send).1.nFailedPing = 0
      subst time
      change 0 ≤ socketWrite s.client.socketHandle ping send at works
      generalize sendPing s.client true send = result at pinged
      cases pinged with
      | succeeded _ _ _ => rfl
      | counted fails _ _ _ => omega
      | closed fails _ _ _ => omega
  · intro rightly send same connected fails many
    have same : call = .sendPing true send := same
    subst same
    change s.Connected at connected
    change ¬ s.Succeeds send at fails
    change 20 < s.client.nFailedPing at many
    change s.carried = 0 ∨ true ∈ s.attempts
    have closes : .socketClose s.client.socketHandle ∈ (sendPing s.client true send).2 := by
      have pinged := sendPing_pinged s.client true send
      generalize sendPing s.client true send = result at pinged
      cases pinged with
      | succeeded works _ _ => exact absurd works fails
      | counted _ few _ _ => omega
      | closed _ _ _ closes => exact closes
    obtain ⟨enough, failed⟩ := (rightly true send rfl).1 connected closes
    change 22 ≤ (s.attempted true send).length at enough
    by_contra neither
    rw [not_or] at neither
    -- the count is 21, so with a carried one there are not enough attempts
    have count := counted.failed connected neither.2
    have bounded := counted.bounded
    have nonneg := counted.carried
    rw [attempted_fails connected fails, List.length_cons] at enough
    have none : s.carried ≠ 0 := neither.1
    omega

/-- **Where the push socket is closed in time.** In every run from a client that has just been
made, `sendPing` closes the push socket only after 22 failures on the current connection, and a
ping that goes out sets the count back, exactly as long as the failures it counts are all of the
current connection. -/
theorem ping_closes_iff (client : ParseClientInternal) (buffer : PushDataBuffer)
    (calls : List PingCall) :
    (∀ t ∈ run pingStep (PingService.begin client buffer) calls, ClosesRightly t) ↔
      ∀ t ∈ run pingStep (PingService.begin client buffer) calls, CountsOwn t :=
  (run_forall_iff pingStep PingService.Counted CountsOwn ClosesRightly
    (fun _ call counted => counted.closesRightly_iff call)
    (fun _ call counted _ => counted.step call) calls
    (PingService.begin_counted client buffer)).symm

/-! ## A connection closed after one failure -/

namespace PingExample

def client : ParseClientInternal :=
  ⟨⟨[], List.not_mem_nil⟩, ⟨[], List.not_mem_nil⟩, true, -1, 0, []⟩

/-- A connection that works, and one attempt that fails. -/
def start : PingCall := .start ⟨⟨[], List.not_mem_nil⟩, 3, 1⟩

def fails : PingCall := .sendPing true (-1)

/-- A connection lost after 22 failures, and a new one. -/
def calls : List PingCall := start :: List.replicate 22 fails ++ [start]

def begin : PingService := .begin client ⟨Block.fill 1024 0, 0⟩

theorem count : (final pingStep begin calls).client.nFailedPing = 21 ∧
    (final pingStep begin calls).client.socketHandle = 3 ∧
    (final pingStep begin calls).carried = 21 ∧ (final pingStep begin calls).attempts = [] := by
  decide +kernel

end PingExample

/-- The first ping that fails on the new connection closes it. -/
theorem ping_closes_counterexample :
    ¬ ∀ t ∈ run pingStep PingExample.begin (PingExample.calls ++ [PingExample.fails]),
      ClosesRightly t := by
  rw [PingExample.begin, ping_closes_iff]
  intro own
  obtain ⟨count, handle, carried, attempts⟩ := PingExample.count
  have last := own _ (fire_final_mem pingStep PingExample.calls PingExample.fails _) (-1) rfl
  simp only [fire_before] at last
  rw [← PingExample.begin, PingService.Connected, PingService.Succeeds, handle, count, carried,
    attempts] at last
  exact absurd (last (by decide) (by decide) (by decide)) (by decide)

end ParseEmbedded.Rtos
