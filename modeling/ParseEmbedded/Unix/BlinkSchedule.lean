import ParseEmbedded.Unix.Blink

/-!
# The light blinks in time

While the light blinks, its changes are due half a period behind each other, counted from where it
began, however late the single changes come: an iteration that finds the time of a change in the
past changes the light and counts on from the time at which the change was due. And no iteration
waits beyond the next change. So a program that gets through its iterations in time makes each
change as late as an iteration, and not later (`blink_on_time`).
-/

set_option autoImplicit false

namespace ParseEmbedded.Unix.Blink

open Push Runs Pacing

/-! ## Times in nanoseconds -/

abbrev HALF : Int := 500000000

def Timespec.nanos (t : Timespec) : Int := t.tv_sec * NSEC_IN_SECOND + t.tv_nsec

def Timeval.nanos (tv : Timeval) : Int :=
  tv.tv_sec * NSEC_IN_SECOND + tv.tv_usec * NSEC_IN_MICROSECOND

theorem nanos_later (t : Timespec) (nsec : Int) (nonneg : 0 ≤ nsec) :
    (t.later nsec nonneg).nanos = t.nanos + nsec := by
  have parts := Int.mul_tdiv_add_tmod (nsec + t.tv_nsec) NSEC_IN_SECOND
  simp only [Timespec.nanos, Timespec.later, Int.add_comm t.tv_nsec nsec, NSEC_IN_SECOND] at parts ⊢
  omega

theorem isPast_iff (next current : Timespec) :
    next.isPast current = true ↔ next.nanos < current.nanos := by
  have inNext := next.normal
  have inCurrent := current.normal
  simp only [Timespec.isPast, Timespec.nanos, decide_eq_true_eq, NSEC_IN_SECOND]
    at inNext inCurrent ⊢
  omega

/-- **The time to wait** ends with the next change, and less than a microsecond before it. -/
theorem untilNext_close {current next : Timespec} (ahead : current.nanos ≤ next.nanos) :
    0 ≤ (untilNext current next).nanos ∧
      current.nanos + (untilNext current next).nanos ≤ next.nanos ∧
      next.nanos < current.nanos + (untilNext current next).nanos + NSEC_IN_MICROSECOND := by
  have inNext := next.normal
  have inCurrent := current.normal
  simp only [untilNext, Timespec.nanos, Timeval.nanos, NSEC_IN_SECOND, NSEC_IN_MICROSECOND]
    at ahead inNext inCurrent ⊢
  by_cases borrow : next.tv_nsec - current.tv_nsec < 0
  · simp only [if_pos borrow]
    rw [Int.tdiv_eq_ediv_of_nonneg (by omega), if_neg (by omega)]
    omega
  · simp only [if_neg borrow]
    rw [Int.tdiv_eq_ediv_of_nonneg (by omega), if_neg (by omega)]
    omega

/-! ## The next change -/

/-- The two times are half a period apart. -/
def NextTimes.Alternate (times : NextTimes) : Prop :=
  times.next_on.nanos + HALF = times.next_off.nanos ∨
    times.next_off.nanos + HALF = times.next_on.nanos

theorem calculateNextOnAndOff_spec (current : Timespec) :
    (calculateNextOnAndOff current).next_off.nanos = current.nanos + HALF ∧
      (calculateNextOnAndOff current).next_on.nanos = current.nanos + PERIOD :=
  ⟨nanos_later current _ half_nonneg, nanos_later current _ period_nonneg⟩

/-- **The earlier time is the one of the next change.** -/
theorem change_spec {times : NextTimes} (alternate : times.Alternate) :
    times.change = ⟨true, times.next_on⟩ ∧ times.next_on.nanos + HALF = times.next_off.nanos ∨
      times.change = ⟨false, times.next_off⟩ ∧
        times.next_off.nanos + HALF = times.next_on.nanos := by
  have inOn := times.next_on.normal
  have inOff := times.next_off.normal
  simp only [NextTimes.Alternate, Timespec.nanos, NSEC_IN_SECOND, HALF] at alternate inOn inOff ⊢
  rw [NextTimes.change]
  split
  · exact .inl ⟨rfl, by omega⟩
  split
  · exact .inr ⟨rfl, by omega⟩
  split
  · exact .inl ⟨rfl, by omega⟩
  · have same : times.next_on.tv_sec = times.next_off.tv_sec := by omega
    exact .inr ⟨by rw [same], by omega⟩

/-- What the state remembers of the last change: when it was due, and to what the light changed. -/
def Blinker.last (s : Blinker) : Int × Bool :=
  (s.times.change.next.nanos - HALF, !s.times.change.next_state)

/-- When the next change is due. -/
def Blinker.due (s : Blinker) : Int := s.times.change.next.nanos

/-- Where the light begins to blink, a change to a light that is on comes in front. -/
theorem begins_last {s : Blinker} (current : Timespec)
    (begins : s.times = calculateNextOnAndOff current) :
    s.times.Alternate ∧ s.last = (current.nanos, true) ∧ s.due = current.nanos + HALF := by
  obtain ⟨off, on⟩ := calculateNextOnAndOff_spec current
  have alternate : s.times.Alternate := by
    rw [begins]
    exact .inr (by rw [off, on]; simp only [HALF, PERIOD]; omega)
  refine ⟨alternate, ?_⟩
  rcases change_spec alternate with ⟨-, apart⟩ | ⟨change, -⟩
  · rw [begins, off, on] at apart
    simp only [HALF, PERIOD] at apart
    omega
  · rw [Blinker.last, Blinker.due, change, begins, off]
    exact ⟨by simp, rfl⟩

/-! ## The first half of an iteration -/

/-- A change that is due: the next one comes half a period behind it, and is the other one. -/
theorem watch_late {s : Blinker} {current : Timespec} (blinks : s.device_state = .blink)
    (alternate : s.times.Alternate) (late : s.due < current.nanos) :
    (watch s current).times.Alternate ∧
      (watch s current).times.change.next.nanos = s.due + HALF ∧
      (watch s current).times.change.next_state = !s.times.change.next_state ∧
      (watch s current).led_state = s.times.change.next_state ∧
      (watch s current).tv = ⟨0, 0⟩ ∧ (watch s current).change = some s.times.change := by
  have past : s.times.change.next.isPast current = true := (isPast_iff _ _).mpr late
  rw [watch, blinks]
  dsimp only
  rw [if_pos past]
  rcases change_spec alternate with ⟨change, apart⟩ | ⟨change, apart⟩
  · have later : (advanceTimeByPeriod s.times.next_on).nanos = s.times.next_off.nanos + HALF := by
      rw [advanceTimeByPeriod, nanos_later, ← apart]
      simp only [HALF, PERIOD]
      omega
    have alternates : NextTimes.Alternate
        { s.times with next_on := advanceTimeByPeriod s.times.next_on } := .inr later.symm
    rw [Blinker.due, change, if_pos rfl]
    refine ⟨alternates, ?_⟩
    rcases change_spec alternates with ⟨-, wrong⟩ | ⟨next, -⟩
    · rw [later] at wrong
      simp only [HALF] at wrong
      omega
    · rw [next]
      exact ⟨apart.symm, rfl, rfl, rfl, rfl⟩
  · have later : (advanceTimeByPeriod s.times.next_off).nanos = s.times.next_on.nanos + HALF := by
      rw [advanceTimeByPeriod, nanos_later, ← apart]
      simp only [HALF, PERIOD]
      omega
    have alternates : NextTimes.Alternate
        { s.times with next_off := advanceTimeByPeriod s.times.next_off } := .inl later.symm
    rw [Blinker.due, change, if_neg Bool.false_ne_true]
    refine ⟨alternates, ?_⟩
    rcases change_spec alternates with ⟨next, -⟩ | ⟨-, wrong⟩
    · rw [next]
      exact ⟨apart.symm, rfl, rfl, rfl, rfl⟩
    · rw [later] at wrong
      simp only [HALF] at wrong
      omega

theorem watch_early {s : Blinker} {current : Timespec} (blinks : s.device_state = .blink)
    (early : current.nanos ≤ s.due) :
    (watch s current).times = s.times ∧ (watch s current).change = none ∧
      (watch s current).tv = untilNext current s.times.change.next := by
  have notPast : s.times.change.next.isPast current = false := by
    rw [← Bool.not_eq_true, isPast_iff]
    exact Int.not_lt.mpr early
  rw [watch, blinks]
  dsimp only
  rw [notPast, if_neg Bool.false_ne_true]
  exact ⟨rfl, rfl, rfl⟩

/-- A light that does not blink keeps its times. -/
theorem watch_steady {s : Blinker} (current : Timespec) (steady : s.device_state ≠ .blink) :
    (watch s current).times = s.times ∧ (watch s current).change = none := by
  rw [watch]
  cases state : s.device_state with
  | blink => exact absurd state steady
  | off | on => exact ⟨rfl, rfl⟩

/-- An iteration that comes to `select` has found no change that is due, and waits no longer than
until the next one. -/
theorem watch_waits {s : Blinker} {current : Timespec} (alternate : s.times.Alternate)
    (waits : (watch s current).tv.Waits) :
    (watch s current).times = s.times ∧ (watch s current).change = none ∧
      (s.device_state = .blink → current.nanos + (watch s current).tv.nanos ≤ s.due) := by
  by_cases blinks : s.device_state = .blink
  · by_cases late : s.due < current.nanos
    · obtain ⟨-, -, -, -, none, -⟩ := watch_late blinks alternate late
      rw [none] at waits
      exact absurd waits (by decide)
    · have early := Int.not_lt.mp late
      obtain ⟨same, none, tv⟩ := watch_early blinks early
      refine ⟨same, none, fun _ => ?_⟩
      rw [tv]
      exact (untilNext_close early).2.1
  · obtain ⟨same, none⟩ := watch_steady current blinks
    exact ⟨same, none, fun isBlink => absurd isBlink blinks⟩

/-! ## Runs -/

/-- A change of a blinking light, or the place where it begins to blink: when it is due, to what the
light changes, and when it is made. -/
structure LightChange where
  due : Int
  led : Bool
  made : Int
  begins : Bool
  deriving DecidableEq

/-- The changes of an iteration. -/
def lightChanges (t : BlinkTransition) : List LightChange :=
  match t.output with
  | none => []
  | some done =>
      (done.change.map fun change =>
          ⟨change.next.nanos, done.led, t.input.current.nanos, false⟩).toList ++
        (done.restart.map fun current => ⟨current.nanos, true, current.nanos, true⟩).toList

/-- When an iteration has waited as long as it waits at most; where it lets the light begin to
blink, the time at which it does so. -/
def waitedUntil (t : BlinkTransition) : Int :=
  match t.output with
  | none => t.input.current.nanos
  | some done => done.restart.elim (t.input.current.nanos + done.tv.nanos) Timespec.nanos

/-- The times alternate, and no change is due before an iteration has waited. -/
structure InTime (ready : Int) (s : Blinker) : Prop where
  alternate : s.times.Alternate
  ready_le : s.running = true → s.device_state = .blink → ready ≤ s.due

/-- How a change follows the one before. -/
def ChangesInTime (lag : Int) (last : Int × Bool) (change : LightChange) : Prop :=
  change.begins = true ∨
    change.led = !last.2 ∧ change.due = last.1 + HALF ∧ change.due < change.made ∧
      change.made ≤ change.due + lag

/-- **One iteration** that begins in time makes no change, or one that comes in time. -/
theorem blinkStep_inTime (word : WordSize) {lag : Int} (short : lag ≤ HALF) {ready : Int}
    (s : Blinker) (turn : Turn) (inTime : InTime ready s)
    (prompt : turn.current.nanos ≤ ready + lag) :
    InTime (waitedUntil (fire (blinkStep word) s turn)) (blinkStep word s turn).1 ∧
      (lightChanges (fire (blinkStep word) s turn) = [] ∧
          (blinkStep word s turn).1.last = s.last ∨
        ∃ change, lightChanges (fire (blinkStep word) s turn) = [change] ∧
          ChangesInTime lag s.last change ∧
          (blinkStep word s turn).1.last = (change.due, change.led)) := by
  obtain ⟨alternate, ready_le⟩ := inTime
  by_cases running : s.running = true
  swap
  · rw [fire, blinkStep_idle word running]
    exact ⟨⟨alternate, fun runs => absurd runs running⟩, .inl ⟨rfl, rfl⟩⟩
  by_cases waits : (watch s turn.current).tv.Waits
  swap
  · rw [fire, blinkStep_passes word running waits]
    by_cases blinks : s.device_state = .blink
    swap
    · obtain ⟨same, none⟩ := watch_steady turn.current blinks
      rw [lightChanges, Watched.done, none, same]
      exact ⟨⟨alternate, fun _ isBlink => absurd isBlink blinks⟩, .inl ⟨rfl, rfl⟩⟩
    have inTime := ready_le running blinks
    by_cases late : s.due < turn.current.nanos
    · obtain ⟨alternates, next, other, led, tv, change⟩ := watch_late blinks alternate late
      refine ⟨⟨alternates, fun _ _ => ?_⟩, .inr ⟨⟨s.due, s.times.change.next_state,
        turn.current.nanos, false⟩, ?_, .inr ⟨?_, ?_, late, ?_⟩, ?_⟩⟩
      · have behind : (blinkStep word s turn).1.due = s.due + HALF := by
          rw [blinkStep_passes word running waits]
          exact next
        have waited : waitedUntil ⟨s, turn, some (watch s turn.current).done,
            (blinkStep word s turn).1⟩ = turn.current.nanos := by
          rw [waitedUntil, Watched.done, tv]
          exact Int.add_zero _
        rw [blinkStep_passes word running waits] at behind waited
        rw [behind, waited]
        omega
      · rw [lightChanges, Watched.done, led, change]
        rfl
      · exact (Bool.not_not _).symm
      · change s.due = s.due - HALF + HALF
        omega
      · change turn.current.nanos ≤ s.due + lag
        omega
      · change ((watch s turn.current).times.change.next.nanos - HALF,
          !(watch s turn.current).times.change.next_state) = _
        rw [next, other, Bool.not_not, Int.add_sub_cancel]
    · have early := Int.not_lt.mp late
      obtain ⟨same, none, tv⟩ := watch_early blinks early
      rw [lightChanges, Watched.done, none, same]
      refine ⟨⟨alternate, fun _ _ => ?_⟩, .inl ⟨rfl, rfl⟩⟩
      change turn.current.nanos + (watch s turn.current).tv.nanos ≤ s.due
      rw [tv]
      exact (untilNext_close early).2.1
  obtain ⟨same, none, waited⟩ := watch_waits alternate waits
  by_cases socketError : turn.socketError = true
  · rw [fire, blinkStep_socketError word running waits socketError, same, lightChanges,
      Watched.done, none]
    exact ⟨⟨alternate, fun runs => Bool.noConfusion runs⟩, .inl ⟨rfl, rfl⟩⟩
  rw [Bool.not_eq_true] at socketError
  by_cases unread : turn.edge = true ∧ turn.value = []
  · rw [fire, blinkStep_unread word running waits socketError unread, same, lightChanges,
      Watched.done, none]
    exact ⟨⟨alternate, fun runs => Bool.noConfusion runs⟩, .inl ⟨rfl, rfl⟩⟩
  rw [fire, blinkStep_reacts word running waits socketError unread, same, lightChanges,
    Watched.done, none]
  cases begins : beginning s.device_state (stateBehind word s turn) turn with
  | none =>
      refine ⟨⟨alternate, fun _ isBlink => ?_⟩, .inl ⟨rfl, rfl⟩⟩
      refine waited ?_
      by_contra notBlink
      rw [beginning, if_pos ⟨isBlink, notBlink⟩] at begins
      cases begins
  | some current =>
      obtain ⟨alternates, last, due⟩ :=
        begins_last (s := { s with times := calculateNextOnAndOff current }) current rfl
      refine ⟨⟨alternates, fun _ _ => ?_⟩,
        .inr ⟨⟨current.nanos, true, current.nanos, true⟩, rfl, .inl rfl, last⟩⟩
      change current.nanos ≤ Blinker.due { s with times := calculateNextOnAndOff current }
      rw [due]
      simp only [HALF]
      omega

/-- **The light blinks in time.** In every run of the program in which each iteration begins at most
`lag` behind the time until which the one before has waited, with a lag of at most half a period:
a change of the blinking light is due half a period behind the one before it, is the other change,
and is made behind the time when it is due and at most `lag` later, where changes are counted anew
from every place at which the light begins to blink; and at the end no change is due before the
last iteration has waited. -/
theorem blink_on_time (word : WordSize) (service : LoopState) (start : Timespec)
    (turns : List Turn) (lag : Int) (short : lag ≤ HALF)
    (prompt : Follows waitedUntil (fun ready t => t.input.current.nanos ≤ ready + lag) start.nanos
      (run (blinkStep word) (begin service start) turns)) :
    Follows (fun change => (change.due, change.led)) (ChangesInTime lag) (start.nanos, true)
        ((run (blinkStep word) (begin service start) turns).flatMap lightChanges) ∧
      ((final (blinkStep word) (begin service start) turns).running = true →
        (final (blinkStep word) (begin service start) turns).device_state = .blink →
        lastKey waitedUntil start.nanos (run (blinkStep word) (begin service start) turns) ≤
          (final (blinkStep word) (begin service start) turns).due) := by
  obtain ⟨alternate, last, due⟩ := begins_last (s := begin service start) start rfl
  have inTime : InTime start.nanos (begin service start) := by
    refine ⟨alternate, fun _ _ => ?_⟩
    rw [due]
    simp only [HALF]
    omega
  obtain ⟨still, follows, -⟩ := run_follows_paced (fun change => (change.due, change.led))
    (ChangesInTime lag) Blinker.last lightChanges waitedUntil
    (fun ready t => t.input.current.nanos ≤ ready + lag) InTime
    (fun _ s turn inTime here => blinkStep_inTime word short s turn inTime here) turns inTime prompt
  rw [last] at follows
  exact ⟨follows, still.ready_le⟩

theorem late_normal : (0 : Int) ≤ 600000000 ∧ (600000000 : Int) < NSEC_IN_SECOND := by decide

/-- An iteration at the start, and one that comes a tenth of a second after the change that is due
behind half a second. -/
def lateTurns : List Turn :=
  [{ offTurn with calls := fun _ => { offTurn.calls 0 with answers := [] } },
    { offTurn with current := ⟨0, 600000000, late_normal⟩ }]

theorem blink_on_time_late :
    (run (blinkStep .bits64) (begin ⟨openClient, unfilled (Block.fill 2048 0)⟩ bootTime)
        lateTurns).flatMap lightChanges = [⟨500000000, false, 600000000, false⟩] ∧
      Follows (fun change => (change.due, change.led)) (ChangesInTime 100000000)
        (bootTime.nanos, true) ((run (blinkStep .bits64)
          (begin ⟨openClient, unfilled (Block.fill 2048 0)⟩ bootTime) lateTurns).flatMap
            lightChanges) :=
  ⟨by decide +kernel,
    (blink_on_time .bits64 ⟨openClient, unfilled (Block.fill 2048 0)⟩ bootTime lateTurns 100000000
      (by decide) ⟨by decide +kernel, by decide +kernel, trivial⟩).1⟩

end ParseEmbedded.Unix.Blink
