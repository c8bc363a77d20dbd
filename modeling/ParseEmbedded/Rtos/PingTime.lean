import ParseEmbedded.Rtos.Push

/-!
# The time of the next ping on the CC3200

`timeDiffInSec`, `isPingTime` and `updateLastPingTime` of `utils.c`. The device keeps its time as
fields of 32 bits without a sign, and the difference is taken field by field. It never comes to
more than 61 (`timeDiffInSec_le`), while the period between two pings is 600000 of these seconds,
so that no ping is ever sent (`sendPing_never`).
-/

set_option autoImplicit false

namespace ParseEmbedded.Rtos

/-! ## The source -/

/-- `SlDateTime_t`, as far as it tells the time. -/
structure SlDateTime where
  slTmSec : BitVec 32
  slTmMin : BitVec 32
  slTmHour : BitVec 32
  slTmDay : BitVec 32
  slTmMon : BitVec 32
  slTmYear : BitVec 32
  deriving DecidableEq, Repr

/-- The time that `sl_DevGet` tells, if it does. -/
def getDeviceTimeDate (slDevGet : Option SlDateTime) : SlDateTime :=
  slDevGet.getD ⟨0, 0, 0, 0, 0, 0⟩

/-- `result += (temp < 0) ? (wrap + temp) : (temp)` -/
def addWrapped (result : BitVec 32) (wrap temp : Int) : BitVec 32 :=
  result + BitVec.ofInt 32 (if temp < 0 then wrap + temp else temp)

def timeDiffInSec (dt1 dt2 : SlDateTime) : Int :=
  let result : BitVec 32 := 0
  let temp : Int := (dt2.slTmSec - dt1.slTmSec).toInt
  let result := addWrapped result 60 temp
  -- the subtrahend ends in front of the question mark
  let temp : Int :=
    if dt2.slTmMin - dt1.slTmMin - (if temp < 0 then 1 else 0) ≠ 0 then 1 else 0
  let result := addWrapped result 60 temp
  let temp : Int :=
    if dt2.slTmHour - dt1.slTmHour - (if temp < 0 then 1 else 0) ≠ 0 then 1 else 0
  let result := addWrapped result 24 temp
  result.toInt

abbrev PUSH_KEEP_ALIVE : Int := 10 * 60 * 1000

def isPingTime (lastDateTime : SlDateTime) (slDevGet : Option SlDateTime) : Bool :=
  timeDiffInSec (getDeviceTimeDate slDevGet) lastDateTime > PUSH_KEEP_ALIVE

/-- The new `lastDateTime`. -/
def updateLastPingTime (slDevGet : Option SlDateTime) : SlDateTime := getDeviceTimeDate slDevGet

/-! ## The calendar -/

def IsLeapYear (year : Nat) : Prop := year % 4 = 0 ∧ (year % 100 ≠ 0 ∨ year % 400 = 0)

instance (year : Nat) : Decidable (IsLeapYear year) := inferInstanceAs (Decidable (_ ∧ _))

def daysInYear (year : Nat) : Nat := if IsLeapYear year then 366 else 365

def daysInMonth (year month : Nat) : Nat :=
  if month = 2 then if IsLeapYear year then 29 else 28
  else if month = 4 ∨ month = 6 ∨ month = 9 ∨ month = 11 then 30
  else 31

/-- The days in front of the first of January. -/
def daysBeforeYear : Nat → Nat
  | 0 => 0
  | year + 1 => daysBeforeYear year + daysInYear year

/-- The days of the year in front of the first of the month. -/
def daysBeforeMonth (year : Nat) : Nat → Nat
  | 0 => 0
  | 1 => 0
  | month + 2 => daysBeforeMonth year (month + 1) + daysInMonth year (month + 1)

namespace SlDateTime

/-- The day of the date, counted from some day on. -/
def dayNumber (t : SlDateTime) : Nat :=
  daysBeforeYear t.slTmYear.toNat + daysBeforeMonth t.slTmYear.toNat t.slTmMon.toNat +
    t.slTmDay.toNat

/-- The second of the day. -/
def secondOfDay (t : SlDateTime) : Nat :=
  t.slTmHour.toNat * 3600 + t.slTmMin.toNat * 60 + t.slTmSec.toNat

/-- A time of the day, on a day of the calendar. -/
structure Valid (t : SlDateTime) : Prop where
  sec : t.slTmSec.toNat < 60
  min : t.slTmMin.toNat < 60
  hour : t.slTmHour.toNat < 24
  mon : 1 ≤ t.slTmMon.toNat ∧ t.slTmMon.toNat ≤ 12
  day : 1 ≤ t.slTmDay.toNat ∧ t.slTmDay.toNat ≤ daysInMonth t.slTmYear.toNat t.slTmMon.toNat

end SlDateTime

/-- The seconds from one time to another. -/
def elapsed (last now : SlDateTime) : Int :=
  ((now.dayNumber : Int) - last.dayNumber) * 86400 + now.secondOfDay - last.secondOfDay

/-- The difference is the time that has passed, and it is time for a ping when more than ten
minutes have. -/
def KeepsTime (last now : SlDateTime) : Prop :=
  timeDiffInSec now (updateLastPingTime (some last)) = elapsed last now ∧
    (isPingTime (updateLastPingTime (some last)) (some now) = true ↔ 10 * 60 < elapsed last now)

/-! ## The difference -/

theorem toInt_sub_small {a b : BitVec 32} (small : a.toNat < 60) (small' : b.toNat < 60) :
    (a - b).toInt = (a.toNat : Int) - b.toNat := by
  rw [BitVec.toInt_eq_toNat_cond, BitVec.toNat_sub]
  omega

/-- Whether the fields differ by more or less than the borrow. -/
theorem sub_borrow_ne_zero_iff {a b : BitVec 32} (small : a.toNat < 60) (small' : b.toNat < 60)
    (p : Prop) [Decidable p] :
    (a - b - (if p then 1 else 0) ≠ 0) ↔ a.toNat ≠ b.toNat + (if p then 1 else 0) := by
  split
  · bv_omega
  · bv_omega

theorem addWrapped_nonneg (result : BitVec 32) (wrap : Int) {temp : Int} (nonneg : 0 ≤ temp) :
    addWrapped result wrap temp = result + BitVec.ofInt 32 temp := by
  rw [addWrapped, if_neg (Int.not_lt.mpr nonneg)]

theorem add_three_toInt {s m h : Int} (seconds : 0 ≤ s ∧ s < 60) (minutes : 0 ≤ m ∧ m ≤ 1)
    (hours : 0 ≤ h ∧ h ≤ 1) :
    (0 + BitVec.ofInt 32 s + BitVec.ofInt 32 m + BitVec.ofInt 32 h : BitVec 32).toInt =
      s + m + h := by
  have zero : (0 : BitVec 32) + BitVec.ofInt 32 s = BitVec.ofInt 32 s := BitVec.zero_add _
  rw [zero, ← BitVec.ofInt_add, ← BitVec.ofInt_add, BitVec.toInt_ofInt]
  exact Int.bmod_eq_of_le (by omega) (by omega)

/-- One if the statement holds. -/
def oneIf (p : Prop) [Decidable p] : Int := if p then 1 else 0

theorem oneIf_bounds (p : Prop) [Decidable p] : 0 ≤ oneIf p ∧ oneIf p ≤ 1 := by
  rw [oneIf]
  split
  · decide
  · decide

theorem oneIf_congr {p q : Prop} [Decidable p] [Decidable q] (same : p ↔ q) :
    oneIf p = oneIf q := if_congr same rfl rfl

/-- The seconds of the one field behind those of the other, the wrong way round. -/
def secondsBack (last now : SlDateTime) : Int :=
  let temp := (last.slTmSec.toNat : Int) - now.slTmSec.toNat
  if temp < 0 then 60 + temp else temp

/-- **What the difference comes to**: the seconds the wrong way round, and one for each of the two
other fields that differs. -/
theorem timeDiffInSec_eq {last now : SlDateTime} (valid : last.Valid) (valid' : now.Valid) :
    timeDiffInSec now last = secondsBack last now +
      oneIf (last.slTmMin.toNat ≠ now.slTmMin.toNat +
        if last.slTmSec.toNat < now.slTmSec.toNat then 1 else 0) +
      oneIf (last.slTmHour.toNat ≠ now.slTmHour.toNat) := by
  have seconds : (last.slTmSec - now.slTmSec).toInt = _ := toInt_sub_small valid.sec valid'.sec
  have minutes : (last.slTmMin - now.slTmMin -
      (if (last.slTmSec - now.slTmSec).toInt < 0 then 1 else 0) ≠ 0) ↔
        last.slTmMin.toNat ≠ now.slTmMin.toNat +
          if last.slTmSec.toNat < now.slTmSec.toNat then 1 else 0 := by
    have borrow : (last.slTmSec - now.slTmSec).toInt < 0 ↔
        last.slTmSec.toNat < now.slTmSec.toNat := by
      rw [seconds]
      omega
    rw [sub_borrow_ne_zero_iff valid.min valid'.min, if_congr borrow rfl rfl]
  have hours : (last.slTmHour - now.slTmHour - (if (if last.slTmMin - now.slTmMin -
      (if (last.slTmSec - now.slTmSec).toInt < 0 then 1 else 0) ≠ 0 then (1 : Int) else 0) < 0
        then 1 else 0) ≠ 0) ↔ last.slTmHour.toNat ≠ now.slTmHour.toNat := by
    have noBorrow : ¬ (if last.slTmMin - now.slTmMin -
        (if (last.slTmSec - now.slTmSec).toInt < 0 then 1 else 0) ≠ 0 then (1 : Int) else 0) < 0 :=
      Int.not_lt.mpr (oneIf_bounds _).1
    have small := valid.hour
    have small' := valid'.hour
    rw [sub_borrow_ne_zero_iff (by omega) (by omega), if_neg noBorrow, Nat.add_zero]
  change (addWrapped (addWrapped (addWrapped 0 60 (last.slTmSec - now.slTmSec).toInt) 60
    (oneIf _)) 24 (oneIf _)).toInt = _
  rw [addWrapped_nonneg _ 24 (oneIf_bounds _).1, addWrapped_nonneg _ 60 (oneIf_bounds _).1,
    oneIf_congr minutes, oneIf_congr hours, addWrapped, seconds]
  refine add_three_toInt ?_ (oneIf_bounds _) (oneIf_bounds _)
  have small := valid.sec
  have small' := valid'.sec
  split <;> omega

/-- **The difference is never more than 61.** -/
theorem timeDiffInSec_le {last now : SlDateTime} (valid : last.Valid) (valid' : now.Valid) :
    timeDiffInSec now last ≤ 61 := by
  rw [timeDiffInSec_eq valid valid']
  have minutes := (oneIf_bounds (last.slTmMin.toNat ≠ now.slTmMin.toNat +
    if last.slTmSec.toNat < now.slTmSec.toNat then 1 else 0)).2
  have hours := (oneIf_bounds (last.slTmHour.toNat ≠ now.slTmHour.toNat)).2
  have seconds : secondsBack last now ≤ 59 := by
    have small := valid.sec
    have small' := valid'.sec
    rw [secondsBack]
    split <;> omega
  omega

/-- So it is never time for a ping. -/
theorem isPingTime_never {last now : SlDateTime} (valid : last.Valid) (valid' : now.Valid) :
    isPingTime last (some now) = false := by
  have small := timeDiffInSec_le valid valid'
  refine decide_eq_false fun more => ?_
  change PUSH_KEEP_ALIVE < timeDiffInSec now last at more
  rw [PUSH_KEEP_ALIVE] at more
  omega

/-- **No ping is ever sent.** -/
theorem sendPing_never {last now : SlDateTime} (valid : last.Valid) (valid' : now.Valid)
    (client : ParseClientInternal) (send : Int) :
    sendPing client (isPingTime last (some now)) send = (client, []) := by
  rw [isPingTime_never valid valid']
  rfl

/-! ## The time that has passed -/

/-- **When the difference is the time that has passed.** Of two times less than a day apart it is
so where no time has passed, and where 31 or 61 seconds have passed into another hour. -/
theorem ping_time_iff (last now : SlDateTime) (valid : last.Valid) (valid' : now.Valid)
    (forward : 0 ≤ elapsed last now) (near : elapsed last now < 24 * 60 * 60) :
    KeepsTime last now ↔
      elapsed last now = 0 ∨
        last.slTmHour ≠ now.slTmHour ∧ (elapsed last now = 31 ∨ elapsed last now = 61) := by
  have hours : last.slTmHour ≠ now.slTmHour ↔
      last.slTmHour.toNat ≠ now.slTmHour.toNat := not_congr BitVec.toNat_inj.symm
  change (timeDiffInSec now last = elapsed last now ∧
    (isPingTime last (some now) = true ↔ _)) ↔ _
  rw [isPingTime_never valid valid', timeDiffInSec_eq valid valid', hours]
  rw [elapsed, SlDateTime.secondOfDay, SlDateTime.secondOfDay] at *
  have sec := valid.sec
  have sec' := valid'.sec
  have min := valid.min
  have min' := valid'.min
  have hour := valid.hour
  have hour' := valid'.hour
  rw [secondsBack, oneIf, oneIf]
  simp only [Bool.false_eq_true, false_iff]
  by_cases less : last.slTmSec.toNat < now.slTmSec.toNat
  · rw [if_pos less, if_pos (by omega)]
    split <;> split <;> omega
  · rw [if_neg less, if_neg (by omega)]
    split <;> split <;> omega

section Example

/-- A time of the first of March 2015. -/
def exampleTime (hour min sec : BitVec 32) : SlDateTime := ⟨sec, min, hour, 1, 3, 2015⟩

/-- On one day only the time of the day counts. -/
theorem exampleTime_elapsed (hour min sec hour' min' sec' : BitVec 32) :
    elapsed (exampleTime hour min sec) (exampleTime hour' min' sec') =
      ((exampleTime hour' min' sec').secondOfDay : Int) -
        (exampleTime hour min sec).secondOfDay := by
  have sameDay : ((exampleTime hour' min' sec').dayNumber : Int) -
      (exampleTime hour min sec).dayNumber = 0 := Int.sub_self _
  rw [elapsed, sameDay, Int.zero_mul, Int.zero_add]

/-- From 11:59:40 to 12:00:11. -/
theorem ping_time_hour : KeepsTime (exampleTime 11 59 40) (exampleTime 12 0 11) := by
  have valid : (exampleTime 11 59 40).Valid :=
    ⟨by decide, by decide, by decide, by decide, by decide⟩
  have valid' : (exampleTime 12 0 11).Valid :=
    ⟨by decide, by decide, by decide, by decide, by decide⟩
  have passed : elapsed (exampleTime 11 59 40) (exampleTime 12 0 11) = 31 := by
    rw [exampleTime_elapsed]
    decide
  refine (ping_time_iff _ _ valid valid' ?_ ?_).mpr (.inr ⟨by decide, .inl passed⟩)
  · rw [passed]
    decide
  · rw [passed]
    decide

/-- Eleven minutes later the difference is one second. -/
theorem ping_time_counterexample :
    ¬ ∀ last now : SlDateTime, last.Valid → now.Valid → 0 ≤ elapsed last now →
      elapsed last now < 24 * 60 * 60 → KeepsTime last now := by
  intro keeps
  have passed : elapsed (exampleTime 12 0 0) (exampleTime 12 11 0) = 660 := by
    rw [exampleTime_elapsed]
    decide
  obtain ⟨-, time⟩ := keeps (exampleTime 12 0 0) (exampleTime 12 11 0)
    ⟨by decide, by decide, by decide, by decide, by decide⟩
    ⟨by decide, by decide, by decide, by decide, by decide⟩
    (by rw [passed]; decide) (by rw [passed]; decide)
  rw [passed] at time
  have isTime : isPingTime (exampleTime 12 0 0) (some (exampleTime 12 11 0)) = true :=
    time.mpr (by decide)
  revert isTime
  decide

end Example

end ParseEmbedded.Rtos
