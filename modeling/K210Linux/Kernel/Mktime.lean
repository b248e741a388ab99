import K210Linux.Lib.Calendar

namespace K210Linux.Kernel

open K210Linux.Lib

/-- The fields of `struct tm` that `kernel_mktime` reads. -/
structure Tm where
  sec : Int
  min : Int
  hour : Int
  mday : Int
  mon : Int
  year : Int

def MINUTE : Int := 60
def HOUR : Int := 60 * MINUTE
def DAY : Int := 24 * HOUR
def YEAR : Int := 365 * DAY

/-- The value of a signed expression of a width; `none` when it overflows. -/
def signed (width : Nat) (x : Int) : Option Int := if -2 ^ (width - 1) ≤ x ∧ x < 2 ^ (width - 1) then some x else none

/-- The table `month`. -/
def month : List Int :=
  [0, DAY * 31, DAY * (31 + 29), DAY * (31 + 29 + 31), DAY * (31 + 29 + 31 + 30), DAY * (31 + 29 + 31 + 30 + 31),
    DAY * (31 + 29 + 31 + 30 + 31 + 30), DAY * (31 + 29 + 31 + 30 + 31 + 30 + 31),
    DAY * (31 + 29 + 31 + 30 + 31 + 30 + 31 + 31), DAY * (31 + 29 + 31 + 30 + 31 + 30 + 31 + 31 + 30),
    DAY * (31 + 29 + 31 + 30 + 31 + 30 + 31 + 31 + 30 + 31), DAY * (31 + 29 + 31 + 30 + 31 + 30 + 31 + 31 + 30 + 31 + 30)]

def monthEntry (mon : Int) : Option Int := if 0 ≤ mon then month[mon.toNat]? else none

/-- The years and their leap days. -/
def yearStart (year : Int) : Option Int := do
  let years ← signed 32 (YEAR * year)
  let next ← signed 32 (year + 1)
  let leapDays ← signed 32 (DAY * (next >>> (2 : Nat)))
  signed 32 (years + leapDays)

/-- The table counts February with 29 days, which is taken back. -/
def leapCorrection (mon year res : Int) : Option Int :=
  if mon > 1 then (signed 32 (year + 2)).bind fun later => if later % 4 ≠ 0 then signed 64 (res - DAY) else some res
  else some res

/-- The lines that add the day of the month and the time of day. -/
def addTime (tm : Tm) (res : Int) : Option Int := do
  let mday ← signed 32 (tm.mday + 1)
  let days ← signed 32 (DAY * mday)
  let res ← signed 64 (res + days)
  let hours ← signed 32 (HOUR * tm.hour)
  let res ← signed 64 (res + hours)
  let minutes ← signed 32 (MINUTE * tm.min)
  let res ← signed 64 (res + minutes)
  signed 64 (res + tm.sec)

def kernelMktime (tm : Tm) : Option Int := do
  let year ← signed 32 (tm.year - 70)
  let res ← yearStart year
  let start ← monthEntry tm.mon
  let res ← signed 64 (res + start)
  let res ← leapCorrection tm.mon year res
  addTime tm res

/-- A date as `kernel_mktime` takes it. -/
def tmOf (d : DateTime) : Tm where
  sec := d.second
  min := d.minute
  hour := d.hour
  mday := d.day
  mon := d.month
  year := d.year - 1900

variable {d : DateTime}

theorem int_eq {x : Int} (low : -2147483648 ≤ x) (high : x < 2147483648) : signed 32 x = some x := by
  unfold signed
  apply if_pos
  norm_num
  omega

theorem int64_eq {x : Int} (low : -9223372036854775808 ≤ x) (high : x < 9223372036854775808) :
    signed 64 x = some x := by
  unfold signed
  apply if_pos
  norm_num
  omega

theorem some_bind (x : Int) (f : Int → Option Int) : (some x >>= f) = f x := rfl

theorem int_bind {x : Int} {f : Int → Option Int} (low : -2147483648 ≤ x) (high : x < 2147483648) :
    (signed 32 x >>= f) = f x := by
  rw [int_eq low high, some_bind]

theorem int64_bind {x : Int} {f : Int → Option Int} (low : -9223372036854775808 ≤ x) (high : x < 9223372036854775808) :
    (signed 64 x >>= f) = f x := by
  rw [int64_eq low high, some_bind]

theorem month_eq {m : Nat} (inside : m < 12) : month[m]? = some (DAY * daysBefore true m) := by
  have all : ∀ m < 12, month[m]? = some (DAY * daysBefore true m) := by decide
  exact all m inside

theorem yearStart_eq (after : 1970 ≤ d.year) (before : d.year ≤ 2037) :
    yearStart (d.year - 1970) = some (DAY * daysOfYears 1970 (d.year - 1970)) := by
  have years := daysOfYears_1970 (show d.year - 1970 ≤ 130 by omega)
  have shifted : ((d.year - 1970 + 1 : Int) >>> (2 : Nat)) = (d.year - 1970 + 1 : Int) / 4 :=
    Int.shiftRight_eq_div_pow ..
  unfold yearStart YEAR DAY HOUR MINUTE
  rw [int_bind (by omega) (by omega), int_bind (by omega) (by omega), shifted, int_bind (by omega) (by omega),
    int_eq (by omega) (by omega), years]
  refine congrArg some ?_
  omega

/-- The table and the correction come to the days before the month. -/
theorem leapCorrection_eq (valid : d.Valid) (after : 1970 ≤ d.year) (before : d.year ≤ 2037) {days : Nat} (few : days < 30000) :
    leapCorrection d.month (d.year - 1970) (DAY * days + DAY * daysBefore true d.month) =
      some (DAY * (days + daysBefore (leapYear d.year) d.month)) := by
  have rule := leapYear_iff (show 1900 < d.year by omega) (by omega)
  have bound := daysBefore_le true valid.month
  have table := daysBefore_leap (leapYear d.year) valid.month
  generalize daysBefore true d.month = full at *
  generalize daysBefore (leapYear d.year) d.month = exact at *
  unfold leapCorrection DAY HOUR MINUTE
  by_cases late : (d.month : Int) > 1
  · rw [if_pos late, int_eq (by omega) (by omega), Option.bind_some]
    by_cases leap : leapYear d.year = true
    · rw [leap, if_neg fun both => absurd both.2 (by decide)] at table
      have fourth := rule.1 leap
      rw [if_neg (by omega)]
      refine congrArg some ?_
      omega
    · have other : ¬ d.year % 4 = 0 := fun fourth => leap (rule.2 fourth)
      rw [if_pos ⟨by omega, by simpa using leap⟩] at table
      rw [if_pos (by omega), int64_eq (by omega) (by omega)]
      refine congrArg some ?_
      omega
  · rw [if_neg fun both => late (by omega)] at table
    rw [if_neg late]
    refine congrArg some ?_
    omega

theorem addTime_eq (valid : d.Valid) (days : Nat) (few : days < 40000) : addTime (tmOf d) (DAY * days) =
    some (((((days + (d.day - 1)) * 24 + d.hour) * 60 + d.minute) * 60 + d.second + 2 * 86400 : Nat) : Int) := by
  have last := valid.last.trans (monthDays_le ..)
  have first := valid.first
  have hour := valid.hour
  have minute := valid.minute
  have second := valid.second
  unfold addTime tmOf DAY HOUR MINUTE
  dsimp only
  rw [int_bind (by omega) (by omega), int_bind (by omega) (by omega), int64_bind (by omega) (by omega),
    int_bind (by omega) (by omega), int64_bind (by omega) (by omega), int_bind (by omega) (by omega),
    int64_bind (by omega) (by omega), int64_eq (by omega) (by omega)]
  refine congrArg some ?_
  omega

/-- In the years where the arithmetic does not overflow, the result is two days late. -/
theorem kernelMktime_eq (valid : d.Valid) (after : 1970 ≤ d.year) (before : d.year ≤ 2037) :
    kernelMktime (tmOf d) = some ((d.secondsSince 1970 + 2 * 86400 : Nat) : Int) := by
  have years := daysOfYears_1970 (show d.year - 1970 ≤ 130 by omega)
  have few : daysOfYears 1970 (d.year - 1970) < 30000 := by omega
  have fullBound := daysBefore_le true valid.month
  have exactBound := daysBefore_le (leapYear d.year) valid.month
  have corrected := leapCorrection_eq valid after before few
  have started := yearStart_eq after before
  have entry : monthEntry d.month = some (DAY * daysBefore true d.month) := by
    rw [monthEntry, if_pos (by omega), Int.toNat_natCast, month_eq valid.month]
  have added := addTime_eq valid (daysOfYears 1970 (d.year - 1970) + daysBefore (leapYear d.year) d.month) (by omega)
  have shifted : (tmOf d).year - 70 = d.year - 1970 := by
    change (d.year - 1900 - 70 : Int) = _
    omega
  have mon : (tmOf d).mon = d.month := rfl
  have day : DAY = 86400 := by decide
  unfold kernelMktime
  rw [shifted, int_bind (by omega) (by omega), mon, started, some_bind, entry, some_bind,
    int64_bind (by rw [day]; omega) (by rw [day]; omega), corrected, some_bind, ← Nat.cast_add, added,
    DateTime.secondsSince, DateTime.daysSince]

/-- On no date does it return the seconds since 1970. -/
theorem kernel_mktime_wrong (d : DateTime) (valid : d.Valid) (after : 1970 ≤ d.year) (before : d.year ≤ 2037) :
    kernelMktime (tmOf d) ≠ some (d.secondsSince 1970 : Int) := by
  rw [kernelMktime_eq valid after before]
  intro same
  have late := Option.some.inj same
  omega

/-- The date that `time_init` has in mind. -/
def startupDate : DateTime := ⟨2019, 11, 20, 22, 51, 12⟩

/-- `time_init` gives the year itself, and the arithmetic overflows. -/
example : kernelMktime { tmOf startupDate with year := 2019 } = none := by decide

theorem startup_late : startupDate.Valid ∧ kernelMktime (tmOf startupDate) ≠ some (startupDate.secondsSince 1970 : Int) := by
  have valid : startupDate.Valid := by constructor <;> decide
  exact ⟨valid, kernel_mktime_wrong startupDate valid (by decide) (by decide)⟩

theorem epoch_late : ¬ ∀ d : DateTime, d.Valid → 1970 ≤ d.year → d.year ≤ 2037 →
    kernelMktime (tmOf d) = some (d.secondsSince 1970 : Int) := by
  intro law
  have valid : DateTime.Valid ⟨1970, 0, 1, 0, 0, 0⟩ := by constructor <;> decide
  have unix := law ⟨1970, 0, 1, 0, 0, 0⟩ valid (by decide) (by decide)
  exact absurd unix (by decide)

end K210Linux.Kernel
