import Mathlib.Tactic

namespace K210Linux.Lib

/-- The Gregorian rule. -/
def leapYear (year : Nat) : Bool := year % 4 = 0 && (year % 100 ≠ 0 || year % 400 = 0)

/-- The length of a month; the first one is 0. -/
def monthDays (leap : Bool) : Nat → Nat
  | 0 => 31
  | 1 => if leap then 29 else 28
  | 2 => 31
  | 3 => 30
  | 4 => 31
  | 5 => 30
  | 6 => 31
  | 7 => 31
  | 8 => 30
  | 9 => 31
  | 10 => 30
  | 11 => 31
  | _ => 0

/-- The days of a year before a month. -/
def daysBefore (leap : Bool) (month : Nat) : Nat := ((List.range month).map (monthDays leap)).sum

def yearDays (leap : Bool) : Nat := daysBefore leap 12

/-- The days from the start of a year to the start of one some years later. -/
def daysOfYears (start : Nat) : Nat → Nat
  | 0 => 0
  | years + 1 => daysOfYears start years + yearDays (leapYear (start + years))

structure DateTime where
  year : Nat
  month : Nat
  day : Nat
  hour : Nat
  minute : Nat
  second : Nat

structure DateTime.Valid (d : DateTime) : Prop where
  month : d.month < 12
  first : 1 ≤ d.day
  last : d.day ≤ monthDays (leapYear d.year) d.month
  hour : d.hour < 24
  minute : d.minute < 60
  second : d.second < 60

/-- The days from the start of a year to a date. -/
def DateTime.daysSince (epoch : Nat) (d : DateTime) : Nat :=
  daysOfYears epoch (d.year - epoch) + daysBefore (leapYear d.year) d.month + (d.day - 1)

def DateTime.secondsSince (epoch : Nat) (d : DateTime) : Nat :=
  ((d.daysSince epoch * 24 + d.hour) * 60 + d.minute) * 60 + d.second

theorem monthDays_le (leap : Bool) (month : Nat) : monthDays leap month ≤ 31 := by
  unfold monthDays
  split
  all_goals first | omega | (split <;> omega)

theorem yearDays_eq (leap : Bool) : yearDays leap = if leap then 366 else 365 := by
  cases leap <;> decide

theorem daysBefore_le (leap : Bool) {month : Nat} (inside : month < 12) : daysBefore leap month ≤ 335 := by
  have all : ∀ leap : Bool, ∀ month < 12, daysBefore leap month ≤ 335 := by decide
  exact all leap month inside

/-- Without a leap day, what comes after February is a day earlier. -/
theorem daysBefore_leap (leap : Bool) {month : Nat} (inside : month < 12) :
    daysBefore true month = daysBefore leap month + if 1 < month ∧ leap = false then 1 else 0 := by
  have all : ∀ leap : Bool, ∀ month < 12,
      daysBefore true month = daysBefore leap month + if 1 < month ∧ leap = false then 1 else 0 := by decide
  exact all leap month inside

/-- Between two centuries that are not divisible by four hundred, every fourth year is a leap year. -/
theorem leapYear_iff {year : Nat} (after : 1900 < year) (before : year < 2100) : leapYear year = true ↔ year % 4 = 0 := by
  simp only [leapYear, Bool.and_eq_true, Bool.or_eq_true, decide_eq_true_eq]
  omega

theorem daysOfYears_1970 {years : Nat} (before : years ≤ 130) : daysOfYears 1970 years = 365 * years + (years + 1) / 4 := by
  induction years with
  | zero => rfl
  | succ years ih =>
    have rule := leapYear_iff (show 1900 < 1970 + years by omega) (by omega)
    rw [daysOfYears, ih (by omega), yearDays_eq]
    by_cases leap : leapYear (1970 + years) = true
    · rw [if_pos leap]
      have fourth := rule.1 leap
      omega
    · rw [if_neg leap]
      have other : ¬ (1970 + years) % 4 = 0 := fun fourth => leap (rule.2 fourth)
      omega

end K210Linux.Lib
