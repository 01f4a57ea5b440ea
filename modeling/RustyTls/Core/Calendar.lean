import Mathlib.Algebra.BigOperators.Intervals
import Mathlib.Algebra.Order.BigOperators.Group.Finset

/-!
# RustyTls.Core.Calendar

Calendars, as the number of days each of their months has.

A date's number is how many days come before it since the first day of year zero, counted by
summing whole years, whole months and days (`Calendar.dayNumber`). Whatever the months' lengths
are, the next day has the next number (`dayNumber_next`) and a later date a larger one
(`dayNumber_lt`).
-/

namespace RustyTls.Core

/-- A calendar of years of `months` months; months and days are counted from one. -/
structure Calendar where
  months : Nat
  days : Nat → Nat → Nat

/-- A day of a calendar. -/
structure Date where
  year : Nat
  month : Nat
  day : Nat
  deriving Repr, DecidableEq

namespace Date

/-- The order of dates: by year, then by month, then by day. -/
def Before (date date' : Date) : Prop :=
  date.year < date'.year ∨ (date.year = date'.year ∧
    (date.month < date'.month ∨ (date.month = date'.month ∧ date.day < date'.day)))

theorem before_or_eq (date date' : Date) : date.Before date' ∨ date = date' ∨ date'.Before date := by
  obtain ⟨y, m, d⟩ := date
  obtain ⟨y', m', d'⟩ := date'
  simp only [Before, mk.injEq]
  omega

end Date

namespace Calendar

variable (calendar : Calendar)

/-- The days of a date exist. -/
structure Valid (date : Date) : Prop where
  monthPos : 1 ≤ date.month
  monthLe : date.month ≤ calendar.months
  dayPos : 1 ≤ date.day
  dayLe : date.day ≤ calendar.days date.year date.month

def daysBeforeMonth (year month : Nat) : Nat :=
  ∑ i ∈ Finset.range (month - 1), calendar.days year (i + 1)

def yearDays (year : Nat) : Nat := ∑ i ∈ Finset.range calendar.months, calendar.days year (i + 1)

def daysBeforeYear (year : Nat) : Nat := ∑ y ∈ Finset.range year, calendar.yearDays y

/-- How many days come before a date, from the first day of year zero on. -/
def dayNumber (date : Date) : Nat :=
  calendar.daysBeforeYear date.year + calendar.daysBeforeMonth date.year date.month + (date.day - 1)

/-- The day after a date. -/
def next (date : Date) : Date :=
  if date.day < calendar.days date.year date.month then ⟨date.year, date.month, date.day + 1⟩
  else if date.month < calendar.months then ⟨date.year, date.month + 1, 1⟩
  else ⟨date.year + 1, 1, 1⟩

theorem daysBeforeYear_succ (year : Nat) :
    calendar.daysBeforeYear (year + 1) = calendar.daysBeforeYear year + calendar.yearDays year :=
  Finset.sum_range_succ _ _

theorem daysBeforeMonth_succ (year : Nat) {month : Nat} (h : 1 ≤ month) :
    calendar.daysBeforeMonth year (month + 1)
      = calendar.daysBeforeMonth year month + calendar.days year month := by
  obtain ⟨m, rfl⟩ : ∃ m, month = m + 1 := ⟨month - 1, by omega⟩
  exact Finset.sum_range_succ _ _

theorem daysBeforeYear_mono {year year' : Nat} (h : year ≤ year') :
    calendar.daysBeforeYear year ≤ calendar.daysBeforeYear year' :=
  Finset.sum_le_sum_of_subset (Finset.range_mono h)

theorem daysBeforeMonth_mono (year : Nat) {month month' : Nat} (h : month ≤ month') :
    calendar.daysBeforeMonth year month ≤ calendar.daysBeforeMonth year month' :=
  Finset.sum_le_sum_of_subset (Finset.range_mono (by omega))

theorem yearDays_eq (year : Nat) :
    calendar.yearDays year = calendar.daysBeforeMonth year (calendar.months + 1) := rfl

/-- The next day exists, in a calendar without empty months. -/
theorem valid_next (hpos : 1 ≤ calendar.months)
    (hdays : ∀ year month, 1 ≤ month → month ≤ calendar.months → 1 ≤ calendar.days year month)
    {date : Date} (h : calendar.Valid date) : calendar.Valid (calendar.next date) := by
  have hmonth := h.monthPos
  have hle := h.monthLe
  unfold next
  split
  · next hday => exact ⟨hmonth, hle, Nat.le_add_left 1 _, hday⟩
  split
  · next hnext => exact ⟨Nat.le_add_left 1 _, hnext, le_rfl, hdays _ _ (Nat.le_add_left 1 _) hnext⟩
  · exact ⟨le_rfl, hpos, le_rfl, hdays _ _ le_rfl hpos⟩

/-- The next day has the next number. -/
theorem dayNumber_next {date : Date} (h : calendar.Valid date) :
    calendar.dayNumber (calendar.next date) = calendar.dayNumber date + 1 := by
  obtain ⟨hmonth, hle, hday, hdayLe⟩ := h
  have hsucc := calendar.daysBeforeMonth_succ date.year hmonth
  unfold next dayNumber
  split
  · simp only
    omega
  split
  · simp only
    omega
  · have hlast : date.month = calendar.months := by omega
    have hyear := calendar.daysBeforeYear_succ date.year
    have hfirst : calendar.daysBeforeMonth (date.year + 1) 1 = 0 := rfl
    rw [calendar.yearDays_eq, ← hlast] at hyear
    simp only
    omega

/-- A day of a month is within its year. -/
theorem daysBeforeMonth_add_lt {date : Date} (h : calendar.Valid date) {month : Nat}
    (hmonth : date.month < month) :
    calendar.daysBeforeMonth date.year date.month + (date.day - 1)
      < calendar.daysBeforeMonth date.year month := by
  have hsucc := calendar.daysBeforeMonth_succ date.year h.monthPos
  have hmono : calendar.daysBeforeMonth date.year (date.month + 1) ≤ _ :=
    calendar.daysBeforeMonth_mono date.year hmonth
  have hday := h.dayPos
  have hdayLe := h.dayLe
  omega

/-- A date is before the year after it. -/
theorem dayNumber_lt_year {date : Date} (h : calendar.Valid date) :
    calendar.dayNumber date < calendar.daysBeforeYear (date.year + 1) := by
  have hwithin := calendar.daysBeforeMonth_add_lt h (Nat.lt_add_one_of_le h.monthLe)
  rw [← calendar.yearDays_eq] at hwithin
  rw [calendar.daysBeforeYear_succ, dayNumber]
  omega

/-- Later dates have larger numbers. -/
theorem dayNumber_lt {date date' : Date} (h : calendar.Valid date) (hbefore : date.Before date') :
    calendar.dayNumber date < calendar.dayNumber date' := by
  rcases hbefore with hyear | ⟨hyear, hmonth | ⟨hmonth, hday⟩⟩
  · calc calendar.dayNumber date
      _ < calendar.daysBeforeYear (date.year + 1) := calendar.dayNumber_lt_year h
      _ ≤ calendar.daysBeforeYear date'.year := calendar.daysBeforeYear_mono hyear
      _ ≤ calendar.dayNumber date' := by
        rw [dayNumber, Nat.add_assoc]
        exact Nat.le_add_right _ _
  · unfold dayNumber
    have hwithin := calendar.daysBeforeMonth_add_lt h hmonth
    rw [hyear] at hwithin ⊢
    omega
  · have hpos := h.dayPos
    rw [dayNumber, dayNumber, hyear, hmonth]
    omega

end Calendar

end RustyTls.Core
