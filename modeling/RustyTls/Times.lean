import Mathlib.Tactic.IntervalCases
import RustyTls.Core.Calendar
import RustyTls.X509Canonical

/-!
# RustyTls.Times

The times of a certificate, and the civil calendar.

`days_from_civil` is a closed formula over years that begin in March. It is the number of days of
the Gregorian calendar, counted month by month from 1970-01-01 (`daysFromCivil_eq`), so the order
of the times that `read_time` returns is the order of the dates and times of day written down
(`CivilTime.seconds_lt`), and none of the arithmetic leaves an `i64`.

A time is written as a `UTCTime` with two digits of the year or as a `GeneralizedTime` with four.
Each format has one string for a moment. From 1950 to 2049 both formats have one, and `read_time`
takes either (`acceptsTime_unique_iff`).
-/

namespace RustyTls

open Core Der

/-! ### The Gregorian calendar -/

/-- The calendar of `days_in_month`. -/
def gregorian : Calendar := ⟨12, daysInMonth⟩

theorem isLeapYear_iff (year : Nat) :
    isLeapYear year = true ↔ year % 4 = 0 ∧ (year % 100 ≠ 0 ∨ year % 400 = 0) := by
  simp [isLeapYear]

theorem daysInMonth_le (year month : Nat) : daysInMonth year month ≤ 31 := by
  unfold daysInMonth
  split <;> first | decide | (split <;> decide)

theorem one_le_daysInMonth (year : Nat) {month : Nat} (hpos : 1 ≤ month) (hle : month ≤ 12) :
    1 ≤ daysInMonth year month := by
  cases hleap : isLeapYear year <;> interval_cases month <;> simp [daysInMonth, hleap]

/-- The months and the days of a month as numbers. -/
theorem gregorian_bounds {date : Date} (h : gregorian.Valid date) :
    (1 ≤ date.month ∧ date.month ≤ 12) ∧ 1 ≤ date.day ∧ date.day ≤ 31 := by
  have hday : date.day ≤ daysInMonth date.year date.month := h.dayLe
  exact ⟨⟨h.monthPos, h.monthLe⟩, h.dayPos, hday.trans (daysInMonth_le _ _)⟩

theorem gregorian_yearDays (year : Nat) :
    gregorian.yearDays year = if isLeapYear year then 366 else 365 := by
  simp only [Calendar.yearDays, gregorian, Finset.sum_range_succ, Finset.sum_range_zero,
    daysInMonth]
  split <;> rfl

/-- The days before a year: one more for each leap year before it, of which the first is zero. -/
theorem gregorian_daysBeforeYear (year : Nat) :
    (gregorian.daysBeforeYear year : Int) = 366 + 365 * ((year : Int) - 1) + ((year : Int) - 1) / 4 -
      ((year : Int) - 1) / 100 + ((year : Int) - 1) / 400 := by
  induction year with
  | zero => rfl
  | succ year ih =>
      have hfour : (year : Int) / 4 = ((year : Int) - 1) / 4 + if year % 4 = 0 then 1 else 0 := by
        split_ifs <;> omega
      have hhundred : (year : Int) / 100
          = ((year : Int) - 1) / 100 + if year % 100 = 0 then 1 else 0 := by
        split_ifs <;> omega
      have hera : (year : Int) / 400
          = ((year : Int) - 1) / 400 + if year % 400 = 0 then 1 else 0 := by
        split_ifs <;> omega
      have hleap := isLeapYear_iff year
      rw [Calendar.daysBeforeYear_succ, gregorian_yearDays, Nat.cast_add, ih, Nat.cast_succ,
        Int.add_sub_cancel, hfour, hhundred, hera]
      generalize ((year : Int) - 1) / 4 = fours
      generalize ((year : Int) - 1) / 100 = centuries
      generalize ((year : Int) - 1) / 400 = eras
      split
      · next h =>
          obtain ⟨hfour, hcentury⟩ := hleap.mp h
          split_ifs <;> omega
      · next h =>
          have hcommon := mt hleap.mpr h
          split_ifs <;> omega

/-- The days before a month, from March on by the formula for the lengths of the months. -/
theorem gregorian_daysBeforeMonth (year : Nat) {month : Nat} (hpos : 1 ≤ month)
    (hle : month ≤ 12) :
    gregorian.daysBeforeMonth year month =
      if month ≤ 2 then 31 * (month - 1)
      else (if isLeapYear year then 60 else 59) + (153 * (month - 3) + 2) / 5 := by
  induction month, hpos using Nat.le_induction with
  | base => rfl
  | succ month hpos ih =>
      rw [gregorian.daysBeforeMonth_succ year hpos, ih (by omega)]
      have hlast : month ≤ 11 := by omega
      interval_cases month <;> cases hleap : isLeapYear year <;>
        simp [gregorian, daysInMonth, hleap]

/-- The eras of 400 years are counted downwards before year zero. -/
theorem era_eq (year : Int) : (if 0 ≤ year then year else year - 399).tdiv 400 = year / 400 := by
  have hsign : (400 : Int).sign = 1 := rfl
  rw [Int.tdiv_eq_ediv, hsign]
  split <;> split <;> omega

/-- The days of whole years, by eras: one more for each leap year. -/
theorem eras_eq (year : Int) :
    year / 400 * 146097 + ((year - year / 400 * 400) * 365 + (year - year / 400 * 400).tdiv 4 -
      (year - year / 400 * 400).tdiv 100)
      = 365 * year + year / 4 - year / 100 + year / 400 := by
  have hpos : 0 ≤ year - year / 400 * 400 := by omega
  rw [Int.tdiv_eq_ediv_of_nonneg hpos, Int.tdiv_eq_ediv_of_nonneg hpos]
  have hfour : (year - year / 400 * 400) / 4 = year / 4 - year / 400 * 100 := by omega
  have hhundred : (year - year / 400 * 400) / 100 = year / 100 - year / 400 * 4 := by omega
  rw [hfour, hhundred]
  omega

/-- The days of whole months, in a year that begins in March. -/
theorem monthIndex_days {month : Nat} (hpos : 1 ≤ month) (hle : month ≤ 12) :
    (153 * ((month : Int) + 9).tmod 12 + 2).tdiv 5
      = if month ≤ 2 then 306 + 31 * ((month : Int) - 1) else (153 * (month - 3) + 2) / 5 := by
  interval_cases month <;> rfl

theorem gregorian_epoch : gregorian.dayNumber ⟨1970, 1, 1⟩ = 719528 := by
  -- for a year that is only known to be 1970: nothing is to sum up its days
  have hyear : ∀ year, year = 1970 → gregorian.dayNumber ⟨year, 1, 1⟩ = 719528 := by
    intro year h
    have hyears := gregorian_daysBeforeYear year
    have hjanuary : gregorian.daysBeforeMonth year 1 = 0 := rfl
    simp only [Calendar.dayNumber, hjanuary]
    omega
  exact hyear 1970 rfl

/-- `days_from_civil` counts the days of the calendar since 1970-01-01. -/
theorem daysFromCivil_eq {date : Date} (h : gregorian.Valid date) :
    daysFromCivil date.year date.month date.day
      = (gregorian.dayNumber date : Int) - gregorian.dayNumber ⟨1970, 1, 1⟩ := by
  obtain ⟨y, m, d⟩ := date
  obtain ⟨⟨hpos, hle⟩, hday, -⟩ :
      (1 ≤ m ∧ m ≤ 12) ∧ 1 ≤ d ∧ d ≤ 31 := gregorian_bounds h
  have hmonths := gregorian_daysBeforeMonth y hpos hle
  rw [gregorian_epoch]
  simp only [daysFromCivil, Calendar.dayNumber, era_eq, monthIndex_days hpos hle]
  by_cases hm : m ≤ 2
  · -- January and February end the year before
    have hyears := gregorian_daysBeforeYear y
    rw [if_pos hm] at hmonths ⊢
    rw [if_pos (by omega)]
    have heras := eras_eq (y - 1)
    generalize gregorian.daysBeforeYear y = before at *
    generalize ((y : Int) - 1) / 400 * 146097 = eras at *
    omega
  · -- the day of a leap year is within the year that ends before March
    have hyears := gregorian_daysBeforeYear (y + 1)
    rw [Calendar.daysBeforeYear_succ, gregorian_yearDays, Nat.cast_add, Nat.cast_succ,
      Int.add_sub_cancel] at hyears
    have heras := eras_eq y
    rw [if_neg hm] at hmonths ⊢
    rw [if_neg (by omega)]
    split at hmonths
    · next h =>
        rw [if_pos h] at hyears
        omega
    · next h =>
        rw [if_neg h] at hyears
        omega

/-! ### Digits -/

/-- A number in so many decimal digits. -/
def decimal : Nat → Nat → Bytes
  | 0, _ => []
  | width + 1, n => decimal width (n / 10) ++ [UInt8.ofNat (0x30 + n % 10)]

@[simp] theorem decimal_length (width n : Nat) : (decimal width n).length = width := by
  induction width generalizing n with
  | zero => rfl
  | succ width ih => simp [decimal, ih]

theorem digit_iff {octet : UInt8} {value : Nat} :
    (0x30 ≤ octet ∧ octet ≤ 0x39) ∧ (octet - 0x30).toNat = value ↔
      value < 10 ∧ octet = UInt8.ofNat (0x30 + value) := by
  have hlow : (0x30 : UInt8) ≤ octet ↔ 48 ≤ octet.toNat := UInt8.le_iff_toNat_le
  have hhigh : octet ≤ (0x39 : UInt8) ↔ octet.toNat ≤ 57 := UInt8.le_iff_toNat_le
  have hsub : (0x30 : UInt8) ≤ octet → (octet - 0x30).toNat = octet.toNat - 48 :=
    UInt8.toNat_sub_of_le octet 0x30
  rw [← UInt8.toNat_inj, UInt8.toNat_ofNat']
  constructor
  · intro h
    obtain ⟨⟨hle, hge⟩, rfl⟩ := h
    have hvalue := hsub hle
    rw [hlow] at hle
    rw [hhigh] at hge
    omega
  · intro h
    obtain ⟨hten, heq⟩ := h
    have hle : (0x30 : UInt8) ≤ octet := hlow.mpr (by omega)
    exact ⟨⟨hle, hhigh.mpr (by omega)⟩, by rw [hsub hle]; omega⟩

/-- The octets that are read as a number are its decimal digits. -/
theorem digits_iff {bytes : Bytes} {n : Nat} :
    digits bytes = .ok n ↔ n < 10 ^ bytes.length ∧ bytes = decimal bytes.length n := by
  -- By induction from the last digit.
  induction bytes using List.reverseRecOn generalizing n with
  | nil =>
      have hzero : digits [] = .ok n ↔ 0 = n := by simp [digits]
      rw [hzero, List.length_nil, Nat.pow_zero, Nat.lt_one_iff]
      exact ⟨fun h => ⟨h.symm, rfl⟩, fun h => h.1.symm⟩
  | append_singleton front last ih =>
      have hstep : digits (front ++ [last]) = .ok n ↔
          ∃ value, digits front = .ok value ∧ (0x30 ≤ last ∧ last ≤ 0x39) ∧
            value * 10 + (last - 0x30).toNat = n := by
        simp only [digits, List.foldlM_append, bind_eq_ok, List.foldlM_cons, List.foldlM_nil]
        refine exists_congr fun value => and_congr_right fun _ => ?_
        split
        · next h => simp [h]
        · next h => simp [h]
      rw [hstep, List.length_append, List.length_singleton, decimal, Nat.pow_succ]
      constructor
      · intro h
        obtain ⟨value, hfront, hdigit, rfl⟩ := h
        obtain ⟨hten, hlast⟩ := digit_iff.mp ⟨hdigit, rfl⟩
        obtain ⟨hlt, hbytes⟩ := ih.mp hfront
        have hdiv : (value * 10 + (last - 0x30).toNat) / 10 = value := by omega
        have hmod : (value * 10 + (last - 0x30).toNat) % 10 = (last - 0x30).toNat := by omega
        rw [hdiv, hmod, ← hbytes, ← hlast]
        exact ⟨by omega, rfl⟩
      · intro h
        obtain ⟨hlt, hbytes⟩ := h
        obtain ⟨hfront, hlast⟩ := List.append_inj' hbytes rfl
        obtain ⟨hdigit, hvalue⟩ :=
          digit_iff.mpr ⟨Nat.mod_lt n (by decide), (List.cons.inj hlast).1⟩
        exact ⟨n / 10, ih.mpr ⟨by omega, hfront⟩, hdigit, by omega⟩

theorem digits_decimal {width n : Nat} (h : n < 10 ^ width) : digits (decimal width n) = .ok n := by
  rw [digits_iff, decimal_length]
  exact ⟨h, rfl⟩

/-! ### The time an element denotes -/

/-- A date and a time of day, as they are written down. -/
structure CivilTime where
  date : Date
  hour : Nat
  minute : Nat
  second : Nat

namespace CivilTime

/-- There is such a time. -/
structure Valid (time : CivilTime) : Prop where
  date : gregorian.Valid time.date
  hour : time.hour ≤ 23
  minute : time.minute ≤ 59
  second : time.second ≤ 59

/-- The order of times, by date and then by time of day. -/
def Before (time time' : CivilTime) : Prop :=
  time.date.Before time'.date ∨ (time.date = time'.date ∧
    (time.hour < time'.hour ∨ (time.hour = time'.hour ∧
      (time.minute < time'.minute ∨ (time.minute = time'.minute ∧ time.second < time'.second)))))

theorem before_or_eq (time time' : CivilTime) :
    time.Before time' ∨ time = time' ∨ time'.Before time := by
  obtain ⟨date, h, m, s⟩ := time
  obtain ⟨date', h', m', s'⟩ := time'
  simp only [Before, mk.injEq]
  rcases Date.before_or_eq date date' with hlt | rfl | hlt
  · exact .inl (.inl hlt)
  · simp only [true_and]
    omega
  · exact .inr (.inr (.inl hlt))

/-- Seconds since 1970, as `read_time` works them out. -/
def seconds (time : CivilTime) : Int :=
  daysFromCivil time.date.year time.date.month time.date.day * 86400 + time.hour * 3600 +
    time.minute * 60 + time.second

/-- Later times have more seconds. -/
theorem seconds_lt {time time' : CivilTime} (h : time.Valid) (h' : time'.Valid)
    (hbefore : time.Before time') : time.seconds < time'.seconds := by
  have hhour := h.hour
  have hminute := h.minute
  have hsecond := h.second
  rcases hbefore with hdate | ⟨hdate, hday⟩
  · have hdays := gregorian.dayNumber_lt h.date hdate
    simp only [seconds, daysFromCivil_eq h.date, daysFromCivil_eq h'.date]
    omega
  · simp only [seconds, hdate]
    omega

/-- A number of seconds is the number of one time. -/
theorem seconds_inj {time time' : CivilTime} (h : time.Valid) (h' : time'.Valid)
    (heq : time.seconds = time'.seconds) : time = time' := by
  rcases before_or_eq time time' with hlt | rfl | hlt
  · exact absurd heq (seconds_lt h h' hlt).ne
  · rfl
  · exact absurd heq.symm (seconds_lt h' h hlt).ne

/-- What both formats write after the year. -/
def afterYear (time : CivilTime) : Bytes :=
  decimal 2 time.date.month ++ decimal 2 time.date.day ++ decimal 2 time.hour ++
    decimal 2 time.minute ++ decimal 2 time.second ++ [0x5a]

theorem afterYear_length (time : CivilTime) : time.afterYear.length = 11 := by
  simp [afterYear]

/-- Both formats are within the short form of a length. -/
theorem digits_short (time : CivilTime) {width : Nat} (hwidth : width ≤ 4) (year : Nat) :
    (decimal width year ++ time.afterYear).length < 128 := by
  rw [List.length_append, decimal_length, afterYear_length]
  omega

/-- The time as a `UTCTime`, of a year from 1950 to 2049. -/
def utcTime (time : CivilTime) : Bytes :=
  encodeTlv .utcTime (decimal 2 (time.date.year % 100) ++ time.afterYear)

/-- The time as a `GeneralizedTime`. -/
def generalizedTime (time : CivilTime) : Bytes :=
  encodeTlv .generalizedTime (decimal 4 time.date.year ++ time.afterYear)

end CivilTime

/-- The fields that `read_time` reads out of an element. -/
def timeFields (value : Value) : Except X509Error CivilTime := do
  let (year, rest) ← timeYear value
  refuse (rest.getLast? ≠ some 0x5a) .malformedTime
  let month ← digits ((rest.drop 0).take 2)
  let day ← digits ((rest.drop 2).take 2)
  let hour ← digits ((rest.drop 4).take 2)
  let minute ← digits ((rest.drop 6).take 2)
  let second ← digits ((rest.drop 8).take 2)
  .ok ⟨⟨year, month, day⟩, hour, minute, second⟩

/-- `read_time` reads the fields of the next element, and returns the seconds if there is such a
time. -/
theorem readTime_iff {r r' : Der.Reader} {result : Int} :
    readTime r = .ok (result, r') ↔ ∃ value time, readAny r = .ok value r' ∧
      timeFields value = .ok time ∧ time.Valid ∧ result = time.seconds := by
  simp only [readTime, timeFields, bind_eq_ok, onX_eq_ok, refuse_eq_ok, Prod.exists,
    Except.ok.injEq, Prod.mk.injEq]
  constructor
  · intro h
    obtain ⟨value, r₁, hvalue, year, rest, hyear, _, hzulu, month, hmonth, day, hday, hour,
      hhour, minute, hminute, second, hsecond, _, hvalid, hresult, rfl⟩ := h
    refine ⟨value, _, hvalue, ⟨year, rest, hyear, (), hzulu, month, hmonth, day, hday, hour, hhour,
      minute, hminute, second, hsecond, rfl⟩, ?_, hresult.symm⟩
    simp only [not_or, not_lt, Decidable.not_not] at hvalid
    obtain ⟨⟨hpos, hle⟩, hdayPos, hdayLe, hhourLe, hminuteLe, hsecondLe⟩ := hvalid
    exact ⟨⟨hpos, hle, hdayPos, hdayLe⟩, hhourLe, hminuteLe, hsecondLe⟩
  · intro h
    obtain ⟨value, _, hvalue, ⟨year, rest, hyear, _, hzulu, month, hmonth, day, hday, hour,
      hhour, minute, hminute, second, hsecond, rfl⟩,
      ⟨⟨hpos, hle, hdayPos, hdayLe⟩, hhourLe, hminuteLe, hsecondLe⟩, rfl⟩ := h
    refine ⟨value, r', hvalue, year, rest, hyear, (), hzulu, month, hmonth, day, hday, hour, hhour,
      minute, hminute, second, hsecond, (), ?_, rfl, rfl⟩
    simp only [not_or, not_lt, Decidable.not_not]
    exact ⟨⟨hpos, hle⟩, hdayPos, hdayLe, hhourLe, hminuteLe, hsecondLe⟩

/-- Every field after the year has at most two digits. -/
structure CivilTime.TwoDigits (time : CivilTime) : Prop where
  month : time.date.month < 100
  day : time.date.day < 100
  hour : time.hour < 100
  minute : time.minute < 100
  second : time.second < 100

theorem CivilTime.Valid.twoDigits {time : CivilTime} (h : time.Valid) : time.TwoDigits := by
  obtain ⟨⟨-, hmonth⟩, -, hday⟩ := gregorian_bounds h.date
  have hhour := h.hour
  have hminute := h.minute
  have hsecond := h.second
  constructor <;> omega

theorem decimal_two {bytes : Bytes} {n : Nat} (hlen : bytes.length = 2) :
    digits bytes = .ok n ↔ n < 100 ∧ bytes = decimal 2 n := by
  rw [digits_iff, hlen]
  rfl

/-- The octets after the year are the fields' digits and a `Z`. -/
theorem afterYear_iff {rest : Bytes} (hlen : rest.length = 11) (time : CivilTime) :
    (rest.getLast? = some 0x5a ∧ digits ((rest.drop 0).take 2) = .ok time.date.month ∧
      digits ((rest.drop 2).take 2) = .ok time.date.day ∧
      digits ((rest.drop 4).take 2) = .ok time.hour ∧
      digits ((rest.drop 6).take 2) = .ok time.minute ∧
      digits ((rest.drop 8).take 2) = .ok time.second) ↔
    time.TwoDigits ∧ rest = time.afterYear := by
  have hpair : ∀ k ≤ 8, ((rest.drop k).take 2).length = 2 := by
    intro k hk
    rw [List.length_take, List.length_drop]
    omega
  rw [decimal_two (hpair 0 (by decide)), decimal_two (hpair 2 (by decide)),
    decimal_two (hpair 4 (by decide)), decimal_two (hpair 6 (by decide)),
    decimal_two (hpair 8 (by decide))]
  have hsplit : ∀ k, rest.drop k = (rest.drop k).take 2 ++ rest.drop (k + 2) := by
    intro k
    rw [← List.drop_drop, List.take_append_drop]
  have hlast : rest.drop 10 = rest.getLast?.toList := by
    obtain ⟨last, hdrop⟩ := List.length_eq_one_iff.mp
      (show (rest.drop 10).length = 1 by rw [List.length_drop, hlen])
    have hwhole : rest = rest.take 10 ++ [last] := by rw [← hdrop, List.take_append_drop]
    rw [hdrop, (congrArg List.getLast? hwhole).trans List.getLast?_concat]
    rfl
  have hrest : rest = (rest.drop 0).take 2 ++ (rest.drop 2).take 2 ++ (rest.drop 4).take 2 ++
      (rest.drop 6).take 2 ++ (rest.drop 8).take 2 ++ rest.getLast?.toList := by
    conv_lhs => rw [← List.drop_zero (l := rest), hsplit 0, hsplit 2, hsplit 4, hsplit 6,
      hsplit 8, hlast]
    simp only [List.append_assoc]
  constructor
  · intro h
    obtain ⟨hzulu, ⟨hmonth, hm⟩, ⟨hday, hd⟩, ⟨hhour, hh⟩, ⟨hminute, hmi⟩, hsecond, hs⟩ := h
    refine ⟨⟨hmonth, hday, hhour, hminute, hsecond⟩, ?_⟩
    rw [hm, hd, hh, hmi, hs, hzulu] at hrest
    exact hrest
  · intro h
    obtain ⟨⟨hmonth, hday, hhour, hminute, hsecond⟩, rfl⟩ := h
    exact ⟨List.getLast?_concat, ⟨hmonth, rfl⟩, ⟨hday, rfl⟩, ⟨hhour, rfl⟩, ⟨hminute, rfl⟩,
      hsecond, rfl⟩

theorem timeYear_iff {value : Value} {year : Nat} {rest : Bytes} :
    timeYear value = .ok (year, rest) ↔ rest.length = 11 ∧
      ((value.tag = .utcTime ∧ 1950 ≤ year ∧ year ≤ 2049 ∧
        value.contents = decimal 2 (year % 100) ++ rest) ∨
      (value.tag = .generalizedTime ∧ year ≤ 9999 ∧ value.contents = decimal 4 year ++ rest)) := by
  have htags : Tag.generalizedTime ≠ Tag.utcTime := by decide
  unfold timeYear
  split
  · next htag =>
      simp only [htag, htags.symm, true_and, false_and, or_false, bind_eq_ok, refuse_eq_ok,
        Decidable.not_not, Except.ok.injEq, Prod.mk.injEq]
      constructor
      · intro h
        obtain ⟨_, hlen, two, htwo, hyear, rfl⟩ := h
        obtain ⟨hlt, hdigits⟩ := (decimal_two (by rw [List.length_take, hlen]; rfl)).mp htwo
        have hcentury : year % 100 = two ∧ 1950 ≤ year ∧ year ≤ 2049 := by
          split at hyear <;> omega
        refine ⟨by rw [List.length_drop, hlen], hcentury.2.1, hcentury.2.2, ?_⟩
        rw [hcentury.1, ← hdigits, List.take_append_drop]
      · intro h
        obtain ⟨hlen, hlow, hhigh, hcontents⟩ := h
        have hwidth := decimal_length 2 (year % 100)
        refine ⟨(), by rw [hcontents, List.length_append, hwidth, hlen], year % 100, ?_, ?_, ?_⟩
        · rw [hcontents, List.take_left' hwidth]
          exact digits_decimal (Nat.mod_lt _ (by decide))
        · split <;> omega
        · rw [hcontents, List.drop_left' hwidth]
  split
  · next htag =>
      simp only [htag, htags, true_and, false_and, false_or, bind_eq_ok, refuse_eq_ok,
        Decidable.not_not, Except.ok.injEq, Prod.mk.injEq]
      constructor
      · intro h
        obtain ⟨_, hlen, year, hyear, rfl, rfl⟩ := h
        have hwidth : (value.contents.take 4).length = 4 := by rw [List.length_take, hlen]; rfl
        obtain ⟨hlt, hdigits⟩ := digits_iff.mp hyear
        rw [hwidth] at hlt hdigits
        refine ⟨by rw [List.length_drop, hlen], by omega, ?_⟩
        rw [← hdigits, List.take_append_drop]
      · intro h
        obtain ⟨hlen, hle, hcontents⟩ := h
        have hwidth := decimal_length 4 year
        refine ⟨(), by rw [hcontents, List.length_append, hwidth, hlen], year, ?_, rfl, ?_⟩
        · rw [hcontents, List.take_left' hwidth]
          exact digits_decimal (by omega)
        · rw [hcontents, List.drop_left' hwidth]
  · next hutc hgeneralized => simp [hutc, hgeneralized]

/-- Each format is one string of digits for the fields. -/
theorem timeFields_iff {value : Value} {time : CivilTime} :
    timeFields value = .ok time ↔ time.TwoDigits ∧
      ((value.tag = .utcTime ∧ 1950 ≤ time.date.year ∧ time.date.year ≤ 2049 ∧
        value.contents = decimal 2 (time.date.year % 100) ++ time.afterYear) ∨
      (value.tag = .generalizedTime ∧ time.date.year ≤ 9999 ∧
        value.contents = decimal 4 time.date.year ++ time.afterYear)) := by
  have hread : timeFields value = .ok time ↔ ∃ rest, timeYear value = .ok (time.date.year, rest) ∧
      rest.getLast? = some 0x5a ∧ digits ((rest.drop 0).take 2) = .ok time.date.month ∧
      digits ((rest.drop 2).take 2) = .ok time.date.day ∧
      digits ((rest.drop 4).take 2) = .ok time.hour ∧
      digits ((rest.drop 6).take 2) = .ok time.minute ∧
      digits ((rest.drop 8).take 2) = .ok time.second := by
    simp only [timeFields, bind_eq_ok, refuse_eq_ok, Decidable.not_not, Prod.exists,
      Except.ok.injEq]
    constructor
    · intro h
      obtain ⟨year, rest, hyear, _, hzulu, month, hmonth, day, hday, hour, hhour, minute,
        hminute, second, hsecond, rfl⟩ := h
      exact ⟨rest, hyear, hzulu, hmonth, hday, hhour, hminute, hsecond⟩
    · intro h
      obtain ⟨rest, hyear, hzulu, hmonth, hday, hhour, hminute, hsecond⟩ := h
      exact ⟨_, rest, hyear, (), hzulu, _, hmonth, _, hday, _, hhour, _, hminute, _, hsecond, rfl⟩
  have hwidth := time.afterYear_length
  rw [hread]
  constructor
  · intro h
    obtain ⟨rest, hyear, hfields⟩ := h
    obtain ⟨hlen, hformat⟩ := timeYear_iff.mp hyear
    obtain ⟨htwo, rfl⟩ := (afterYear_iff hlen time).mp hfields
    exact ⟨htwo, hformat⟩
  · intro h
    obtain ⟨htwo, hformat⟩ := h
    exact ⟨time.afterYear, timeYear_iff.mpr ⟨hwidth, hformat⟩,
      (afterYear_iff hwidth time).mpr ⟨htwo, rfl⟩⟩

/-! ### The arithmetic of `i64` -/

/-- The result of an operation on `i64`, if it is one. -/
def i64 (x : Int) : Option Int := if -2 ^ 63 ≤ x ∧ x < 2 ^ 63 then some x else none

/-- `days_from_civil` with every operation checked for overflow. -/
def daysFromCivilChecked (year month day : Int) : Option Int := do
  let year ← i64 (if month ≤ 2 then year - 1 else year)
  let shifted ← i64 (if 0 ≤ year then year else year - 399)
  let era ← i64 (shifted.tdiv 400)
  let eraYears ← i64 (era * 400)
  let yearOfEra ← i64 (year - eraYears)
  let monthSum ← i64 (month + 9)
  let monthIndex ← i64 (monthSum.tmod 12)
  let scaled ← i64 (153 * monthIndex)
  let rounded ← i64 (scaled + 2)
  let monthDays ← i64 (rounded.tdiv 5)
  let dayNext ← i64 (monthDays + day)
  let dayOfYear ← i64 (dayNext - 1)
  let yearDays ← i64 (yearOfEra * 365)
  let leapDays ← i64 (yearOfEra.tdiv 4)
  let withLeap ← i64 (yearDays + leapDays)
  let centuryDays ← i64 (yearOfEra.tdiv 100)
  let withCentury ← i64 (withLeap - centuryDays)
  let dayOfEra ← i64 (withCentury + dayOfYear)
  let eraDays ← i64 (era * 146097)
  let total ← i64 (eraDays + dayOfEra)
  i64 (total - 719468)

/-- The seconds of a time with every operation checked for overflow. -/
def CivilTime.secondsChecked (time : CivilTime) : Option Int := do
  let days ← daysFromCivilChecked time.date.year time.date.month time.date.day
  let daySeconds ← i64 (days * 86400)
  let hourSeconds ← i64 (time.hour * 3600)
  let withHours ← i64 (daySeconds + hourSeconds)
  let minuteSeconds ← i64 (time.minute * 60)
  let withMinutes ← i64 (withHours + minuteSeconds)
  i64 (withMinutes + time.second)

theorem i64_small {x : Int} (h : -10 ^ 12 ≤ x ∧ x ≤ 10 ^ 12) : i64 x = some x :=
  if_pos ⟨by omega, by omega⟩

theorem bind_i64 {x : Int} (h : -10 ^ 12 ≤ x ∧ x ≤ 10 ^ 12) (f : Int → Option Int) :
    (i64 x >>= f) = f x := by
  rw [i64_small h]
  rfl

theorem tdiv_bounds {x bound k : Int} (hk : 0 < k) (h : 0 ≤ x ∧ x ≤ bound) :
    0 ≤ x.tdiv k ∧ x.tdiv k ≤ bound :=
  ⟨Int.tdiv_nonneg h.1 hk.le, (Int.tdiv_le_self k h.1).trans h.2⟩

/-- Nothing in the computation of the days leaves an `i64`. -/
theorem daysFromCivilChecked_eq {year month day : Int} (hyear : 0 ≤ year ∧ year ≤ 9999)
    (hmonth : 1 ≤ month ∧ month ≤ 12) (hday : 1 ≤ day ∧ day ≤ 31) :
    daysFromCivilChecked year month day = some (daysFromCivil year month day) := by
  -- the bounds of each variable of the source, from those of the ones before it
  simp only [daysFromCivilChecked, daysFromCivil]
  have hshift : -1 ≤ (if month ≤ 2 then year - 1 else year) ∧
      (if month ≤ 2 then year - 1 else year) ≤ 9999 := by
    split <;> omega
  generalize (if month ≤ 2 then year - 1 else year) = y at hshift ⊢
  rw [bind_i64 (by omega), bind_i64 (by split <;> omega), era_eq]
  have hera : -1 ≤ y / 400 ∧ y / 400 ≤ 24 := by omega
  have hyearOfEra : 0 ≤ y - y / 400 * 400 ∧ y - y / 400 * 400 ≤ 399 := by omega
  generalize y / 400 = era at hera hyearOfEra ⊢
  rw [bind_i64 (by omega), bind_i64 (by omega), bind_i64 (by omega)]
  generalize y - era * 400 = yearOfEra at hyearOfEra ⊢
  have hindex : 0 ≤ (month + 9).tmod 12 ∧ (month + 9).tmod 12 < 12 :=
    ⟨Int.tmod_nonneg 12 (by omega), Int.tmod_lt_of_pos _ (by decide)⟩
  rw [bind_i64 (by omega)]
  generalize (month + 9).tmod 12 = monthIndex at hindex ⊢
  have hmonthDays : 0 ≤ (153 * monthIndex + 2).tdiv 5 ∧ (153 * monthIndex + 2).tdiv 5 ≤ 2000 :=
    tdiv_bounds (by decide) ⟨by omega, by omega⟩
  rw [bind_i64 (by omega), bind_i64 (by omega), bind_i64 (by omega)]
  generalize (153 * monthIndex + 2).tdiv 5 = monthDays at hmonthDays ⊢
  have hfour := tdiv_bounds (k := 4) (by decide) hyearOfEra
  have hhundred := tdiv_bounds (k := 100) (by decide) hyearOfEra
  generalize yearOfEra.tdiv 4 = fours at hfour ⊢
  generalize yearOfEra.tdiv 100 = hundreds at hhundred ⊢
  iterate 11 rw [bind_i64 (by omega)]
  exact i64_small (by omega)

theorem daysFromCivil_bounds {date : Date} (h : gregorian.Valid date) (hyear : date.year ≤ 9999) :
    -10 ^ 7 ≤ daysFromCivil date.year date.month date.day ∧
      daysFromCivil date.year date.month date.day ≤ 10 ^ 7 := by
  have hnumber := gregorian.dayNumber_lt_year h
  have hyears := gregorian_daysBeforeYear (date.year + 1)
  rw [Nat.cast_succ, Int.add_sub_cancel] at hyears
  rw [daysFromCivil_eq h, gregorian_epoch]
  omega

/-- Nothing in the computation of the seconds leaves an `i64`. -/
theorem CivilTime.secondsChecked_eq {time : CivilTime} (h : time.Valid)
    (hyear : time.date.year ≤ 9999) : time.secondsChecked = some time.seconds := by
  obtain ⟨hmonth, hday⟩ := gregorian_bounds h.date
  have hhour := h.hour
  have hminute := h.minute
  have hsecond := h.second
  have hdays := daysFromCivil_bounds h.date hyear
  unfold secondsChecked seconds
  rw [daysFromCivilChecked_eq (by omega) (by omega) (by omega)]
  generalize daysFromCivil time.date.year time.date.month time.date.day = days at hdays ⊢
  have hbind : ∀ f : Int → Option Int, (some days >>= f) = f days := fun f => rfl
  rw [hbind]
  iterate 5 rw [bind_i64 (by omega)]
  exact i64_small (by omega)

/-! ### The order of times -/

/-- `read_time` reads the fields `time` at the cursor, and returns `result`. -/
def ReadsTime (r : Der.Reader) (time : CivilTime) (result : Int) : Prop :=
  ∃ value r', readAny r = .ok value r' ∧ timeFields value = .ok time ∧
    readTime r = .ok (result, r')

theorem ReadsTime.spec {r : Der.Reader} {time : CivilTime} {result : Int}
    (h : ReadsTime r time result) :
    time.Valid ∧ result = time.seconds ∧ time.date.year ≤ 9999 := by
  obtain ⟨value, r', hvalue, hfields, hread⟩ := h
  obtain ⟨value', time', hvalue', hfields', hvalid, rfl⟩ := readTime_iff.mp hread
  obtain ⟨rfl, -⟩ := EStateM.Result.ok.inj (hvalue.symm.trans hvalue')
  obtain rfl := Except.ok.inj (hfields.symm.trans hfields')
  obtain ⟨-, ⟨-, -, hyear, -⟩ | ⟨-, hyear, -⟩⟩ := timeFields_iff.mp hfields
  · exact ⟨hvalid, rfl, by omega⟩
  · exact ⟨hvalid, rfl, hyear⟩

/-- The time of a certificate is the civil calendar's: the days are those of the months summed up,
in every year and on both sides of 1970, each day is one after the day before, later times are
later seconds, and no operation leaves an `i64`. -/
theorem times_civilCalendar :
    (∀ date : Date, gregorian.Valid date →
      daysFromCivil date.year date.month date.day
        = (gregorian.dayNumber date : Int) - gregorian.dayNumber ⟨1970, 1, 1⟩ ∧
      gregorian.Valid (gregorian.next date) ∧
      daysFromCivil (gregorian.next date).year (gregorian.next date).month
        (gregorian.next date).day = daysFromCivil date.year date.month date.day + 1) ∧
    (∀ r r' time time' result result', ReadsTime r time result → ReadsTime r' time' result' →
      time.Before time' → result < result') ∧
    (∀ date : Date, gregorian.Valid date → date.year ≤ 9999 →
      daysFromCivilChecked date.year date.month date.day
        = some (daysFromCivil date.year date.month date.day)) ∧
    (∀ r time result, ReadsTime r time result → time.secondsChecked = some result) := by
  refine ⟨fun date h => ⟨daysFromCivil_eq h, ?_⟩, ?_, ?_, ?_⟩
  · have hnext : gregorian.Valid (gregorian.next date) := by
      refine gregorian.valid_next (by decide) (fun year month hpos hle => ?_) h
      have hle : month ≤ 12 := hle
      exact one_le_daysInMonth year hpos hle
    refine ⟨hnext, ?_⟩
    rw [daysFromCivil_eq hnext, daysFromCivil_eq h, gregorian.dayNumber_next h, Nat.cast_succ]
    omega
  · intro r r' time time' result result' h h' hbefore
    obtain ⟨hvalid, rfl, -⟩ := h.spec
    obtain ⟨hvalid', rfl, -⟩ := h'.spec
    exact CivilTime.seconds_lt hvalid hvalid' hbefore
  · intro date h hyear
    obtain ⟨hmonth, hday⟩ := gregorian_bounds h
    exact daysFromCivilChecked_eq (by omega) (by omega) (by omega)
  · intro r time result h
    obtain ⟨hvalid, rfl, hyear⟩ := h.spec
    exact CivilTime.secondsChecked_eq hvalid hyear

/-- 1999-12-31 at 23:59:59. -/
def CivilTime.lastSecond : CivilTime := ⟨⟨1999, 12, 31⟩, 23, 59, 59⟩

/-- 2000-01-01 at midnight. -/
def CivilTime.firstSecond : CivilTime := ⟨⟨2000, 1, 1⟩, 0, 0, 0⟩

/-- The leap day of year zero, and a second of two centuries in two formats. -/
theorem times_civilCalendar_leapDay :
    daysFromCivil 0 2 29 = (gregorian.dayNumber ⟨0, 2, 29⟩ : Int) - gregorian.dayNumber ⟨1970, 1, 1⟩ ∧
    daysFromCivil 0 3 1 = daysFromCivil 0 2 29 + 1 ∧
    daysFromCivilChecked 0 2 29 = some (daysFromCivil 0 2 29) ∧
    ReadsTime (Der.Reader.new CivilTime.lastSecond.utcTime) CivilTime.lastSecond 946684799 ∧
    ReadsTime (Der.Reader.new CivilTime.firstSecond.generalizedTime) CivilTime.firstSecond 946684800 ∧
    (946684799 : Int) < 946684800 := by
  have hleap : gregorian.Valid ⟨0, 2, 29⟩ := ⟨by decide, by decide, by decide, by decide⟩
  have hlast : ReadsTime (Der.Reader.new CivilTime.lastSecond.utcTime) CivilTime.lastSecond
      946684799 := ⟨_, _, rfl, rfl, rfl⟩
  have hfirst : ReadsTime (Der.Reader.new CivilTime.firstSecond.generalizedTime)
      CivilTime.firstSecond 946684800 := ⟨_, _, rfl, rfl, rfl⟩
  obtain ⟨hdays, horder, hchecked, -⟩ := times_civilCalendar
  obtain ⟨hsum, -, hnext⟩ := hdays _ hleap
  exact ⟨hsum, hnext, hchecked _ hleap (by decide), hlast, hfirst,
    horder _ _ _ _ _ _ hlast hfirst (.inl (.inl (by decide)))⟩

/-! ### One element for a time -/

/-- `read_time` accepts the element, all of it, with this result. -/
def AcceptsTime (element : Bytes) (result : Int) : Prop :=
  ∃ r', readTime (Der.Reader.new element) = .ok (result, r') ∧ r'.isEmpty = true

theorem encodeTlv_short (tag : Tag) {contents : Bytes} (h : contents.length < 128) :
    (encodeTlv tag contents).length < 2 ^ 64 := by
  simp only [encodeTlv, encodeLength, if_pos h, List.cons_append, List.nil_append,
    List.length_cons]
  omega

/-- An element of a few octets is read as it is. -/
theorem readAny_element {tag : Tag} {contents : Bytes} (hlow : ¬ tag.octet &&& 0x1f = 0x1f)
    (hshort : contents.length < 128) :
    readAny (Der.Reader.new (encodeTlv tag contents))
      = .ok ⟨tag, contents, encodeTlv tag contents⟩
        ⟨encodeTlv tag contents, (encodeTlv tag contents).length⟩ := by
  have hspan := spans_of_input [] (encodeTlv tag contents) []
  simp only [List.nil_append, List.append_nil, List.length_nil, Nat.zero_add] at hspan
  exact readAny_iff.mpr ⟨hlow, rfl, hspan, encodeTlv_short tag hshort⟩

/-- The elements `read_time` accepts: every time there is in the format of its year or, if it has
both formats, in either. -/
theorem acceptsTime_iff {element : Bytes} {result : Int} :
    AcceptsTime element result ↔ ∃ time : CivilTime, time.Valid ∧ result = time.seconds ∧
      ((1950 ≤ time.date.year ∧ time.date.year ≤ 2049 ∧ element = time.utcTime) ∨
      (time.date.year ≤ 9999 ∧ element = time.generalizedTime)) := by
  constructor
  · intro h
    obtain ⟨r', hread, hend⟩ := h
    obtain ⟨value, time, hvalue, hfields, hvalid, rfl⟩ := readTime_iff.mp hread
    obtain ⟨-, henc, hspan, -⟩ := readAny_iff.mp hvalue
    obtain rfl := hspan.whole hend
    refine ⟨time, hvalid, rfl, ?_⟩
    obtain ⟨-, ⟨htag, hlow, hhigh, hcontents⟩ | ⟨htag, hyear, hcontents⟩⟩ :=
      timeFields_iff.mp hfields
    · exact .inl ⟨hlow, hhigh, by rw [henc, htag, hcontents]; rfl⟩
    · exact .inr ⟨hyear, by rw [henc, htag, hcontents]; rfl⟩
  · rintro ⟨time, hvalid, rfl, ⟨hlow, hhigh, rfl⟩ | ⟨hyear, rfl⟩⟩
    · have hshort := time.digits_short (show 2 ≤ 4 by decide) (time.date.year % 100)
      refine ⟨_, readTime_iff.mpr ⟨_, time, readAny_element (by decide) hshort,
        timeFields_iff.mpr ⟨hvalid.twoDigits, .inl ⟨rfl, hlow, hhigh, rfl⟩⟩, hvalid, rfl⟩, ?_⟩
      simp [Der.Reader.isEmpty]
    · have hshort := time.digits_short le_rfl time.date.year
      refine ⟨_, readTime_iff.mpr ⟨_, time, readAny_element (by decide) hshort,
        timeFields_iff.mpr ⟨hvalid.twoDigits, .inr ⟨rfl, hyear, rfl⟩⟩, hvalid, rfl⟩, ?_⟩
      simp [Der.Reader.isEmpty]

/-- The element is a `GeneralizedTime` of a year that a `UTCTime` cannot say. -/
def OnlyGeneralized (element : Bytes) : Prop :=
  ∃ year rest, year ≤ 9999 ∧ (year < 1950 ∨ 2049 < year) ∧
    element = encodeTlv .generalizedTime (decimal 4 year ++ rest)

theorem utcTime_ne_generalizedTime {contents contents' : Bytes} :
    encodeTlv .utcTime contents ≠ encodeTlv .generalizedTime contents' := by
  intro h
  exact absurd (List.cons.inj h).1 (by decide)

theorem decimal_inj {width n m : Nat} (hn : n < 10 ^ width) (hm : m < 10 ^ width)
    (h : decimal width n = decimal width m) : n = m :=
  Except.ok.inj ((digits_decimal hn).symm.trans (h ▸ digits_decimal hm))

/-- An accepted element is the only one with its result exactly when its year has no other format:
both formats are read for the years from 1950 to 2049. -/
theorem acceptsTime_unique_iff {element : Bytes} {result : Int} (h : AcceptsTime element result) :
    (∀ element', AcceptsTime element' result → element' = element) ↔ OnlyGeneralized element := by
  obtain ⟨time, hvalid, hresult, hformat⟩ := acceptsTime_iff.mp h
  constructor
  · intro hunique
    by_cases hyear : 1950 ≤ time.date.year ∧ time.date.year ≤ 2049
    · -- in these years the other format is accepted too
      have hutc := hunique time.utcTime
        (acceptsTime_iff.mpr ⟨time, hvalid, hresult, .inl ⟨hyear.1, hyear.2, rfl⟩⟩)
      have hgeneralized := hunique time.generalizedTime
        (acceptsTime_iff.mpr ⟨time, hvalid, hresult, .inr ⟨by omega, rfl⟩⟩)
      exact absurd (hutc.trans hgeneralized.symm) utcTime_ne_generalizedTime
    · rcases hformat with ⟨hlow, hhigh, -⟩ | ⟨hle, rfl⟩
      · exact absurd ⟨hlow, hhigh⟩ hyear
      · exact ⟨time.date.year, time.afterYear, hle, by omega, rfl⟩
  · intro h
    obtain ⟨year, rest, hle, houtside, rfl⟩ := h
    intro element' h'
    obtain ⟨time', hvalid', hresult', hformat'⟩ := acceptsTime_iff.mp h'
    obtain rfl := CivilTime.seconds_inj hvalid hvalid' (hresult.symm.trans hresult')
    rcases hformat with ⟨-, -, hutc⟩ | ⟨hle', hgeneralized⟩
    · exact absurd hutc.symm utcTime_ne_generalizedTime
    · have hshort := time.digits_short le_rfl time.date.year
      obtain ⟨-, hcontents⟩ := encodeTlv_inj (encodeTlv_short _ hshort) hgeneralized.symm
      obtain ⟨hdigits, -⟩ := List.append_inj hcontents (by simp)
      have hyear : time.date.year = year := decimal_inj (by omega) (by omega) hdigits
      rcases hformat' with ⟨hlow, hhigh, -⟩ | ⟨-, rfl⟩
      · omega
      · exact hgeneralized.symm

/-- The first second that only a `GeneralizedTime` can say. -/
def CivilTime.year2050 : CivilTime := ⟨⟨2050, 1, 1⟩, 0, 0, 0⟩

theorem CivilTime.year2050_valid : CivilTime.year2050.Valid :=
  ⟨⟨by decide, by decide, by decide, by decide⟩, by decide, by decide, by decide⟩

theorem acceptsTime_unique_iff_2050 :
    AcceptsTime CivilTime.year2050.generalizedTime 2524608000 ∧
    ∀ element', AcceptsTime element' 2524608000 → element' = CivilTime.year2050.generalizedTime := by
  have haccepts : AcceptsTime CivilTime.year2050.generalizedTime 2524608000 :=
    acceptsTime_iff.mpr ⟨_, CivilTime.year2050_valid, by decide, .inr ⟨by decide, rfl⟩⟩
  exact ⟨haccepts, (acceptsTime_unique_iff haccepts).mpr
    ⟨2050, _, by decide, .inr (by decide), rfl⟩⟩

/-- `700101000000Z`, a `UTCTime`. -/
def epochUtc : Bytes :=
  [0x17, 13, 0x37, 0x30, 0x30, 0x31, 0x30, 0x31, 0x30, 0x30, 0x30, 0x30, 0x30, 0x30, 0x5a]

/-- `19700101000000Z`, a `GeneralizedTime`. -/
def epochGeneralized : Bytes :=
  [0x18, 15, 0x31, 0x39, 0x37, 0x30, 0x30, 0x31, 0x30, 0x31, 0x30, 0x30, 0x30, 0x30, 0x30, 0x30,
    0x5a]

/-- The epoch is accepted in both formats. -/
theorem acceptsTime_epoch_twice :
    AcceptsTime epochUtc 0 ∧ AcceptsTime epochGeneralized 0 ∧ epochUtc ≠ epochGeneralized :=
  ⟨⟨_, rfl, rfl⟩, ⟨_, rfl, rfl⟩, by decide⟩

end RustyTls
