import Muduo.Base.Date

/-!
# Broken-down time

`toUtcTime` and `fromUtcTime` convert between the seconds since the epoch and a date with
a time of day. Division of a negative number truncates, so the day before is taken by hand.
What they should agree with is the calendar: `civilTime` goes through the day number.
-/

namespace Muduo

open Foundations Date Date.YearMonthDay

/-- What `tm_zone` points to. -/
inductive TmZone where
  | null
  | gmt
  /-- a position in the `abbreviation` of a time zone -/
  | abbreviation (i : ℕ)
  deriving DecidableEq, Repr

/-- `struct tm`. Of `tm_isdst` only is asked whether it is zero. -/
structure Tm where
  sec : ℤ
  min : ℤ
  hour : ℤ
  mday : ℤ
  mon : ℤ
  year : ℤ
  wday : ℤ
  yday : ℤ
  isdst : Bool
  gmtoff : ℤ
  zone : TmZone
  deriving DecidableEq, Repr

namespace Tm

/-- The `bzero`ed structure. -/
def zero : Tm := ⟨0, 0, 0, 0, 0, 0, 0, 0, false, 0, .null⟩

variable (tm : Tm)

def date : YearMonthDay := ⟨tm.year + 1900, tm.mon + 1, tm.mday⟩

/-- A date of the calendar and a time of day. -/
structure Valid : Prop where
  date : tm.date.Valid
  hour : 0 ≤ tm.hour ∧ tm.hour ≤ 23
  min : 0 ≤ tm.min ∧ tm.min ≤ 59
  sec : 0 ≤ tm.sec ∧ tm.sec ≤ 59

end Tm

namespace TimeZone

def kSecondsPerDay : ℤ := 24 * 60 * 60

def kDaysPerWeek : ℤ := 7

/-- `getJulianDayNumber(1970, 1, 1)`. -/
def kJulianDayOf1970_01_01 : ℤ := 2440588

example : getJulianDayNumber 1970 1 1 = .ok kJulianDayOf1970_01_01 := rfl

/-- `static_cast<int>`. -/
def narrow (n : ℤ) : ℤ := n.bmod (2 ^ 32)

/-- The seconds are `unsigned`. -/
def fillHMS (seconds : ℤ) (utc : Tm) : Tm :=
  let seconds := seconds % 2 ^ 32
  let minutes := seconds / 60
  { utc with sec := seconds % 60, min := minutes % 60, hour := minutes / 60 }

def weekDay (julianDayNumber : ℤ) : Except ArithmeticFault ℤ := do
  return (← int (julianDayNumber + 1)).tmod kDaysPerWeek

/-- The start of `toUtcTime`: the seconds of the day, and the day. -/
def splitTime (secondsSinceEpoch : ℤ) : Except ArithmeticFault (ℤ × ℤ) := do
  let seconds := narrow (secondsSinceEpoch.tmod kSecondsPerDay)
  let days := narrow (secondsSinceEpoch.tdiv kSecondsPerDay)
  if seconds < 0 then
    let seconds ← int (seconds + kSecondsPerDay)
    let days ← int (days - 1)
    return (seconds, days)
  else return (seconds, days)

def toUtcTime (secondsSinceEpoch : ℤ) (yday : Bool) : Except ArithmeticFault Tm := do
  let (seconds, days) ← splitTime secondsSinceEpoch
  let utc := fillHMS seconds { Tm.zero with zone := .gmt }
  let date ← int (days + kJulianDayOf1970_01_01)
  let ymd ← getYearMonthDay date
  let year ← int (ymd.year - 1900)
  let mon ← int (ymd.month - 1)
  let wday ← weekDay date
  let utc := { utc with year := year, mon := mon, mday := ymd.day, wday := wday }
  if yday then
    let startOfYear ← getJulianDayNumber ymd.year 1 1
    let yday ← int (date - startOfYear)
    return { utc with yday := yday }
  else return utc

def fromUtcTime (year month day hour minute seconds : ℤ) : Except ArithmeticFault ℤ := do
  let date ← getJulianDayNumber year month day
  let secondsInDay ← int ((← int ((← int (hour * 3600)) + (← int (minute * 60)))) + seconds)
  let days ← int (date - kJulianDayOf1970_01_01)
  return days * kSecondsPerDay + secondsInDay

/-- `fromUtcTime` of a `struct tm`. -/
def fromTm (utc : Tm) : Except ArithmeticFault ℤ := do
  let year ← int (utc.year + 1900)
  let month ← int (utc.mon + 1)
  fromUtcTime year month utc.mday utc.hour utc.min utc.sec

def dayNumber (t : ℤ) : ℤ := t / 86400 + 2440588

def daysBefore (year : ℤ) : ℕ → ℤ
  | 0 => 0
  | m + 1 => daysBefore year m + daysOfMonth year (m + 1)

def yearDay (date : YearMonthDay) : ℤ := daysBefore date.year (date.month - 1).toNat + date.day - 1

/-- The date and time of day at `t`, in the calendar. -/
def civilTime (t : ℤ) : Tm :=
  let date := ofNumber (dayNumber t)
  { Tm.zero with
    sec := t % 60
    min := t / 60 % 60
    hour := t / 3600 % 24
    mday := date.day
    mon := date.month - 1
    year := date.year - 1900
    wday := (t / 86400 + 4) % 7
    yday := yearDay date
    zone := .gmt }

def civilSeconds (tm : Tm) : ℤ :=
  (tm.date.number - 2440588) * 86400 + tm.hour * 3600 + tm.min * 60 + tm.sec

variable {t : ℤ}

theorem date_civilTime (t : ℤ) : (civilTime t).date = ofNumber (dayNumber t) := by
  simp [Tm.date, civilTime]

theorem civilTime_valid (t : ℤ) : (civilTime t).Valid := by
  refine ⟨?_, ?_, ?_, ?_⟩
  · rw [date_civilTime]
    exact (ofNumber_valid _).1
  · simp only [civilTime]
    omega
  · simp only [civilTime]
    omega
  · simp only [civilTime]
    omega

theorem civilSeconds_civilTime (t : ℤ) : civilSeconds (civilTime t) = t := by
  rw [civilSeconds, date_civilTime, (ofNumber_valid _).2]
  simp only [dayNumber, civilTime]
  omega

theorem civilTime_civilSeconds {tm : Tm} (h : tm.Valid) :
    (civilTime (civilSeconds tm)).date = tm.date ∧ (civilTime (civilSeconds tm)).hour = tm.hour ∧
      (civilTime (civilSeconds tm)).min = tm.min ∧ (civilTime (civilSeconds tm)).sec = tm.sec := by
  obtain ⟨hdate, hhour, hmin, hsec⟩ := h
  have hday : dayNumber (civilSeconds tm) = tm.date.number := by
    unfold dayNumber civilSeconds
    omega
  refine ⟨?_, ?_, ?_, ?_⟩
  · rw [date_civilTime, hday, ofNumber_number hdate]
  · simp only [civilTime, civilSeconds]
    omega
  · simp only [civilTime, civilSeconds]
    omega
  · simp only [civilTime, civilSeconds]
    omega

theorem daysBefore_eq (year : ℤ) {month : ℤ} (hpos : 1 ≤ month) (hle : month ≤ 12) :
    daysBefore year (month - 1).toNat = if month ≤ 2 then 31 * (month - 1)
      else 59 + (153 * (month - 3) + 2) / 5 + if IsLeapYear year then 1 else 0 := by
  by_cases hleap : IsLeapYear year
  · interval_cases month <;> simp [daysBefore, daysOfMonth, hleap]
  · interval_cases month <;> simp [daysBefore, daysOfMonth, hleap]

theorem yearDay_eq {date : YearMonthDay} (h : date.Valid) :
    date.number - (⟨date.year, 1, 1⟩ : YearMonthDay).number = yearDay date := by
  have hpos := h.month_pos
  have hbefore := daysBefore_eq date.year hpos h.month_le
  have hleap := isLeapYear_add date.year
  have hsucc := firstDay_succ (date.year + 4799)
  have hyear : date.year + 4799 + 1 = date.year + 4800 := by ring
  have hyear' : date.year + 4800 - 1 = date.year + 4799 := by ring
  rw [hyear, if_congr hleap rfl rfl] at hsucc
  rw [yearDay, hbefore]
  simp only [number, marchYear, marchDay, marchMonth]
  by_cases hearly : date.month ≤ 2
  · norm_num [hearly, hyear']
    omega
  · norm_num [hearly, hyear', hsucc]
    split_ifs <;> omega

/-- `gmtime_r` and `timegm` of the C library. What `timegm` reads of a broken-down time are
the date and the time of day. -/
structure GmTime where
  gmtime : ℤ → Tm
  timegm : Tm → ℤ
  timegm_gmtime : ∀ seconds isdst gmtoff zone,
    timegm { gmtime seconds with isdst := isdst, gmtoff := gmtoff, zone := zone } = seconds

def civil : GmTime where
  gmtime := civilTime
  timegm := civilSeconds
  timegm_gmtime seconds _ _ _ := civilSeconds_civilTime seconds

theorem narrow_of_bounds {n : ℤ} (hlow : -2147483648 ≤ n) (hhigh : n ≤ 2147483647) :
    narrow n = n :=
  Int.bmod_eq_of_le (by norm_num; omega) (by norm_num; omega)

theorem splitTime_eq (hlow : 0 ≤ dayNumber t) (hhigh : dayNumber t ≤ 500000000) :
    splitTime t = .ok (t % 86400, t / 86400) := by
  unfold dayNumber at hlow hhigh
  have hday : kSecondsPerDay = 86400 := rfl
  have hmod : t.tmod 86400 = t % 86400 - if 0 ≤ t ∨ (86400 : ℤ) ∣ t then 0 else 86400 := by
    rw [Int.tmod_eq_emod]
    split_ifs <;> rfl
  have hdiv : t.tdiv 86400 = t / 86400 + if 0 ≤ t ∨ (86400 : ℤ) ∣ t then 0 else 1 := by
    rw [Int.tdiv_eq_ediv]
    split_ifs <;> rfl
  rw [splitTime, hday, hmod, hdiv]
  by_cases hexact : 0 ≤ t ∨ (86400 : ℤ) ∣ t
  · rw [if_pos hexact, if_pos hexact, narrow_of_bounds (by omega) (by omega),
      narrow_of_bounds (by omega) (by omega), if_neg (by omega), sub_zero, add_zero]
    rfl
  · rw [if_neg hexact, if_neg hexact, narrow_of_bounds (by omega) (by omega),
      narrow_of_bounds (by omega) (by omega), if_pos (by omega), sub_add_cancel,
      add_sub_cancel_right, int_bind (by omega) (by omega), int_bind (by omega) (by omega)]
    rfl

theorem year_bounds {date : YearMonthDay} (h : date.Valid) (hlow : 0 ≤ date.number)
    (hhigh : date.number ≤ 500000000) : -4799 ≤ date.year ∧ date.year ≤ 1400000 := by
  obtain ⟨hday, hday', -⟩ := h.marchDay_le
  have hmarch : date.year + 4799 ≤ date.marchYear ∧ date.marchYear ≤ date.year + 4800 := by
    unfold marchYear
    split_ifs <;> omega
  unfold number firstDay at hlow hhigh
  omega

theorem toUtcTime_eq (hlow : 0 ≤ dayNumber t) (hhigh : dayNumber t ≤ 500000000) :
    toUtcTime t true = .ok (civilTime t) := by
  obtain ⟨hvalid, hnumber⟩ := ofNumber_valid (dayNumber t)
  have hyears := year_bounds hvalid (by omega) (by omega)
  have hmonth := hvalid.month_pos
  have hmonth' := hvalid.month_le
  have hfirst : (⟨(ofNumber (dayNumber t)).year, 1, 1⟩ : YearMonthDay).Valid := by
    constructor <;> norm_num [daysOfMonth]
  have hstart := getJulianDayNumber_eq hfirst hyears.1 (by dsimp only; omega)
  have hyday := yearDay_eq hvalid
  rw [hnumber] at hyday
  have hydays : 0 ≤ yearDay (ofNumber (dayNumber t)) ∧
      yearDay (ofNumber (dayNumber t)) ≤ 366 := by
    have hbefore := daysBefore_eq (ofNumber (dayNumber t)).year hmonth hmonth'
    have hday := hvalid.day_pos
    have hday' := hvalid.day_le_31
    rw [yearDay, hbefore]
    split_ifs <;> omega
  have hweek : weekDay (dayNumber t) = .ok ((t / 86400 + 4) % 7) := by
    unfold weekDay kDaysPerWeek
    rw [int_bind (by omega) (by omega), Int.tmod_eq_emod_of_nonneg (by omega)]
    unfold dayNumber
    congr 1
    omega
  have hdate : t / 86400 + kJulianDayOf1970_01_01 = dayNumber t := rfl
  unfold toUtcTime
  rw [splitTime_eq hlow hhigh, ok_bind]
  simp only [hdate]
  rw [int_bind (by omega) (by omega), getYearMonthDay_eq_ofNumber (by omega) (by omega), ok_bind]
  rw [int_bind (by omega) (by omega), int_bind (by omega) (by omega), hweek, ok_bind,
    if_pos trivial, hstart, ok_bind, hyday, int_bind (by omega) (by omega)]
  simp only [fillHMS, civilTime, Tm.zero, pure_eq_ok]
  congr 2 <;> omega

theorem fromUtcTime_eq {tm : Tm} (h : tm.Valid) (hlow : 0 ≤ tm.date.number)
    (hhigh : tm.date.number ≤ 500000000) :
    fromUtcTime tm.date.year tm.date.month tm.date.day tm.hour tm.min tm.sec =
      .ok (civilSeconds tm) := by
  obtain ⟨hdate, hhour, hmin, hsec⟩ := h
  obtain ⟨hyear, hyear'⟩ := year_bounds hdate hlow hhigh
  have hdays : tm.date.number - kJulianDayOf1970_01_01 = tm.date.number - 2440588 := rfl
  rw [fromUtcTime, getJulianDayNumber_eq hdate hyear (by omega), ok_bind, hdays]
  rw [int_bind (by omega) (by omega), int_bind (by omega) (by omega),
    int_bind (by omega) (by omega), int_bind (by omega) (by omega),
    int_bind (by omega) (by omega), civilSeconds, pure_eq_ok]
  simp only [kSecondsPerDay]
  congr 1
  ring

theorem fromTm_eq {tm : Tm} (h : tm.Valid) (hlow : 0 ≤ tm.date.number)
    (hhigh : tm.date.number ≤ 500000000) : fromTm tm = .ok (civilSeconds tm) := by
  obtain ⟨hyear, hyear'⟩ := year_bounds h.date hlow hhigh
  have hmonth := h.date.month_pos
  have hmonth' := h.date.month_le
  have hfrom := fromUtcTime_eq h hlow hhigh
  simp only [Tm.date] at hyear hyear' hmonth hmonth' hfrom
  rw [fromTm, int_bind (by omega) (by omega), int_bind (by omega) (by omega), hfrom]

/-- The conversions are inverse to each other for the days with numbers from 0 to
500000000. What `toUtcTime` gives is a date of the calendar with a time of day, its day
of the week, counted on from a Thursday, and its day of the year. -/
theorem utc_round_trip :
    (∀ t : ℤ, 0 ≤ t / 86400 + 2440588 → t / 86400 + 2440588 ≤ 500000000 →
      ∃ tm, toUtcTime t true = .ok tm ∧ tm.Valid ∧ tm.wday = (t / 86400 + 4) % 7 ∧
        tm.yday = yearDay tm.date ∧ fromTm tm = .ok t) ∧
    ∀ (date : YearMonthDay) (hour minute seconds : ℤ), date.Valid → 0 ≤ date.number →
      date.number ≤ 500000000 → 0 ≤ hour ∧ hour ≤ 23 → 0 ≤ minute ∧ minute ≤ 59 →
      0 ≤ seconds ∧ seconds ≤ 59 →
      ∃ t tm, fromUtcTime date.year date.month date.day hour minute seconds = .ok t ∧
        toUtcTime t true = .ok tm ∧ tm.date = date ∧ tm.hour = hour ∧ tm.min = minute ∧
        tm.sec = seconds := by
  constructor
  · intro t hlow hhigh
    have hdate := (ofNumber_valid (dayNumber t)).2
    rw [← date_civilTime] at hdate
    refine ⟨civilTime t, toUtcTime_eq hlow hhigh, civilTime_valid t, rfl, ?_, ?_⟩
    · rw [date_civilTime]
      rfl
    · rw [fromTm_eq (civilTime_valid t) (hdate ▸ hlow) (hdate ▸ hhigh), civilSeconds_civilTime]
  · intro date hour minute seconds hdate hlow hhigh hhour hminute hseconds
    let tm : Tm := { Tm.zero with
      year := date.year - 1900, mon := date.month - 1, mday := date.day, hour := hour
      min := minute, sec := seconds }
    have htm : tm.date = date := by simp [tm, Tm.date]
    have hvalid : tm.Valid := ⟨htm ▸ hdate, hhour, hminute, hseconds⟩
    have hday : dayNumber (civilSeconds tm) = date.number := by
      rw [dayNumber, civilSeconds, htm]
      simp only [tm]
      omega
    have hfrom := fromUtcTime_eq hvalid (htm ▸ hlow) (htm ▸ hhigh)
    rw [htm] at hfrom
    obtain ⟨hback, hrest⟩ := civilTime_civilSeconds hvalid
    exact ⟨civilSeconds tm, civilTime (civilSeconds tm), hfrom,
      toUtcTime_eq (hday ▸ hlow) (hday ▸ hhigh), hback.trans htm, hrest⟩

/-- The second before the epoch. -/
theorem utc_round_trip_before_epoch :
    ∃ tm, toUtcTime (-1) true = .ok tm ∧ tm.date = ⟨1969, 12, 31⟩ ∧ tm.hour = 23 ∧ tm.min = 59 ∧
      tm.sec = 59 ∧ tm.wday = 3 ∧ tm.yday = 364 ∧ fromTm tm = .ok (-1) := by
  obtain ⟨tm, htm, -, -, -, hback⟩ := utc_round_trip.1 (-1) (by decide) (by decide)
  have hfields : toUtcTime (-1) true =
      .ok ⟨59, 59, 23, 31, 11, 69, 3, 364, false, 0, .gmt⟩ := by decide +kernel
  cases htm.symm.trans hfields
  exact ⟨_, htm, by decide, rfl, rfl, rfl, rfl, rfl, hback⟩

end TimeZone
end Muduo
