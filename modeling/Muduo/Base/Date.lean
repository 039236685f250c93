import Muduo.Foundations.Int32
import Muduo.Foundations.Machine

/-!
# Dates

`Date` keeps a Julian day number, and converts it from and to a year, a month and a
day with divisions that truncate. The calendar it should agree with is written
down on its own: leap years, lengths of months, and the day after a day. The years
count from March on, so that the leap day is the last day of a year; a year, the
century it is in and the months in it are each found by one division.
-/

namespace Muduo

open Foundations

namespace Date

inductive ArithmeticFault where
  | overflow
  deriving DecidableEq, Repr

structure YearMonthDay where
  year : ℤ
  month : ℤ
  day : ℤ
  deriving DecidableEq, Repr

/-- The result of an operation on `int`s. -/
def int (n : ℤ) : Except ArithmeticFault ℤ := int32 .overflow n

def getJulianDayNumber (year month day : ℤ) : Except ArithmeticFault ℤ := do
  let a := (← int (14 - month)).tdiv 12
  let y ← int ((← int (year + 4800)) - a)
  let m ← int ((← int (month + (← int (12 * a)))) - 3)
  let days := (← int ((← int (153 * m)) + 2)).tdiv 5
  let sum ← int (day + days)
  let sum ← int (sum + (← int (y * 365)))
  let sum ← int (sum + y.tdiv 4)
  let sum ← int (sum - y.tdiv 100)
  let sum ← int (sum + y.tdiv 400)
  int (sum - 32045)

def getYearMonthDay (julianDayNumber : ℤ) : Except ArithmeticFault YearMonthDay := do
  let a ← int (julianDayNumber + 32044)
  let b := (← int ((← int (4 * a)) + 3)).tdiv 146097
  let c ← int (a - (← int (b * 146097)).tdiv 4)
  let d := (← int ((← int (4 * c)) + 3)).tdiv 1461
  let e ← int (c - (← int (1461 * d)).tdiv 4)
  let m := (← int ((← int (5 * e)) + 2)).tdiv 153
  let day ← int ((← int (e - (← int ((← int (153 * m)) + 2)).tdiv 5)) + 1)
  let month ← int ((← int (m + 3)) - (← int (12 * m.tdiv 10)))
  let year ← int ((← int ((← int ((← int (b * 100)) + d)) - 4800)) + m.tdiv 10)
  return ⟨year, month, day⟩

def IsLeapYear (year : ℤ) : Prop := year % 400 = 0 ∨ year % 100 ≠ 0 ∧ year % 4 = 0

instance (year : ℤ) : Decidable (IsLeapYear year) :=
  inferInstanceAs (Decidable (_ ∨ _))

def daysOfMonth (year month : ℤ) : ℤ :=
  if month = 2 then if IsLeapYear year then 29 else 28
  else if month = 4 ∨ month = 6 ∨ month = 9 ∨ month = 11 then 30 else 31

namespace YearMonthDay

/-- A day of the proleptic Gregorian calendar. -/
structure Valid (date : YearMonthDay) : Prop where
  month_pos : 1 ≤ date.month
  month_le : date.month ≤ 12
  day_pos : 1 ≤ date.day
  day_le : date.day ≤ daysOfMonth date.year date.month

def next (date : YearMonthDay) : YearMonthDay :=
  if date.day < daysOfMonth date.year date.month then { date with day := date.day + 1 }
  else if date.month < 12 then ⟨date.year, date.month + 1, 1⟩
  else ⟨date.year + 1, 1, 1⟩

/-- The year that starts in March, counted from the one in which the numbering starts. -/
def marchYear (date : YearMonthDay) : ℤ := date.year + 4800 - if date.month ≤ 2 then 1 else 0

def marchMonth (date : YearMonthDay) : ℤ :=
  if date.month ≤ 2 then date.month + 9 else date.month - 3

def marchDay (date : YearMonthDay) : ℤ := (153 * date.marchMonth + 2) / 5 + date.day - 1

/-- The number of the first day of a year that starts in March. -/
def firstDay (y : ℤ) : ℤ := 365 * y + y / 4 - y / 100 + y / 400 - 32044

def number (date : YearMonthDay) : ℤ := firstDay date.marchYear + date.marchDay

/-- The century of a number, counted from the one in which the numbering starts. -/
def centuryOf (n : ℤ) : ℤ := (4 * (n + 32044) + 3) / 146097

def dayOfCentury (n : ℤ) : ℤ := n + 32044 - 146097 * centuryOf n / 4

def yearOfCentury (n : ℤ) : ℤ := (4 * dayOfCentury n + 3) / 1461

def dayOfYear (n : ℤ) : ℤ := dayOfCentury n - 1461 * yearOfCentury n / 4

def monthOfYear (n : ℤ) : ℤ := (5 * dayOfYear n + 2) / 153

def ofNumber (n : ℤ) : YearMonthDay where
  year := 100 * centuryOf n + yearOfCentury n - 4800 + monthOfYear n / 10
  month := monthOfYear n + 3 - 12 * (monthOfYear n / 10)
  day := dayOfYear n - (153 * monthOfYear n + 2) / 5 + 1

end YearMonthDay

variable {date : YearMonthDay}

open YearMonthDay

theorem int_ok {n : ℤ} (hlow : -2147483648 ≤ n) (hhigh : n ≤ 2147483647) : int n = .ok n :=
  int32_ok hlow hhigh

theorem int_bind {α : Type} {n : ℤ} (hlow : -2147483648 ≤ n) (hhigh : n ≤ 2147483647)
    (f : ℤ → Except ArithmeticFault α) : (int n >>= f) = f n := by
  rw [int_ok hlow hhigh, ok_bind]

theorem daysOfMonth_le (year month : ℤ) : daysOfMonth year month ≤ 31 := by
  unfold daysOfMonth
  split_ifs <;> omega

namespace YearMonthDay.Valid

theorem day_le_31 (h : date.Valid) : date.day ≤ 31 := h.day_le.trans (daysOfMonth_le _ _)

theorem marchDay_le (h : date.Valid) :
    0 ≤ date.marchDay ∧ date.marchDay ≤ 365 ∧
      (date.marchDay = 365 → IsLeapYear (date.marchYear + 1)) := by
  obtain ⟨hpos, hle, hday, hdays⟩ := h
  unfold marchDay marchMonth marchYear
  unfold daysOfMonth at hdays
  split_ifs at hdays ⊢ <;> unfold IsLeapYear at * <;> omega

theorem marchMonth_eq (h : date.Valid) : (5 * date.marchDay + 2) / 153 = date.marchMonth := by
  obtain ⟨hpos, hle, hday, hdays⟩ := h
  unfold marchDay marchMonth
  unfold daysOfMonth at hdays
  interval_cases date.month <;> split_ifs at hdays ⊢ <;> omega

end YearMonthDay.Valid

theorem getJulianDayNumber_of_parts {year month day a y m days : ℤ}
    (hdate : -4799 ≤ year ∧ year ≤ 1400001 ∧ 1 ≤ month ∧ month ≤ 12 ∧ 1 ≤ day ∧ day ≤ 31)
    (ha : (14 - month).tdiv 12 = a) (ha' : 0 ≤ a ∧ a ≤ 1)
    (hy : year + 4800 - a = y) (hy' : 0 ≤ y)
    (hm : month + 12 * a - 3 = m) (hm' : 0 ≤ m ∧ m ≤ 11)
    (hdays : (153 * m + 2).tdiv 5 = days) (hdays' : 0 ≤ days ∧ days ≤ 400) :
    getJulianDayNumber year month day =
      .ok (day + days + y * 365 + y / 4 - y / 100 + y / 400 - 32045) := by
  have h4 : y.tdiv 4 = y / 4 := tdiv_of_nonneg hy' 4
  have h100 : y.tdiv 100 = y / 100 := tdiv_of_nonneg hy' 100
  have h400 : y.tdiv 400 = y / 400 := tdiv_of_nonneg hy' 400
  unfold getJulianDayNumber
  simp (disch := omega) only [↓int_bind, int_ok, ok_bind, ha, hy, hm, hdays, h4, h100, h400]

theorem getJulianDayNumber_eq (h : date.Valid) (hlow : -4799 ≤ date.year)
    (hhigh : date.year ≤ 1400001) :
    getJulianDayNumber date.year date.month date.day = .ok date.number := by
  obtain ⟨hpos, hle, hday, -⟩ := id h
  have hday' := h.day_le_31
  have ha : (14 - date.month).tdiv 12 = if date.month ≤ 2 then 1 else 0 := by
    rw [tdiv_of_nonneg (by omega)]
    split_ifs <;> omega
  have hm : date.month + 12 * (if date.month ≤ 2 then 1 else 0) - 3 = date.marchMonth := by
    unfold marchMonth
    split_ifs <;> omega
  have hm' : 0 ≤ date.marchMonth ∧ date.marchMonth ≤ 11 := by
    unfold marchMonth
    split_ifs <;> omega
  have hdays : (153 * date.marchMonth + 2).tdiv 5 = (153 * date.marchMonth + 2) / 5 :=
    tdiv_of_nonneg (by omega) 5
  have hy' : 0 ≤ date.marchYear := by
    unfold marchYear
    split_ifs <;> omega
  rw [getJulianDayNumber_of_parts ⟨hlow, hhigh, hpos, hle, hday, hday'⟩ ha
    (by split_ifs <;> omega) rfl hy' hm hm' hdays (by omega)]
  congr 1
  unfold number firstDay marchDay
  rw [← marchYear]
  ring

/-- The days before a year, in full centuries and in the years of its own century. -/
theorem firstDay_century (y : ℤ) :
    firstDay y + 32044 = 146097 * (y / 100) / 4 + 1461 * (y % 100) / 4 := by
  have hcentury : 146097 * (y / 100) / 4 = 36524 * (y / 100) + y / 400 := by omega
  have hyear : 1461 * (y % 100) / 4 = 365 * (y % 100) + y % 100 / 4 := by omega
  have hleap : y / 4 = 25 * (y / 100) + y % 100 / 4 := by omega
  unfold firstDay
  omega

/-- The century is found by one division: it ends with a leap day only where the
division has one more day for it. -/
theorem century_eq {y e : ℤ} (hlow : 0 ≤ e) (hhigh : e ≤ 365)
    (hleap : e = 365 → IsLeapYear (y + 1)) :
    (4 * (firstDay y + e + 32044) + 3) / 146097 = y / 100 := by
  have hcut := firstDay_century y
  have hcentury : 146097 * (y / 100) / 4 = 36524 * (y / 100) + y / 100 / 4 := by omega
  have hyear : 1461 * (y % 100) / 4 = 365 * (y % 100) + y % 100 / 4 := by omega
  have hsmall : 1461 * (y % 100) / 4 + e ≤ 36523 ∨
      1461 * (y % 100) / 4 + e = 36524 ∧ y / 100 % 4 = 3 := by
    unfold IsLeapYear at hleap
    omega
  rw [Int.ediv_eq_iff_of_pos (by norm_num)]
  omega

theorem year_eq {y e : ℤ} (hlow : 0 ≤ e) (hhigh : e ≤ 365)
    (hleap : e = 365 → IsLeapYear (y + 1)) :
    (4 * (1461 * (y % 100) / 4 + e) + 3) / 1461 = y % 100 := by
  unfold IsLeapYear at hleap
  omega

theorem ofNumber_number (h : date.Valid) : ofNumber date.number = date := by
  obtain ⟨hday, hday', hleap⟩ := h.marchDay_le
  have hmonths := h.marchMonth_eq
  have hcut := firstDay_century date.marchYear
  have hcentury : centuryOf date.number = date.marchYear / 100 :=
    century_eq hday hday' hleap
  have hdays : dayOfCentury date.number = 1461 * (date.marchYear % 100) / 4 + date.marchDay := by
    rw [dayOfCentury, hcentury, number]
    omega
  have hyear : yearOfCentury date.number = date.marchYear % 100 := by
    rw [yearOfCentury, hdays]
    exact year_eq hday hday' hleap
  have hrest : dayOfYear date.number = date.marchDay := by
    rw [dayOfYear, hdays, hyear]
    omega
  have hmonth : monthOfYear date.number = date.marchMonth := by
    rw [monthOfYear, hrest, hmonths]
  have hpos := h.month_pos
  have hle := h.month_le
  have hresult : 100 * (date.marchYear / 100) + date.marchYear % 100 - 4800 +
        date.marchMonth / 10 = date.year ∧
      date.marchMonth + 3 - 12 * (date.marchMonth / 10) = date.month ∧
      date.marchDay - (153 * date.marchMonth + 2) / 5 + 1 = date.day := by
    clear hcut hleap hdays hcentury hyear hrest hmonth hmonths
    unfold marchDay marchYear marchMonth
    split_ifs <;> omega
  rw [ofNumber, hcentury, hyear, hmonth, hrest, hresult.1, hresult.2.1, hresult.2.2]

theorem getYearMonthDay_eq_ofNumber {n : ℤ} (hlow : -32044 ≤ n) (hhigh : n ≤ 519000000) :
    getYearMonthDay n = .ok (ofNumber n) := by
  have hcentury : 0 ≤ centuryOf n ∧ centuryOf n ≤ 14211 := by
    unfold centuryOf
    omega
  have hdays : 0 ≤ dayOfCentury n ∧ dayOfCentury n ≤ 36524 := by
    unfold dayOfCentury centuryOf
    omega
  have hyear : 0 ≤ yearOfCentury n ∧ yearOfCentury n ≤ 99 := by
    unfold yearOfCentury
    omega
  have hrest : 0 ≤ dayOfYear n ∧ dayOfYear n ≤ 365 := by
    unfold dayOfYear yearOfCentury
    omega
  have hmonth : 0 ≤ monthOfYear n ∧ monthOfYear n ≤ 11 := by
    unfold monthOfYear
    omega
  have hb : (4 * (n + 32044) + 3).tdiv 146097 = centuryOf n := tdiv_of_nonneg (by omega) _
  have hc : n + 32044 - (centuryOf n * 146097).tdiv 4 = dayOfCentury n := by
    rw [tdiv_of_nonneg (by omega), mul_comm, dayOfCentury]
  have hd : (4 * dayOfCentury n + 3).tdiv 1461 = yearOfCentury n := tdiv_of_nonneg (by omega) _
  have he : dayOfCentury n - (1461 * yearOfCentury n).tdiv 4 = dayOfYear n := by
    rw [tdiv_of_nonneg (by omega), dayOfYear]
  have hm : (5 * dayOfYear n + 2).tdiv 153 = monthOfYear n := tdiv_of_nonneg (by omega) _
  have hten : (monthOfYear n).tdiv 10 = monthOfYear n / 10 := tdiv_of_nonneg hmonth.1 10
  have hfive : (153 * monthOfYear n + 2).tdiv 5 = (153 * monthOfYear n + 2) / 5 :=
    tdiv_of_nonneg (by omega) 5
  unfold getYearMonthDay
  simp (disch := omega) only [↓int_bind, hb, hc, hd, he, hm, hten, hfive]
  rw [ofNumber, mul_comm (centuryOf n)]
  rfl

theorem number_bounds (h : date.Valid) (hlow : -4799 ≤ date.year) (hhigh : date.year ≤ 1400000) :
    -32044 ≤ date.number ∧ date.number ≤ 519000000 := by
  obtain ⟨hday, hday', -⟩ := h.marchDay_le
  have hy : 0 ≤ date.marchYear ∧ date.marchYear ≤ 1404800 := by
    unfold marchYear
    split_ifs <;> omega
  unfold number firstDay
  omega

theorem getYearMonthDay_eq (h : date.Valid) (hlow : -4799 ≤ date.year)
    (hhigh : date.year ≤ 1400000) :
    getYearMonthDay date.number = .ok date := by
  obtain ⟨hfirst, hlast⟩ := number_bounds h hlow hhigh
  rw [getYearMonthDay_eq_ofNumber hfirst hlast, ofNumber_number h]

theorem firstDay_succ (y : ℤ) :
    firstDay (y + 1) = firstDay y + if IsLeapYear (y + 1) then 366 else 365 := by
  have h4 : (y + 1) / 4 = y / 4 + if (y + 1) % 4 = 0 then 1 else 0 := by split_ifs <;> omega
  have h100 : (y + 1) / 100 = y / 100 + if (y + 1) % 100 = 0 then 1 else 0 := by
    split_ifs <;> omega
  have h400 : (y + 1) / 400 = y / 400 + if (y + 1) % 400 = 0 then 1 else 0 := by
    split_ifs <;> omega
  unfold firstDay IsLeapYear
  rw [h4, h100, h400]
  split_ifs <;> omega

theorem isLeapYear_add (year : ℤ) : IsLeapYear (year + 4800) ↔ IsLeapYear year := by
  unfold IsLeapYear
  omega

/-- Inside a year that starts in March the days are counted one by one. -/
theorem marchDay_next (h : date.Valid) (hlast : date.day < daysOfMonth date.year date.month ∨
    date.month ≠ 2) :
    date.next.marchYear = date.marchYear ∧ date.next.marchDay = date.marchDay + 1 := by
  obtain ⟨hpos, hle, hday, hdays⟩ := h
  unfold next
  by_cases hinside : date.day < daysOfMonth date.year date.month
  · rw [if_pos hinside]
    refine ⟨rfl, ?_⟩
    simp only [marchDay, marchMonth]
    ring
  have hday : date.day = daysOfMonth date.year date.month := by omega
  rw [if_neg hinside]
  simp only [marchYear, marchDay, marchMonth, hday]
  unfold daysOfMonth
  have hmonth : date.month ≠ 2 := hlast.resolve_left hinside
  interval_cases hm : date.month <;> simp at hmonth ⊢
  omega

theorem number_next (h : date.Valid) : date.next.number = date.number + 1 := by
  unfold number
  by_cases hlast : date.day < daysOfMonth date.year date.month ∨ date.month ≠ 2
  · obtain ⟨hyear, hday⟩ := marchDay_next h hlast
    rw [hyear, hday, add_assoc]
  · push Not at hlast
    obtain ⟨hday, hmonth⟩ := hlast
    have hday : date.day = daysOfMonth date.year 2 := by
      have := h.day_le
      rw [hmonth] at this hday
      omega
    have hleap := isLeapYear_add date.year
    have hsucc := firstDay_succ (date.year + 4799)
    have hyear : date.year + 4799 + 1 = date.year + 4800 := by ring
    have hyear' : date.year + 4800 - 1 = date.year + 4799 := by ring
    rw [hyear] at hsucc
    unfold daysOfMonth at hday
    unfold next
    simp only [marchYear, marchDay, marchMonth, hday, hmonth, daysOfMonth, hleap] at hsucc ⊢
    norm_num [hyear', hsucc]
    split_ifs <;> omega

theorem next_valid (h : date.Valid) : date.next.Valid := by
  obtain ⟨hpos, hle, hday, hdays⟩ := h
  unfold next
  split_ifs with hlast hmonth
  · exact ⟨hpos, hle, by dsimp only; omega, by dsimp only; omega⟩
  · refine ⟨by dsimp only; omega, by dsimp only; omega, le_rfl, ?_⟩
    unfold daysOfMonth
    split_ifs <;> norm_num
  · refine ⟨le_rfl, by norm_num, le_rfl, ?_⟩
    norm_num [daysOfMonth]

theorem next_year (h : date.Valid) :
    date.next.year = date.year ∨ date.next.year = date.year + 1 ∧ date = ⟨date.year, 12, 31⟩ := by
  obtain ⟨hpos, hle, hday, hdays⟩ := h
  unfold next
  split_ifs with hlast hmonth
  · exact .inl rfl
  · exact .inl rfl
  · have hmonth : date.month = 12 := by omega
    have hday : date.day = 31 := by
      rw [hmonth] at hlast hdays
      norm_num [daysOfMonth] at hlast hdays
      omega
    refine .inr ⟨rfl, ?_⟩
    rw [← hmonth, ← hday]

/-- Every number from the first to the last one is that of a date. -/
theorem exists_date {first last : YearMonthDay} (hfirst : first.Valid)
    (hlast : last = ⟨last.year, 12, 31⟩) (hyears : first.year ≤ last.year) {n : ℤ}
    (hlow : first.number ≤ n) (hhigh : n ≤ last.number) :
    ∃ date : YearMonthDay, date.Valid ∧ first.year ≤ date.year ∧ date.year ≤ last.year ∧
      date.number = n := by
  induction n, hlow using Int.leInduction with
  | base => exact ⟨first, hfirst, le_rfl, hyears, rfl⟩
  | succ n hlow ih =>
    obtain ⟨date, hvalid, hge, hle, hnumber⟩ := ih (by omega)
    refine ⟨date.next, next_valid hvalid, ?_, ?_, by rw [number_next hvalid, hnumber]⟩
    · rcases next_year hvalid with hyear | ⟨hyear, -⟩ <;> omega
    · rcases next_year hvalid with hyear | ⟨hyear, hdate⟩
      · omega
      · -- behind the last day of the last year there is no number left
        have hne : date.year ≠ last.year := by
          intro heq
          rw [heq, ← hlast] at hdate
          rw [hdate] at hnumber
          omega
        omega

theorem exists_number (n : ℤ) : ∃ date : YearMonthDay, date.Valid ∧ date.number = n := by
  have hge := neg_abs_le n
  have hle := le_abs_self n
  have hfirst : (⟨-|n| - 10000, 1, 1⟩ : YearMonthDay).Valid := by
    constructor <;> norm_num [daysOfMonth]
  have hlow : (⟨-|n| - 10000, 1, 1⟩ : YearMonthDay).number ≤ n := by
    simp only [number, firstDay, marchYear, marchDay, marchMonth]
    norm_num
    omega
  have hhigh : n ≤ (⟨|n| + 10000, 12, 31⟩ : YearMonthDay).number := by
    simp only [number, firstDay, marchYear, marchDay, marchMonth]
    norm_num
    omega
  have hyears : -|n| - 10000 ≤ |n| + 10000 := by
    have := abs_nonneg n
    omega
  obtain ⟨date, hvalid, -, -, hnumber⟩ := exists_date hfirst rfl hyears hlow hhigh
  exact ⟨date, hvalid, hnumber⟩

theorem ofNumber_valid (n : ℤ) : (ofNumber n).Valid ∧ (ofNumber n).number = n := by
  obtain ⟨date, hvalid, rfl⟩ := exists_number n
  rw [ofNumber_number hvalid]
  exact ⟨hvalid, rfl⟩

/-- The conversions are inverse to each other on the dates of the years from -4799
to 1400000 and on their numbers, and the day after a day has the next number. No
operation overflows in any of these. -/
theorem julianDayNumber_faithful :
    (∀ date : YearMonthDay, date.Valid → -4799 ≤ date.year → date.year ≤ 1400000 →
      ∃ n, getJulianDayNumber date.year date.month date.day = .ok n ∧
        getYearMonthDay n = .ok date ∧
        getJulianDayNumber date.next.year date.next.month date.next.day = .ok (n + 1)) ∧
    ∀ first last n, getJulianDayNumber (-4799) 1 1 = .ok first →
      getJulianDayNumber 1400000 12 31 = .ok last → first ≤ n → n ≤ last →
      ∃ date : YearMonthDay, getYearMonthDay n = .ok date ∧ date.Valid ∧ -4799 ≤ date.year ∧
        date.year ≤ 1400000 ∧ getJulianDayNumber date.year date.month date.day = .ok n := by
  constructor
  · intro date hvalid hlow hhigh
    have hnext := next_year hvalid
    refine ⟨date.number, getJulianDayNumber_eq hvalid hlow (by omega),
      getYearMonthDay_eq hvalid hlow hhigh, ?_⟩
    rw [getJulianDayNumber_eq (next_valid hvalid) (by omega) (by omega), number_next hvalid]
  · intro first last n hfirst hlast hlow hhigh
    have hvalid : (⟨-4799, 1, 1⟩ : YearMonthDay).Valid := by
      constructor <;> norm_num [daysOfMonth]
    have hvalid' : (⟨1400000, 12, 31⟩ : YearMonthDay).Valid := by
      constructor <;> norm_num [daysOfMonth]
    have hfirst' := getJulianDayNumber_eq hvalid (by norm_num) (by norm_num)
    have hlast' := getJulianDayNumber_eq hvalid' (by norm_num) (by norm_num)
    rw [Except.ok.inj (hfirst.symm.trans hfirst')] at hlow
    rw [Except.ok.inj (hlast.symm.trans hlast')] at hhigh
    obtain ⟨date, hdate, hge, hle, rfl⟩ := exists_date hvalid rfl (by norm_num) hlow hhigh
    have hge : -4799 ≤ date.year := hge
    have hle : date.year ≤ 1400000 := hle
    exact ⟨date, getYearMonthDay_eq hdate hge hle, hdate, hge, hle,
      getJulianDayNumber_eq hdate hge (by omega)⟩

end Date
end Muduo
