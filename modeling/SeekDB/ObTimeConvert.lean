/-
Dates as day numbers and as calendar parts: `date_to_ob_time` with its two
fixed-point multiplications, and `ob_time_to_date` and `calc_date` back.
-/
import Mathlib

namespace SeekDB.ObTimeConverter

def zeroDate : Int := -106751991

def daysPerNyear : Int := 365

def daysFromZeroToBase : Int := 719528

def epochYear4 : Int := 1970

def epochWday : Nat := 4

/-- `IS_LEAP_YEAR`: the source tabulates the years below 10000, year 0 as a common one. -/
def isLeapYear (y : Int) : Bool :=
  y ≠ 0 && y % 4 = 0 && (y % 100 ≠ 0 || y % 400 = 0)

def daysUntilMon : Bool → List Int
  | false => [0, 31, 59, 90, 120, 151, 181, 212, 243, 273, 304, 334, 365]
  | true => [0, 31, 60, 91, 121, 152, 182, 213, 244, 274, 305, 335, 366]

def leapYearCount (y : Int) : Int := y.tdiv 4 - y.tdiv 100 + y.tdiv 400

def wdayOffsetArr : List (List Int) :=
  [[0, 2, 3, 4, 5, 6, 7, 1], [0, 3, 4, 5, 6, 7, 1, 2], [0, 4, 5, 6, 7, 1, 2, 3],
    [0, 5, 6, 7, 1, 2, 3, 4], [0, 6, 7, 1, 2, 3, 4, 5], [0, 7, 1, 2, 3, 4, 5, 6],
    [0, 1, 2, 3, 4, 5, 6, 7], [0, 2, 3, 4, 5, 6, 7, 1], [0, 3, 4, 5, 6, 7, 1, 2],
    [0, 4, 5, 6, 7, 1, 2, 3], [0, 5, 6, 7, 1, 2, 3, 4], [0, 6, 7, 1, 2, 3, 4, 5],
    [0, 7, 1, 2, 3, 4, 5, 6]]

/-- `WDAY_OFFSET` points at row 6 of the table, so an offset may be negative. -/
def wdayOffset (offset : Int) (wday : Nat) : Int :=
  (wdayOffsetArr.getD (6 + offset).toNat []).getD wday 0

/-- The date parts of an `ObTime`, and whether its type has nanoseconds. -/
structure ObTime where
  hasTypeNanosecond : Bool
  year : Int
  mon : Int
  mday : Int
  yday : Int
  wday : Int
  date : Int
  deriving DecidableEq, Repr

/-- `>>` of a signed number. -/
def sar (x : Int) (n : Nat) : Int := x / 2 ^ n

def daysToYearYdays (days : Int) : Int × Int :=
  let date := days + daysFromZeroToBase
  let x := sar (date * 3762951 - 1374417852) 37
  let halfLeap := x - sar x 2
  let year := sar ((date + halfLeap) * 2939745) 30
  (year, date - year * 365 - sar (year - if year ≠ 0 then 1 else 0) 2 + halfLeap)

def ydaysToMonthMdays (isLeap : Bool) (dtYday : Int) : Int × Int :=
  let month := 1 + sar (dtYday - 1) 5
  let month := if dtYday > (daysUntilMon isLeap).getD month.toNat 0 then month + 1 else month
  (month, dtYday - (daysUntilMon isLeap).getD (month - 1).toNat 0)

def dateToObTime (value : Int) (obTime : ObTime) : ObTime :=
  if !obTime.hasTypeNanosecond && value = zeroDate then
    ⟨obTime.hasTypeNanosecond, 0, 0, 0, 0, 0, zeroDate⟩
  else
    let (year, yday) := daysToYearYdays value
    let (mon, mday) := ydaysToMonthMdays (isLeapYear year) yday
    ⟨obTime.hasTypeNanosecond, year, mon, mday, yday, wdayOffset (value.tmod 7) epochWday, value⟩

def obTimeToDate (obTime : ObTime) : Int × ObTime :=
  if obTime.date = zeroDate ∧ !obTime.hasTypeNanosecond then
    (zeroDate, obTime)
  else
    let yday :=
      if obTime.mon ≤ 0 ∨ obTime.mon > 13 then 0
      else (daysUntilMon (isLeapYear obTime.year)).getD (obTime.mon - 1).toNat 0 + obTime.mday
    let value := (obTime.year - epochYear4) * daysPerNyear +
      (leapYearCount (obTime.year - 1) - leapYearCount (epochYear4 - 1)) + yday - 1
    (value, { obTime with yday := yday, wday := wdayOffset (value.tmod 7) epochWday })

def calcDate (year month day : Int) : Int :=
  if month = 0 ∨ day = 0 then
    zeroDate
  else
    let dtYday :=
      if month ≤ 13 then (daysUntilMon (isLeapYear year)).getD (month - 1).toNat 0 + day else 0
    (year - epochYear4) * daysPerNyear +
      (leapYearCount (year - 1) - leapYearCount (epochYear4 - 1)) + dtYday - 1

section

/-- The calendar itself: year 0 is a common year, the others are Gregorian. -/
def monthLength (isLeap : Bool) (month : Int) : Int :=
  if month = 2 then (if isLeap then 29 else 28)
  else if month = 4 ∨ month = 6 ∨ month = 9 ∨ month = 11 then 30 else 31

def dayOfYear (isLeap : Bool) (month day : Int) : Int :=
  ((List.range (month - 1).toNat).map fun m : Nat => monthLength isLeap (m + 1)).sum + day

/-- The weekday from Monday as 1, by the Thursday of 1970-01-01. -/
def weekday (value : Int) : Int := (value + 3) % 7 + 1

structure ValidDate (year month day : Int) : Prop where
  year_nonneg : 0 ≤ year
  year_le : year ≤ 9999
  one_le_month : 1 ≤ month
  month_le : month ≤ 12
  one_le_day : 1 ≤ day
  day_le : day ≤ monthLength (isLeapYear year) month

def daysInYear (year : Int) : Int := if isLeapYear year then 366 else 365

/-- The day number of a day of a year. -/
def dayNumber (year yday : Int) : Int :=
  (year - epochYear4) * daysPerNyear +
    (leapYearCount (year - 1) - leapYearCount (epochYear4 - 1)) + yday - 1

end

variable {year yday month mday value : Int}

/-- A positive year: the cycles of 400 years, the centuries, the leap years and the years
before it. -/
structure Cycles (year a b c e : Int) : Prop where
  year_eq : year = 400 * a + 100 * b + 4 * c + e + 1
  a_bounds : 0 ≤ a ∧ a ≤ 24
  b_bounds : 0 ≤ b ∧ b ≤ 3
  c_bounds : 0 ≤ c ∧ c ≤ 24
  e_bounds : 0 ≤ e ∧ e ≤ 3

theorem exists_cycles (hyear : 1 ≤ year) (hle : year ≤ 9999) : ∃ a b c e, Cycles year a b c e := by
  refine ⟨(year - 1) / 400, (year - 1) % 400 / 100, (year - 1) % 400 % 100 / 4, (year - 1) % 4,
    ?_, ?_, ?_, ?_, ?_⟩ <;> omega

theorem Cycles.leapYearCount_eq {a b c e : Int} (h : Cycles year a b c e) :
    leapYearCount (year - 1) = 97 * a + 24 * b + c := by
  obtain ⟨rfl, ha, hb, hc, he⟩ := h
  simp only [leapYearCount, Int.tdiv_eq_ediv_of_nonneg
    (by omega : 0 ≤ 400 * a + 100 * b + 4 * c + e + 1 - 1)]
  have hfour : (400 * a + 100 * b + 4 * c + e + 1 - 1) / 4 = 100 * a + 25 * b + c := by omega
  omega

theorem Cycles.daysInYear_eq {a b c e : Int} (h : Cycles year a b c e) :
    daysInYear year = if e = 3 ∧ (c ≤ 23 ∨ b = 3) then 366 else 365 := by
  obtain ⟨rfl, ha, hb, hc, he⟩ := h
  have hfour : (400 * a + 100 * b + 4 * c + e + 1) % 4 = 0 ↔ e = 3 := by omega
  have hcentury : (400 * a + 100 * b + 4 * c + e + 1) % 100 = 0 ↔ c = 24 ∧ e = 3 := by omega
  simp only [daysInYear, isLeapYear, ne_eq, Bool.and_eq_true, Bool.or_eq_true,
    decide_eq_true_eq, hfour, hcentury]
  congr 1
  rw [eq_iff_iff]
  omega

theorem Cycles.leapYearCount_succ {a b c e : Int} (h : Cycles year a b c e) (hle : year < 9999) :
    leapYearCount (year + 1 - 1) = leapYearCount (year - 1) + daysInYear year - 365 := by
  rw [h.leapYearCount_eq, h.daysInYear_eq]
  obtain ⟨rfl, ha, hb, hc, he⟩ := h
  have hnext (a' b' c' e' : Int)
      (h' : Cycles (400 * a + 100 * b + 4 * c + e + 1 + 1) a' b' c' e') :=
    h'.leapYearCount_eq
  by_cases he3 : e = 3
  · by_cases hc24 : c = 24
    · by_cases hb3 : b = 3
      · rw [hnext (a + 1) 0 0 0 (by constructor <;> omega)]
        split <;> omega
      · rw [hnext a (b + 1) 0 0 (by constructor <;> omega)]
        split <;> omega
    · rw [hnext a b (c + 1) 0 (by constructor <;> omega)]
      split <;> omega
  · rw [hnext a b c (e + 1) (by constructor <;> omega)]
    split <;> omega

theorem dayNumber_add_base : dayNumber year yday + daysFromZeroToBase =
    365 * year + leapYearCount (year - 1) + yday := by
  have hepoch : leapYearCount (epochYear4 - 1) = 477 := by decide
  rw [dayNumber, hepoch, epochYear4, daysPerNyear, daysFromZeroToBase]
  omega

/-- The first multiplication counts the centuries, the second one the years of a
calendar that has a leap day every four years. -/
theorem daysToYearYdays_dayNumber (hyear : 0 ≤ year) (hle : year ≤ 9999) (hyday : 1 ≤ yday)
    (hydayle : yday ≤ daysInYear year) :
    daysToYearYdays (dayNumber year yday) = (year, yday) := by
  simp only [daysToYearYdays, dayNumber_add_base, sar]
  rcases hyear.eq_or_lt with rfl | hpos
  · have hle : yday ≤ 365 := hydayle
    have hzero : leapYearCount (0 - 1) = 0 := by decide
    rw [hzero]
    simp only [Prod.mk.injEq]
    omega
  obtain ⟨a, b, c, e, h⟩ := exists_cycles hpos hle
  rw [h.daysInYear_eq] at hydayle
  rw [h.leapYearCount_eq]
  obtain ⟨rfl, ha, hb, hc, he⟩ := h
  have hdays : yday ≤ 365 ∨ yday = 366 ∧ e = 3 ∧ (c ≤ 23 ∨ b = 3) := by
    split at hydayle <;> omega
  have hx : ((365 * (400 * a + 100 * b + 4 * c + e + 1) + (97 * a + 24 * b + c) + yday) *
      3762951 - 1374417852) / 2 ^ 37 = 4 * a + b := by
    omega
  have hcycle : (4 * a + b) / 2 ^ 2 = a := by omega
  have hy : (365 * (400 * a + 100 * b + 4 * c + e + 1) + (97 * a + 24 * b + c) + yday +
      (4 * a + b - a)) * 2939745 / 2 ^ 30 =
      400 * a + 100 * b + 4 * c + e + 1 := by
    omega
  have hfour : (400 * a + 100 * b + 4 * c + e + 1 - 1) / 2 ^ 2 = 100 * a + 25 * b + c := by
    omega
  have hne : 400 * a + 100 * b + 4 * c + e + 1 ≠ 0 := by omega
  rw [hx, hcycle, hy, if_pos hne, hfour, Prod.mk.injEq]
  exact ⟨rfl, by omega⟩

theorem dayNumber_next (hyear : 0 ≤ year) (hle : year < 9999) :
    dayNumber (year + 1) 1 = dayNumber year (daysInYear year) + 1 := by
  rcases hyear.eq_or_lt with rfl | hpos
  · decide
  obtain ⟨a, b, c, e, h⟩ := exists_cycles hpos hle.le
  have hcount := h.leapYearCount_succ hle
  rw [dayNumber, dayNumber, hcount, epochYear4, daysPerNyear]
  omega

theorem exists_dayNumber (hmin : dayNumber 0 1 ≤ value) (hmax : value ≤ dayNumber 9999 365) :
    ∃ year yday, 0 ≤ year ∧ year ≤ 9999 ∧ 1 ≤ yday ∧ yday ≤ daysInYear year ∧
      dayNumber year yday = value := by
  induction value, hmin using Int.leInduction with
  | base => exact ⟨0, 1, by decide, by decide, by decide, by decide, rfl⟩
  | succ value _ ih =>
    obtain ⟨year, yday, hyear, hle, hyday, hdays, rfl⟩ := ih (by omega)
    rcases hdays.lt_or_eq with hlt | rfl
    · refine ⟨year, yday + 1, hyear, hle, by omega, hlt, ?_⟩
      rw [dayNumber, dayNumber]
      omega
    have hlast : year ≠ 9999 := by
      rintro rfl
      have hdays : daysInYear 9999 = 365 := by decide
      rw [hdays] at hmax
      omega
    refine ⟨year + 1, 1, by omega, by omega, le_refl 1, ?_, dayNumber_next hyear (by omega)⟩
    unfold daysInYear
    split <;> decide

theorem dayNumber_bounds (hyear : 0 ≤ year) (hle : year ≤ 9999) (hyday : 1 ≤ yday)
    (hydayle : yday ≤ daysInYear year) :
    dayNumber 0 1 ≤ dayNumber year yday ∧ dayNumber year yday ≤ dayNumber 9999 365 := by
  have hfirst : dayNumber 0 1 = -719527 := by decide
  have hlast : dayNumber 9999 365 = 2932896 := by decide
  have hbase : dayNumber year yday + 719528 = _ := dayNumber_add_base
  rcases hyear.eq_or_lt with rfl | hpos
  · have hzero : leapYearCount (0 - 1) = 0 := by decide
    have hydayle : yday ≤ 365 := hydayle
    omega
  obtain ⟨a, b, c, e, h⟩ := exists_cycles hpos hle
  rw [h.daysInYear_eq] at hydayle
  rw [h.leapYearCount_eq] at hbase
  obtain ⟨rfl, ha, hb, hc, he⟩ := h
  have hdays : yday ≤ 366 := by split at hydayle <;> omega
  split at hydayle <;> omega

theorem ydaysToMonthMdays_spec : ∀ (isLeap : Bool) (k : Fin 366),
    (k.val : Int) < (if isLeap then 366 else 365) →
      let parts := ydaysToMonthMdays isLeap (k.val + 1)
      1 ≤ parts.1 ∧ parts.1 ≤ 12 ∧ 1 ≤ parts.2 ∧ parts.2 ≤ monthLength isLeap parts.1 ∧
        (daysUntilMon isLeap).getD (parts.1 - 1).toNat 0 + parts.2 = k.val + 1 := by
  decide +kernel

theorem daysUntilMon_spec : ∀ (isLeap : Bool) (m : Fin 12) (d : Fin 31),
    (d.val : Int) < monthLength isLeap (m.val + 1) →
      let yday := (daysUntilMon isLeap).getD m.val 0 + (d.val + 1)
      yday = dayOfYear isLeap (m.val + 1) (d.val + 1) ∧ 1 ≤ yday ∧
        yday ≤ (if isLeap then 366 else 365) ∧
        ydaysToMonthMdays isLeap yday = ((m.val + 1 : Int), (d.val + 1 : Int)) := by
  decide +kernel

theorem wdayOffset_epoch (value : Int) : wdayOffset (value.tmod 7) epochWday = weekday value := by
  have hrow : ∀ k : Fin 13, wdayOffset ((k.val : Int) - 6) epochWday =
      weekday ((k.val : Int) - 6) := by decide
  have hlt := Int.tmod_lt_of_pos value (by decide : (0 : Int) < 7)
  have hgt := Int.lt_tmod_of_pos value (by decide : (0 : Int) < 7)
  have hval := hrow ⟨(value.tmod 7 + 6).toNat, by omega⟩
  rw [show (((value.tmod 7 + 6).toNat : Nat) : Int) - 6 = value.tmod 7 by omega] at hval
  rw [hval, weekday, weekday]
  have := Int.tmod_add_mul_tdiv value 7
  omega

namespace ValidDate

variable (h : ValidDate year month mday)

include h

theorem yday_spec :
    let yday := (daysUntilMon (isLeapYear year)).getD (month - 1).toNat 0 + mday
    yday = dayOfYear (isLeapYear year) month mday ∧ 1 ≤ yday ∧ yday ≤ daysInYear year ∧
      ydaysToMonthMdays (isLeapYear year) yday = (month, mday) := by
  obtain ⟨-, -, hmonth, hmonthle, hday, hdayle⟩ := h
  have hlength : monthLength (isLeapYear year) month ≤ 31 := by
    unfold monthLength
    split_ifs <;> decide
  have hspec := daysUntilMon_spec (isLeapYear year) ⟨(month - 1).toNat, by omega⟩
    ⟨(mday - 1).toNat, by omega⟩
  have hm : (((month - 1).toNat : Nat) : Int) + 1 = month := by omega
  have hd : (((mday - 1).toNat : Nat) : Int) + 1 = mday := by omega
  simp only [hm, hd] at hspec
  exact hspec (by omega)

theorem calcDate_eq : calcDate year month mday =
    dayNumber year (dayOfYear (isLeapYear year) month mday) := by
  obtain ⟨hyday, -⟩ := h.yday_spec
  have := h.one_le_month
  have := h.month_le
  have := h.one_le_day
  simp only [calcDate, dayNumber, ← hyday]
  rw [if_neg (by omega), if_pos (by omega)]

theorem dateToObTime_eq (obTime : ObTime) : dateToObTime (calcDate year month mday) obTime =
    ⟨obTime.hasTypeNanosecond, year, month, mday, dayOfYear (isLeapYear year) month mday,
      weekday (calcDate year month mday), calcDate year month mday⟩ := by
  obtain ⟨hyday, hone, hle, hparts⟩ := h.yday_spec
  rw [hyday] at hone hle hparts
  have hne : calcDate year month mday ≠ zeroDate := by
    have hfirst : zeroDate < dayNumber 0 1 := by decide
    have hmin := (dayNumber_bounds h.year_nonneg h.year_le hone hle).1
    rw [h.calcDate_eq]
    omega
  simp only [dateToObTime, hne, decide_false, Bool.and_false, Bool.false_eq_true, if_false,
    wdayOffset_epoch]
  rw [h.calcDate_eq, daysToYearYdays_dayNumber h.year_nonneg h.year_le hone hle]
  simp only [hparts]

theorem obTimeToDate_eq (obTime : ObTime) :
    (obTimeToDate (dateToObTime (calcDate year month mday) obTime)).1 =
      calcDate year month mday := by
  rw [h.dateToObTime_eq]
  have := h.one_le_month
  have := h.month_le
  have := h.one_le_day
  unfold obTimeToDate
  split
  · rename_i hzero
    exact hzero.1.symm
  · simp only [calcDate]
    rw [if_neg (by omega), if_neg (by omega), if_pos (by omega)]

end ValidDate

theorem exists_validDate (hmin : calcDate 0 1 1 ≤ value) (hmax : value ≤ calcDate 9999 12 31) :
    ∃ year month mday, ValidDate year month mday ∧ calcDate year month mday = value := by
  obtain ⟨year, yday, hyear, hle, hyday, hdays, rfl⟩ := exists_dayNumber hmin hmax
  have hspec := ydaysToMonthMdays_spec (isLeapYear year) ⟨(yday - 1).toNat, by
    unfold daysInYear at hdays
    split at hdays <;> omega⟩
  have hback : (((yday - 1).toNat : Nat) : Int) + 1 = yday := by omega
  simp only [hback] at hspec
  obtain ⟨hmonth, hmonthle, hday, hdayle, hsum⟩ := hspec (by rw [daysInYear] at hdays; omega)
  have hvalid : ValidDate year (ydaysToMonthMdays (isLeapYear year) yday).1
      (ydaysToMonthMdays (isLeapYear year) yday).2 :=
    ⟨hyear, hle, hmonth, hmonthle, hday, hdayle⟩
  exact ⟨_, _, _, hvalid, by rw [hvalid.calcDate_eq, ← hvalid.yday_spec.1, hsum]⟩

/-- Day numbers and valid dates correspond one to one, and both ways back give the day
number. -/
theorem calendar_bijection :
    (∀ value, calcDate 0 1 1 ≤ value → value ≤ calcDate 9999 12 31 → ∀ obTime,
      let parts := dateToObTime value obTime
      ValidDate parts.year parts.mon parts.mday ∧ parts.date = value ∧
        parts.yday = dayOfYear (isLeapYear parts.year) parts.mon parts.mday ∧
        parts.wday = weekday value ∧ (obTimeToDate parts).1 = value ∧
        calcDate parts.year parts.mon parts.mday = value) ∧
      ∀ year month mday, ValidDate year month mday →
        ∃! value, (calcDate 0 1 1 ≤ value ∧ value ≤ calcDate 9999 12 31) ∧
          ∀ obTime, ((dateToObTime value obTime).year, (dateToObTime value obTime).mon,
            (dateToObTime value obTime).mday) = (year, month, mday) := by
  refine ⟨?_, ?_⟩
  · intro value hmin hmax obTime
    obtain ⟨year, month, mday, h, rfl⟩ := exists_validDate hmin hmax
    have hback := h.obTimeToDate_eq obTime
    rw [h.dateToObTime_eq] at hback ⊢
    exact ⟨h, rfl, rfl, rfl, hback, rfl⟩
  intro year month mday h
  obtain ⟨hyday, hone, hle, -⟩ := h.yday_spec
  rw [hyday] at hone hle
  refine ⟨calcDate year month mday, ⟨?_, ?_⟩, ?_⟩
  · rw [h.calcDate_eq]
    exact dayNumber_bounds h.year_nonneg h.year_le hone hle
  · intro obTime
    rw [h.dateToObTime_eq]
  rintro value ⟨⟨hmin, hmax⟩, hparts⟩
  obtain ⟨year', month', mday', h', rfl⟩ := exists_validDate hmin hmax
  have hsame := hparts ⟨false, 0, 0, 0, 0, 0, 0⟩
  rw [h'.dateToObTime_eq] at hsame
  simp only [Prod.mk.injEq] at hsame
  obtain ⟨rfl, rfl, rfl⟩ := hsame
  rfl

theorem calendar_bijection_leap_day :
    (dateToObTime 19782 ⟨false, 0, 0, 0, 0, 0, 0⟩).wday = weekday 19782 ∧
      ∃ value, (dateToObTime value ⟨false, 0, 0, 0, 0, 0, 0⟩).mday = 29 :=
  ⟨(calendar_bijection.1 19782 (by decide) (by decide) ⟨false, 0, 0, 0, 0, 0, 0⟩).2.2.2.1, by
    obtain ⟨value, ⟨-, hparts⟩, -⟩ :=
      calendar_bijection.2 2024 2 29 (by constructor <;> decide)
    exact ⟨value, (Prod.mk.inj (Prod.mk.inj (hparts _)).2).2⟩⟩

end SeekDB.ObTimeConverter
